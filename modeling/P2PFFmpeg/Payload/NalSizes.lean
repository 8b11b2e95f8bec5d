import P2PFFmpeg.Payload.PacketSize

/-!
`nal_send` by sizes: when it returns, and how many bytes then wait in the buffer.
The size may be negative, for data that end inside a length prefix.
-/

namespace P2PFFmpeg.Payload

open Util

section Sizes

variable (max header : Nat) (mode0 : Bool)

/-- A unit of some size joins the `b` bytes that wait, or those it has made go. -/
def Joins (b : Nat) (size : Int) : Prop :=
  (if b + 2 + size > max then (0 : Int) else b) + 2 + header + size ≤ max ∧ mode0 = false

/-- `nal_send` returns for a unit of some size. -/
def Sendable (b : Nat) (size : Int) : Prop :=
  (max < size → mode0 = true ∨ header + 1 < max) ∧ (size < 0 → ¬Joins max header mode0 b size)

instance (b : Nat) (size : Int) : Decidable (Joins max header mode0 b size) :=
  inferInstanceAs (Decidable (_ ∧ _))

def fillBehind (b : Nat) (size : Int) : Nat :=
  if size ≤ max ∧ Joins max header mode0 b size then
    (if b = 0 ∨ b + 2 + size > max then header else b) + 2 + size.toNat
  else 0

/-- `nal_send` returns for units of some sizes, one after the other. -/
def SendableFrom (b : Nat) : List Int → Prop
  | [] => True
  | size :: sizes => Sendable max header mode0 b size ∧
      SendableFrom (fillBehind max header mode0 b size) sizes

end Sizes

theorem Emits.sent_fits {s t : RTPMuxContext} {out : Payloads} (h : Emits s t out) :
    ∃ new, t.sent = s.sent ++ new ∧ ∀ p ∈ new, p.payload.length ≤ s.maxPayloadSize := by
  refine ⟨_, h.sent, fun p hp => ?_⟩
  have hmem := List.mem_map_of_mem hp (f := RtpPacket.payload)
  rw [map_payload_stamp] at hmem
  obtain ⟨q, hq, hpayload⟩ := List.mem_map.mp hmem
  rw [← hpayload]
  exact h.fits q hq

section NalSend

variable {s : RTPMuxContext}

theorem flushBuffered_emits (h : s.buf.length ≤ s.maxPayloadSize) (last : Bool) :
    ∃ out, Emits s (flushBuffered s last) out := by
  have hsend : ∀ (data : List UInt8) (len : Int), data.length ≤ s.maxPayloadSize →
      ∃ out, Emits s { ffRtpSendData s data len last with buf := [], bufferedNals := 0 } out := by
    intro data len hdata
    have hemits := @ffRtpSendData_emits s data (data.take len.toNat) len last rfl
      (Nat.le_trans (List.length_take_le' _ _) hdata)
    exact ⟨_, hemits.sent, hemits.seq, hemits.fits, rfl, rfl, rfl, rfl, rfl, rfl, rfl⟩
  have hdrop : ∀ n, (s.buf.drop n).length ≤ s.maxPayloadSize := by
    intro n
    rw [List.length_drop]
    omega
  unfold flushBuffered
  dsimp only
  split
  · exact ⟨[], .nil rfl rfl rfl rfl rfl rfl rfl rfl rfl⟩
  · split
    · split
      · exact hsend _ _ (hdrop 3)
      · exact hsend _ _ (hdrop 4)
    · exact hsend _ _ h

@[simp] theorem flushBuffered_buf (s : RTPMuxContext) (last : Bool) :
    (flushBuffered s last).buf = [] := rfl

theorem sendFragments_emits {head data : List UInt8} {fuHeader : UInt8} {last : Bool}
    (hleast : head.length + 1 < s.maxPayloadSize) :
    ∃ t out, sendFragments s head fuHeader data last = some t ∧ Emits s t out ∧ t.buf = s.buf := by
  fun_induction sendFragments s head fuHeader data last with
  | case1 s fuHeader data headerSize hmore hroom => omega
  | case2 s fuHeader data headerSize hmore hroom ih =>
      obtain ⟨t, out, ht, hemits, hbuf⟩ := ih hleast
      have hone := @ffRtpSendData_emits s (head ++ fuHeader :: data.take (s.maxPayloadSize - headerSize))
        _ s.maxPayloadSize false rfl (Nat.le_trans (List.length_take_le _ _) (Nat.le_of_eq (by simp)))
      exact ⟨t, _, ht, hone.trans hemits, hbuf⟩
  | case3 s fuHeader data headerSize hmore =>
      have hsize : (head ++ (fuHeader ||| 0x40) :: data).length ≤ s.maxPayloadSize := by
        simp only [List.length_append, List.length_cons]
        omega
      exact ⟨_, _, rfl, @ffRtpSendData_emits s (head ++ (fuHeader ||| 0x40) :: data) _
        (data.length + headerSize : Int) last rfl (Nat.le_trans (List.length_take_le' _ _) hsize), rfl⟩

theorem sendFragments_none {head data : List UInt8} {fuHeader : UInt8} {last : Bool}
    (hmost : s.maxPayloadSize ≤ head.length + 1)
    (hmore : s.maxPayloadSize < data.length + (head.length + 1)) :
    sendFragments s head fuHeader data last = none := by
  rw [sendFragments]
  simp only [hmost, if_true, gt_iff_lt, hmore]

theorem fragmentStores_within {size maxPayloadSize headerSize flagByte n : Nat}
    (hmax : maxPayloadSize ≤ size) (hflag : flagByte + 1 ≤ size) :
    ∀ w ∈ fragmentStores maxPayloadSize headerSize flagByte n, w.offset + w.length ≤ size := by
  fun_induction fragmentStores maxPayloadSize headerSize flagByte n with
  | case1 => simp
  | case2 n hmore hroom ih =>
      intro w hw
      rcases List.mem_cons.mp hw with rfl | hw
      · dsimp only
        omega
      · rcases List.mem_cons.mp hw with rfl | hw
        · exact hflag
        · exact ih w hw
  | case3 n hmore =>
      intro w hw
      rcases List.mem_cons.mp hw with rfl | hw
      · exact hflag
      · rw [List.mem_singleton.mp hw]
        dsimp only
        omega

def mode0On (s : RTPMuxContext) : Bool := s.codecId = .h264 && s.mode0

theorem sendWhole_joins (hbuf : s.buf.length ≤ s.maxPayloadSize) (buf : List UInt8) (size : Int)
    (last : Bool) :
    ∃ s₁ out, Emits s s₁ out ∧ s₁.buf.length ≤ s.maxPayloadSize ∧
      (s₁.buf = [] ↔ s.buf.length = 0 ∨ s.buf.length + 2 + size > s.maxPayloadSize) ∧
      (s₁.buf ≠ [] → s₁.buf.length = s.buf.length) ∧
      sendWhole s buf size last =
        if Joins s.maxPayloadSize (aggregateHeader s.codecId).length (mode0On s) s.buf.length size then
          if size < 0 then none
          else some { s₁ with
            buf := (if s₁.buf = [] then aggregateHeader s₁.codecId else s₁.buf) ++
              beBytes 2 size.toNat ++ buf.take size.toNat
            bufferedNals := s₁.bufferedNals + 1 }
        else some (ffRtpSendData (flushBuffered s₁ false) buf size last) := by
  by_cases hfull : (s.buf.length : Int) + 2 + size > s.maxPayloadSize
  · obtain ⟨out, hemits⟩ := flushBuffered_emits hbuf false
    refine ⟨flushBuffered s false, out, hemits, by simp, by simp [hfull], by simp, ?_⟩
    simp only [sendWhole, Joins, mode0On, if_pos hfull, flushBuffered_buf, hemits.maxPayloadSize]
    simp
  · refine ⟨s, [], .nil rfl rfl rfl rfl rfl rfl rfl rfl rfl, hbuf, by simp [hfull], fun _ => rfl, ?_⟩
    simp only [sendWhole, Joins, mode0On, if_neg hfull]
    simp

variable {buf : List UInt8} {size : Int}

theorem sendWhole_none (last : Bool) (hbuf : s.buf.length ≤ s.maxPayloadSize) (hneg : size < 0)
    (hjoins : Joins s.maxPayloadSize (aggregateHeader s.codecId).length (mode0On s) s.buf.length size) :
    sendWhole s buf size last = none := by
  obtain ⟨s₁, out, _, _, _, _, hsend⟩ := sendWhole_joins hbuf buf size last
  rw [hsend, if_pos hjoins, if_pos hneg]

theorem sendWhole_returns (last : Bool) (hbuf : s.buf.length ≤ s.maxPayloadSize)
    (hsize : size ≤ s.maxPayloadSize) (hlen : size ≤ buf.length) (hok : size < 0 →
      ¬Joins s.maxPayloadSize (aggregateHeader s.codecId).length (mode0On s) s.buf.length size) :
    ∃ t out, sendWhole s buf size last = some t ∧ Emits s t out ∧ t.buf.length =
      fillBehind s.maxPayloadSize (aggregateHeader s.codecId).length (mode0On s) s.buf.length size := by
  obtain ⟨s₁, out₁, hemits₁, hbuf₁, hempty, hkept, hsend⟩ := sendWhole_joins hbuf buf size last
  by_cases hjoins :
      Joins s.maxPayloadSize (aggregateHeader s.codecId).length (mode0On s) s.buf.length size
  · have hnonneg : ¬size < 0 := fun h => hok h hjoins
    have hfill : size ≤ s.maxPayloadSize ∧ Joins s.maxPayloadSize (aggregateHeader s.codecId).length
        (mode0On s) s.buf.length size := ⟨hsize, hjoins⟩
    rw [hsend, if_pos hjoins, if_neg hnonneg, fillBehind, if_pos hfill]
    refine ⟨_, out₁, rfl, ⟨hemits₁.sent, hemits₁.seq, hemits₁.fits, hemits₁.codecId,
      hemits₁.payloadType, hemits₁.ssrc, hemits₁.timestamp, hemits₁.maxPayloadSize,
      hemits₁.nalLengthSize, hemits₁.mode0⟩, ?_⟩
    have htake : (buf.take size.toNat).length = size.toNat := by
      rw [List.length_take]
      omega
    simp only [List.length_append, length_beBytes, htake, ← hempty]
    by_cases hnil : s₁.buf = []
    · rw [if_pos hnil, if_pos hnil, hemits₁.codecId]
    · rw [if_neg hnil, if_neg hnil, hkept hnil]
  · rw [hsend, if_neg hjoins, fillBehind, if_neg fun h => hjoins h.2]
    obtain ⟨out₂, hemits₂⟩ := @flushBuffered_emits s₁ (by rw [hemits₁.maxPayloadSize]; exact hbuf₁) false
    have hmax : (flushBuffered s₁ false).maxPayloadSize = s.maxPayloadSize :=
      hemits₂.maxPayloadSize.trans hemits₁.maxPayloadSize
    have hone := @ffRtpSendData_emits (flushBuffered s₁ false) buf _ size last rfl (by
      rw [hmax, List.length_take]
      omega)
    exact ⟨_, _, rfl, (hemits₁.trans hemits₂).trans hone, rfl⟩

theorem fillBehind_le {max header b : Nat} {mode0 : Bool} (hok : Sendable max header mode0 b size) :
    fillBehind max header mode0 b size ≤ max := by
  unfold fillBehind
  split
  · next h =>
      have hnonneg : 0 ≤ size := Int.not_lt.mp fun hneg => hok.2 hneg h.2
      have hjoins := h.2.1
      split at hjoins <;> split <;> omega
  · exact Nat.zero_le _

@[simp] theorem length_aggregateHeader (codec : AVCodecID) :
    (aggregateHeader codec).length = match codec with
      | .h264 => 1
      | .hevc => 2 := by
  cases codec <;> rfl

theorem aggregateHeader_length_le (codec : AVCodecID) :
    1 ≤ (aggregateHeader codec).length ∧ (aggregateHeader codec).length ≤ 2 := by
  cases codec <;> simp

theorem nalSend_returns (last : Bool) (hbuf : s.buf.length ≤ s.maxPayloadSize) (hlen : size ≤ buf.length)
    (hok : Sendable s.maxPayloadSize (aggregateHeader s.codecId).length (mode0On s) s.buf.length size) :
    ∃ t out, nalSend s buf size last = some t ∧ Emits s t out ∧ t.buf.length =
      fillBehind s.maxPayloadSize (aggregateHeader s.codecId).length (mode0On s) s.buf.length size := by
  by_cases hsize : size ≤ s.maxPayloadSize
  · rw [nalSend, if_pos hsize]
    exact sendWhole_returns last hbuf hsize hlen hok.2
  · rw [nalSend, if_neg hsize, fillBehind, if_neg fun h => hsize h.1]
    obtain ⟨out₁, hemits₁⟩ := flushBuffered_emits hbuf false
    unfold sendFragmented
    dsimp only
    by_cases hmode0 : (flushBuffered s false).codecId = .h264 ∧ (flushBuffered s false).mode0 = true
    · rw [if_pos hmode0]
      exact ⟨_, out₁, rfl, hemits₁, rfl⟩
    · rw [if_neg hmode0]
      have hon : mode0On s ≠ true := by
        rw [hemits₁.codecId, hemits₁.mode0] at hmode0
        simpa [mode0On] using hmode0
      have hleast := (hok.1 (Int.not_le.mp hsize)).resolve_left hon
      obtain ⟨t, out₂, ht, hemits₂, hbuf₂⟩ := @sendFragments_emits (flushBuffered s false)
        (fragmentHeader (flushBuffered s false).codecId (buf.take size.toNat)).1
        ((buf.take size.toNat).drop
          (fragmentHeader (flushBuffered s false).codecId (buf.take size.toNat)).1.length)
        (fragmentHeader (flushBuffered s false).codecId (buf.take size.toNat)).2 last (by
          rw [length_fragmentHeader, hemits₁.codecId, hemits₁.maxPayloadSize]
          exact hleast)
      exact ⟨t, _, ht, hemits₁.trans hemits₂, by rw [hbuf₂]; rfl⟩

theorem nalSend_none (last : Bool) (hbuf : s.buf.length ≤ s.maxPayloadSize) (hlen : size ≤ buf.length)
    (hstuck : ¬Sendable s.maxPayloadSize (aggregateHeader s.codecId).length (mode0On s)
      s.buf.length size) : nalSend s buf size last = none := by
  by_cases hsize : size ≤ s.maxPayloadSize
  · rw [nalSend, if_pos hsize]
    have hneg : size < 0 ∧ Joins s.maxPayloadSize (aggregateHeader s.codecId).length (mode0On s)
        s.buf.length size := by
      by_contra hok
      exact hstuck ⟨fun h => absurd hsize (Int.not_le.mpr h), fun h hjoins => hok ⟨h, hjoins⟩⟩
    exact sendWhole_none last hbuf hneg.1 hneg.2
  · rw [nalSend, if_neg hsize]
    have hfails : mode0On s ≠ true ∧ s.maxPayloadSize ≤ (aggregateHeader s.codecId).length + 1 := by
      by_contra hok
      refine hstuck ⟨fun _ => ?_, fun hneg => by omega⟩
      by_cases hon : mode0On s = true
      · exact Or.inl hon
      · exact Or.inr (Nat.not_le.mp fun h => hok ⟨hon, h⟩)
    obtain ⟨out₁, hemits₁⟩ := flushBuffered_emits hbuf false
    have hmode0 : ¬((flushBuffered s false).codecId = .h264 ∧ (flushBuffered s false).mode0 = true) := by
      rw [hemits₁.codecId, hemits₁.mode0]
      simpa [mode0On] using hfails.1
    unfold sendFragmented
    dsimp only
    rw [if_neg hmode0]
    refine sendFragments_none ?_ ?_
    · rw [length_fragmentHeader, hemits₁.codecId, hemits₁.maxPayloadSize]
      exact hfails.2
    · rw [length_fragmentHeader, hemits₁.codecId, hemits₁.maxPayloadSize, List.length_drop,
        List.length_take]
      omega

theorem nalStores_within {n : Nat} (hmax : s.maxPayloadSize ≤ n) (hleast : 3 ≤ n)
    (hok : Sendable s.maxPayloadSize (aggregateHeader s.codecId).length (mode0On s) s.buf.length size) :
    ∀ w ∈ nalStores s size, w.offset + w.length ≤ n := by
  have hheader := aggregateHeader_length_le s.codecId
  unfold nalStores
  dsimp only
  by_cases hsize : size ≤ s.maxPayloadSize
  · rw [if_pos hsize]
    generalize hb : (if (s.buf.length : Int) + 2 + size > s.maxPayloadSize then 0 else s.buf.length) = b
    split
    · next hjoins =>
        have hnonneg : 0 ≤ size := by
          refine Int.not_lt.mp fun hneg => hok.2 hneg ⟨?_, by simpa [mode0On] using hjoins.2⟩
          rw [← hb] at hjoins
          split at hjoins <;> split <;> omega
        intro w hw
        rcases List.mem_append.mp hw with hw | hw
        · split at hw
          · rw [List.mem_singleton.mp hw]
            dsimp only
            omega
          · exact absurd hw (by simp)
        · rcases List.mem_cons.mp hw with rfl | hw
          · dsimp only
            split <;> omega
          · rw [List.mem_singleton.mp hw]
            dsimp only
            split <;> omega
    · simp
  · rw [if_neg hsize]
    split
    · simp
    · intro w hw
      rcases List.mem_cons.mp hw with rfl | hw
      · dsimp only
        omega
      · exact fragmentStores_within hmax (by omega) w hw

end NalSend

end P2PFFmpeg.Payload
