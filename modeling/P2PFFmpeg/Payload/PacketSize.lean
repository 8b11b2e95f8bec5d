import P2PFFmpeg.Payload.Muxer

namespace P2PFFmpeg.Payload

open Util Library.Transition

/-- `t` comes from `s` by packets of at most `size` bytes and by stores into the first
`size` bytes of the buffer. -/
def Within (size : Nat) (s t : Muxer) : Prop :=
  ∃ new log, t.sent = s.sent ++ new ∧ t.stores = s.stores ++ log ∧
    (∀ p ∈ new, 12 + p.payload.length ≤ size) ∧ ∀ w ∈ log, w.offset + w.length ≤ size

/-- `t` comes from `s` by some packets and stores. -/
def Adds (s t : Muxer) : Prop := s.sent <+: t.sent ∧ s.stores <+: t.stores

theorem Within.refl {size : Nat} {s t : Muxer} (hsent : t.sent = s.sent)
    (hstores : t.stores = s.stores) : Within size s t :=
  ⟨[], [], by simp [hsent], by simp [hstores], by simp, by simp⟩

variable {size : Nat} {s t : Muxer} {buf1 : List UInt8}

theorem Within.trans {s t u : Muxer} (h : Within size s t) (g : Within size t u) : Within size s u := by
  obtain ⟨new, log, hsent, hstores, hnew, hlog⟩ := h
  obtain ⟨new', log', hsent', hstores', hnew', hlog'⟩ := g
  refine ⟨new ++ new', log ++ log', by rw [hsent', hsent, List.append_assoc],
    by rw [hstores', hstores, List.append_assoc], fun p hp => ?_, fun w hw => ?_⟩
  · exact (List.mem_append.mp hp).elim (hnew p) (hnew' p)
  · exact (List.mem_append.mp hw).elim (hlog w) (hlog' w)

theorem Within.adds {size : Nat} {s t : Muxer} (h : Within size s t) : Adds s t := by
  obtain ⟨new, log, hsent, hstores, _⟩ := h
  exact ⟨⟨new, hsent.symm⟩, ⟨log, hstores.symm⟩⟩

theorem Adds.trans {s t u : Muxer} (h : Adds s t) (g : Adds t u) : Adds s u :=
  ⟨h.1.trans g.1, h.2.trans g.2⟩

theorem Within.split {s t u : Muxer} (h : Adds s t) (g : Adds t u) (hwithin : Within size s u) :
    Within size s t ∧ Within size t u := by
  obtain ⟨new, log, hsent, hstores, hnew, hlog⟩ := hwithin
  obtain ⟨⟨new₁, hs₁⟩, ⟨log₁, hl₁⟩⟩ := h
  obtain ⟨⟨new₂, hs₂⟩, ⟨log₂, hl₂⟩⟩ := g
  have hnews : new = new₁ ++ new₂ := by
    rw [← hs₂, ← hs₁, List.append_assoc] at hsent
    exact (List.append_cancel_left hsent).symm
  have hlogs : log = log₁ ++ log₂ := by
    rw [← hl₂, ← hl₁, List.append_assoc] at hstores
    exact (List.append_cancel_left hstores).symm
  rw [hnews] at hnew
  rw [hlogs] at hlog
  exact ⟨⟨new₁, log₁, hs₁.symm, hl₁.symm, fun p hp => hnew p (List.mem_append_left _ hp),
      fun w hw => hlog w (List.mem_append_left _ hw)⟩,
    ⟨new₂, log₂, hs₂.symm, hl₂.symm, fun p hp => hnew p (List.mem_append_right _ hp),
      fun w hw => hlog w (List.mem_append_right _ hw)⟩⟩

theorem sendData_within {len : Int} {m : Bool} (h : 12 + (buf1.take len.toNat).length ≤ size) :
    Within size s (s.sendData buf1 len m) := by
  refine ⟨_, [], rfl, by simp [Muxer.sendData], fun p hp => ?_, by simp⟩
  rw [List.mem_singleton.mp hp]
  exact h

theorem not_within_sendData {len : Int} {m : Bool} (hlarge : size < 12 + (buf1.take len.toNat).length)
    (hadds : Adds (s.sendData buf1 len m) t) : ¬Within size s t := by
  intro hwithin
  have hsend : Adds s (s.sendData buf1 len m) := ⟨⟨_, rfl⟩, List.prefix_rfl⟩
  obtain ⟨new, _, hsent, _, hnew, _⟩ := (hwithin.split hsend hadds).1
  have hone := List.append_cancel_left (hsent.symm.trans
    (show (s.sendData buf1 len m).sent = s.sent ++ [_] from rfl))
  have hle := hnew _ (by rw [hone]; exact List.mem_singleton_self _)
  exact absurd hle (Nat.not_le.mpr hlarge)

theorem store_within {size : Nat} {s t : Muxer} {log : List Store} (hsent : t.sent = s.sent)
    (hstores : t.stores = s.stores ++ log) (h : ∀ w ∈ log, w.offset + w.length ≤ size) : Within size s t :=
  ⟨[], log, by simp [hsent], hstores, by simp, h⟩

section Loops

theorem samplesLoop_within {s : Muxer} {bits maxPacketSize n : Nat} {buf1 : List UInt8}
    (hmax : 12 + maxPacketSize ≤ size) (hpos : buf1 = [] ∨ 0 < maxPacketSize) :
    ∃ t, samplesLoop s bits maxPacketSize n buf1 = some t ∧ Within size s t := by
  fun_induction samplesLoop s bits maxPacketSize n buf1 with
  | case1 s => exact ⟨s, rfl, .refl rfl rfl⟩
  | case2 s n buf1 h len hlen =>
      have hlength := List.length_pos_iff.mpr h
      have := hpos.resolve_left h
      omega
  | case3 s n buf1 h len hlen s₁ ih =>
      obtain ⟨t, ht, hwithin⟩ := ih (Or.inr (hpos.resolve_left h))
      refine ⟨t, ht, Within.trans ?_ hwithin⟩
      have hstore : Within size s s₁ := store_within rfl rfl (by
        intro w hw
        rw [List.mem_singleton.mp hw]
        change 0 + len ≤ size
        omega)
      refine hstore.trans (sendData_within ?_)
      have hle : s₁.buf.length ≤ len := List.length_take_le len buf1
      simp only [Int.toNat_natCast, List.take_length]
      omega

theorem audioFragments_within {s : Muxer} {count : Nat} {buf1 : List UInt8}
    (hmax : 12 + s.maxPayloadSize ≤ size) (hpos : 4 < s.maxPayloadSize) (hbuf : s.buf.length = 4) :
    ∃ t, audioFragments s count buf1 = some t ∧ Within size s t ∧
      t.maxPayloadSize = s.maxPayloadSize ∧ t.buf.length = 4 := by
  fun_induction audioFragments s count buf1 with
  | case1 s => exact ⟨s, rfl, .refl rfl rfl, rfl, hbuf⟩
  | case2 => omega
  | case3 s count buf1 h hlen len header s₁ ih =>
      obtain ⟨t, ht, hwithin, hmax', hbuf'⟩ := ih hmax hpos rfl
      refine ⟨t, ht, Within.trans ?_ hwithin, hmax', hbuf'⟩
      have hstore : Within size s s₁ := store_within rfl rfl (by
        intro w hw
        rcases List.mem_cons.mp hw with rfl | hw
        · change 0 + 4 ≤ size
          omega
        · rw [List.mem_singleton.mp hw]
          change 4 + len ≤ size
          omega)
      refine hstore.trans (sendData_within ?_)
      have hle := List.length_take_le len buf1
      have hsize : ((header ++ buf1.take len).take ((len : Int) + 4).toNat).length ≤ 4 + len := by
        rw [List.length_take]
        omega
      omega

theorem audioFragments_none {count : Nat} (hmax : s.maxPayloadSize ≤ 4) (hne : buf1 ≠ []) :
    audioFragments s count buf1 = none := by
  rw [audioFragments, dif_neg hne, dif_pos hmax]

theorem rtpSendRaw_within {s : Muxer} {buf1 : List UInt8} (hmax : 12 + s.maxPayloadSize ≤ size)
    (hpos : 0 < s.maxPayloadSize) : ∃ t, rtpSendRaw s buf1 = some t ∧ Within size s t := by
  fun_induction rtpSendRaw s buf1 with
  | case1 s => exact ⟨s, rfl, .refl rfl rfl⟩
  | case2 s buf1 h len hlen =>
      have := List.length_pos_iff.mpr h
      omega
  | case3 s buf1 h len hlen s₁ ih =>
      obtain ⟨t, ht, hwithin⟩ := ih hmax hpos
      refine ⟨t, ht, Within.trans ?_ hwithin⟩
      refine (Within.refl rfl rfl : Within size s s₁).trans (sendData_within ?_)
      have hle := List.length_take_le len buf1
      simp only [Int.toNat_natCast]
      omega

theorem append_within {chunk : List UInt8} (hroom : s.buf.length + chunk.length ≤ size) :
    Within size s (s.append chunk) := by
  refine @store_within size s (s.append chunk) [⟨s.buf.length, chunk.length⟩] rfl rfl fun w hw => ?_
  rw [List.mem_singleton.mp hw]
  exact hroom

theorem mpegtsRound_within {chunk : List UInt8} (hroom : s.buf.length + chunk.length ≤ s.maxPayloadSize)
    (hmax : 12 + s.maxPayloadSize ≤ size) : Within size s (mpegtsRound s chunk) := by
  have hbuf : (s.append chunk).buf.length = s.buf.length + chunk.length := List.length_append
  have hcopy : Within size s (s.append chunk) := append_within (by omega)
  unfold mpegtsRound
  dsimp only
  split
  · refine hcopy.trans ((sendData_within ?_).trans (.refl rfl rfl))
    simp only [Int.toNat_natCast, List.take_length]
    omega
  · exact hcopy

theorem mpegtsRound_room {s : Muxer} {chunk : List UInt8} (hmax : 0 < s.maxPayloadSize) :
    (mpegtsRound s chunk).buf.length < (mpegtsRound s chunk).maxPayloadSize := by
  unfold mpegtsRound
  dsimp only
  split
  · exact hmax
  · exact Nat.not_le.mp ‹_›

@[simp] theorem mpegtsRound_maxPayloadSize (s : Muxer) (chunk : List UInt8) :
    (mpegtsRound s chunk).maxPayloadSize = s.maxPayloadSize := by
  unfold mpegtsRound
  dsimp only
  split <;> rfl

/-- The buffer is never full at the start of a round, so every round makes progress. -/
theorem mpegtsLoop_within {s : Muxer} {buf1 : List UInt8} (hroom : s.buf.length < s.maxPayloadSize)
    (hmax : 12 + s.maxPayloadSize ≤ size) :
    ∃ t, mpegtsLoop s buf1 = some t ∧ Within size s t ∧ t.buf.length < t.maxPayloadSize ∧
      t.maxPayloadSize = s.maxPayloadSize := by
  fun_induction mpegtsLoop s buf1 with
  | case1 => omega
  | case2 s buf1 h hfull len hlen =>
      simp only [tsPacketSize] at h
      omega
  | case3 s buf1 h hfull len hlen =>
      simp only [tsPacketSize] at h
      omega
  | case4 s buf1 h hfull len hlen ih =>
      have hround := @mpegtsRound_room s (buf1.take len) (by omega)
      obtain ⟨t, ht, hwithin, hroom', hmax'⟩ :=
        ih hround (by rw [mpegtsRound_maxPayloadSize]; exact hmax)
      refine ⟨t, ht, (mpegtsRound_within ?_ hmax).trans hwithin, hroom',
        hmax'.trans (mpegtsRound_maxPayloadSize s _)⟩
      have hle := List.length_take_le len buf1
      omega
  | case5 s => exact ⟨s, rfl, .refl rfl rfl, hroom, rfl⟩

@[simp] theorem audioFlush_maxPayloadSize (s : Muxer) (n : Nat) :
    (audioFlush s n).maxPayloadSize = s.maxPayloadSize := by
  unfold audioFlush
  dsimp only
  split <;> rfl

theorem audioFlush_length (n : Nat) (hbuf : 4 ≤ s.buf.length) : (audioFlush s n).buf.length = 4 ∨
      4 < (audioFlush s n).buf.length ∧ (audioFlush s n).buf.length + n ≤ s.maxPayloadSize := by
  unfold audioFlush
  dsimp only
  split
  · exact Or.inl (by simp [hbuf])
  · omega

theorem audioFlush_within (n : Nat) (hmax : 12 + s.maxPayloadSize ≤ size)
    (hfill : ¬(4 < s.buf.length ∧ s.maxPayloadSize < s.buf.length)) : Within size s (audioFlush s n) := by
  unfold audioFlush
  dsimp only
  split
  · refine (sendData_within ?_).trans (.refl rfl rfl)
    simp only [Int.toNat_natCast, List.take_length]
    omega
  · exact .refl rfl rfl

theorem rtpSendMpegaudio_flushed {s : Muxer} {buf1 : List UInt8}
    (hmax : 12 + s.maxPayloadSize ≤ size) (hbuf : 4 ≤ s.buf.length)
    (hlong : ¬(s.maxPayloadSize < buf1.length ∧ s.maxPayloadSize ≤ 4)) :
    ∃ t, rtpSendMpegaudio s buf1 = some t ∧ Within size (audioFlush s buf1.length) t ∧
      t.maxPayloadSize = s.maxPayloadSize ∧ 4 ≤ t.buf.length := by
  have hlen := audioFlush_length buf1.length hbuf
  have hmax₁ := audioFlush_maxPayloadSize s buf1.length
  unfold rtpSendMpegaudio
  generalize audioFlush s buf1.length = s₁ at hlen hmax₁ ⊢
  rw [← hmax₁] at hlen hmax hlong ⊢
  dsimp only
  by_cases hbig : buf1.length > s₁.maxPayloadSize
  · rw [if_pos hbig]
    have hheader : s₁.buf.length = 4 := by omega
    obtain ⟨t, ht, hwithin, hmax', hbuf'⟩ := @audioFragments_within size
      { s₁ with timestamp := if s₁.buf.length = 4 then s₁.curTimestamp else s₁.timestamp } 0 buf1
      (by dsimp only; omega) (by dsimp only; omega) hheader
    exact ⟨t, ht, Within.trans (.refl rfl rfl) hwithin, hmax', Nat.le_of_eq hbuf'.symm⟩
  · rw [if_neg hbig]
    refine ⟨_, rfl, ?_, ?_, ?_⟩
    · by_cases hheader : s₁.buf.length = 4
      · simp only [hheader, if_true]
        have hstart : Within size s₁ { s₁ with
            timestamp := s₁.curTimestamp
            buf := [0, 0, 0, 0]
            stores := s₁.stores ++ [Store.mk 0 4] } := by
          refine @store_within size s₁ _ [Store.mk 0 4] rfl rfl fun w hw => ?_
          rw [List.mem_singleton.mp hw]
          change 0 + 4 ≤ size
          omega
        refine hstart.trans (append_within ?_)
        change 4 + buf1.length ≤ size
        omega
      · simp only [hheader, if_false]
        refine Within.trans (t := { s₁ with timestamp := s₁.timestamp }) (.refl rfl rfl)
          (append_within ?_)
        omega
    · split <;> rfl
    · rw [Muxer.append, List.length_append]
      split
      · exact Nat.le_add_right 4 _
      · dsimp only
        omega

end Loops

end P2PFFmpeg.Payload
