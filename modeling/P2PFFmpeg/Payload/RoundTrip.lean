import P2PFFmpeg.Library.Transition
import P2PFFmpeg.Payload.Emission

namespace P2PFFmpeg.Payload

open Util Library.Transition
open Rtp (AVStream)

theorem nalSend_append (s : RTPMuxContext) (u rest : List UInt8) (last : Bool) :
    nalSend s (u ++ rest) u.length last = nalSend s u u.length last := by
  simp only [nalSend, sendWhole, sendFragmented, ffRtpSendData, Int.toNat_natCast, List.take_left,
    List.take_length]

structure Kept (P : RTPMuxContext → Prop) : Prop where
  send {s} (buf len m) : P s → P (ffRtpSendData s buf len m)
  hold {s} (buf bufferedNals) : P s → P { s with buf, bufferedNals }

section Kept

variable {P : RTPMuxContext → Prop} {s t : RTPMuxContext} {buf : List UInt8} {last : Bool}

theorem Kept.flush (hP : Kept P) (h : P s) (last : Bool) : P (flushBuffered s last) := by
  apply hP.hold
  split
  · exact h
  split
  · split <;> exact hP.send _ _ _ h
  · exact hP.send _ _ _ h

theorem Kept.fragments {head : List UInt8} {fuHeader : UInt8} (hP : Kept P) (h : P s)
    (hsend : sendFragments s head fuHeader buf last = some t) : P t := by
  fun_induction sendFragments s head fuHeader buf last with
  | case1 => cases hsend
  | case2 s fuHeader buf headerSize hmore hroom ih => exact ih (hP.send _ _ _ h) hsend
  | case3 =>
      cases hsend
      exact hP.send _ _ _ h

theorem Kept.nal {size : Int} (hP : Kept P) (h : P s) (hsend : nalSend s buf size last = some t) : P t := by
  unfold nalSend at hsend
  split at hsend
  · unfold sendWhole at hsend
    dsimp only at hsend
    generalize hs₁ : (if s.buf.length + 2 + size > s.maxPayloadSize then flushBuffered s false
      else s) = s₁ at hsend
    have h₁ : P s₁ := by
      rw [← hs₁]
      split
      · exact hP.flush h false
      · exact h
    split at hsend
    · split at hsend
      · cases hsend
      · cases hsend
        exact hP.hold _ _ h₁
    · cases hsend
      exact hP.send _ _ _ (hP.flush h₁ false)
  · unfold sendFragmented at hsend
    dsimp only at hsend
    split at hsend
    · cases hsend
      exact hP.flush h false
    · exact hP.fragments (hP.flush h false) hsend

theorem Kept.loop {addr : Nat} (hP : Kept P) (h : P s) (hsend : sendUnits s addr buf = some t) : P t := by
  fun_induction sendUnits s addr buf with
  | case1 =>
      cases hsend
      exact h
  | case2 _ _ _ _ _ _ ih | case3 _ _ _ _ _ _ _ _ ih =>
      obtain ⟨u, hu, hsend⟩ := Option.bind_eq_some_iff.mp hsend
      exact ih u (hP.nal h hu) hsend

end Kept

theorem nalSend_nalLengthSize {s t : RTPMuxContext} {buf : List UInt8} {size : Int} {last : Bool}
    (h : nalSend s buf size last = some t) : t.nalLengthSize = s.nalLengthSize :=
  @Kept.nal (·.nalLengthSize = s.nalLengthSize) s t buf last size ⟨fun _ _ _ h => h, fun _ _ h => h⟩ rfl h

theorem skipStartCode_startCode (long : Bool) (rest : List UInt8) :
    skipStartCode (startCode long ++ rest) = rest := by
  cases long <;> rfl

theorem annexB_eq_nil {units : List (Bool × Nal)} : annexB units = [] ↔ units = [] := by
  cases units with
  | nil => simp
  | cons u units => simp [u.2.nonempty]

theorem ffAvcFindStartcode_annexB (addr : Nat) (nal : Nal) (units : List (Bool × Nal)) :
    ffAvcFindStartcode addr (nal.bytes ++ annexB units) = nal.bytes.length := by
  cases units with
  | nil =>
      have hend := ffAvcFindStartcode_end addr nal
      simpa using hend
  | cons v units =>
      rw [annexB_cons]
      exact ffAvcFindStartcode_unit addr nal v.1 (by simp [v.2.nonempty])

variable {s : RTPMuxContext} {units : List Nal} {n : Nat}

theorem sendAll_congr {u rest : List UInt8} {units : List (List UInt8)}
    {k : RTPMuxContext → Option RTPMuxContext} (hrest : rest = [] ↔ units = [])
    (hk : ∀ t, t.nalLengthSize = s.nalLengthSize → k t = sendAll t units) :
    (nalSend s (u ++ rest) u.length (decide (u.length = (u ++ rest).length))).bind k =
      sendAll s (u :: units) := by
  have hlast : decide (u.length = (u ++ rest).length) = decide (units = []) := by
    simp [← hrest]
  rw [sendAll, nalSend_append, hlast]
  exact Option.bind_congr fun t ht => hk t (nalSend_nalLengthSize ht)

theorem sendUnits_annexB (hs : s.nalLengthSize = 0) (addr : Nat) (units : List (Bool × Nal)) :
    sendUnits s addr (annexB units) = sendAll s (units.map fun u => u.2.bytes) := by
  induction units generalizing s addr with
  | nil =>
      rw [sendUnits, dif_pos (annexB_eq_nil.mpr rfl)]
      rfl
  | cons u units ih =>
      have hne : annexB (u :: units) ≠ [] := fun h => absurd (annexB_eq_nil.mp h) (by simp)
      have hunit : skipStartCode (annexB (u :: units)) = u.2.bytes ++ annexB units := by
        rw [annexB_cons, skipStartCode_startCode]
      rw [sendUnits, dif_neg hne, dif_neg (by simp [hs])]
      simp only [hunit, ffAvcFindStartcode_annexB, List.drop_left, List.map_cons]
      refine sendAll_congr (by simp [annexB_eq_nil]) fun t ht => ih (ht.trans hs) _

theorem lengthPrefixed_eq_nil : lengthPrefixed n units = [] ↔ units = [] := by
  cases units with
  | nil => simp
  | cons u units => simp [u.nonempty]

theorem sendUnits_lengthPrefixed (hs : s.nalLengthSize = n) (hn : 1 ≤ n ∧ n ≤ 4) (addr : Nat)
    (hunits : ∀ u ∈ units, u.bytes.length < 256 ^ n) :
    sendUnits s addr (lengthPrefixed n units) = sendAll s (units.map (·.bytes)) := by
  induction units generalizing s addr with
  | nil =>
      rw [sendUnits, dif_pos (lengthPrefixed_eq_nil.mpr rfl)]
      rfl
  | cons u units ih =>
      have hne : lengthPrefixed n (u :: units) ≠ [] := fun h =>
        absurd (lengthPrefixed_eq_nil.mp h) (by simp)
      have hend : unitEnd (lengthPrefixed n (u :: units)) n = n + u.bytes.length := by
        rw [unitEnd, lengthPrefixed_cons, ← List.append_assoc, ffAvcMp4FindStartcode_unit hn.2 (hunits u (by simp))]
        rfl
      have hdrop : (lengthPrefixed n (u :: units)).drop n = u.bytes ++ lengthPrefixed n units := by
        rw [lengthPrefixed_cons]
        exact List.drop_left' (length_beBytes n _)
      have hrest : (lengthPrefixed n (u :: units)).drop (n + u.bytes.length) =
          lengthPrefixed n units := by
        rw [← List.drop_drop, hdrop, List.drop_left]
      have hlast : decide (n + u.bytes.length = (lengthPrefixed n (u :: units)).length) =
          decide (u.bytes.length = (u.bytes ++ lengthPrefixed n units).length) := by
        rw [decide_eq_decide, lengthPrefixed_cons]
        simp only [List.length_append, length_beBytes]
        omega
      have hsize : ((n + u.bytes.length : Nat) : Int) - (n : Int) = u.bytes.length := by omega
      rw [sendUnits, dif_neg hne, dif_pos (by omega)]
      simp only [hs, hend, hdrop, hrest, hlast, hsize, List.map_cons]
      refine sendAll_congr (by simp [lengthPrefixed_eq_nil]) fun t ht => ?_
      exact ih (ht.trans hs) _ fun v hv => hunits v (by simp [hv])

theorem fragment_type (b : UInt8) : (28 ||| b &&& 0x60) &&& 0x1F = (28 : UInt8) :=
  @forall_byte (fun b => (28 ||| b &&& 0x60) &&& 0x1F = 28) (by decide +kernel) b

theorem fragmentByte_start (b : UInt8) (first last : Bool) :
    fragmentByte (b &&& 0x1F ||| 0x80) first last >>> 7 ≠ 0 ↔ first = true :=
  @forall_byte (fun b => ∀ first last : Bool,
    fragmentByte (b &&& 0x1F ||| 0x80) first last >>> 7 ≠ 0 ↔ first = true)
    (by decide +kernel) b first last

theorem fragment_header {b : UInt8} (hb : b &&& 0x80 = 0) (first last : Bool) :
    (28 ||| b &&& 0x60) &&& 0xE0 ||| fragmentByte (b &&& 0x1F ||| 0x80) first last &&& 0x1F = b :=
  @forall_byte (fun b => b &&& 0x80 = 0 → ∀ first last : Bool,
    (28 ||| b &&& 0x60) &&& 0xE0 ||| fragmentByte (b &&& 0x1F ||| 0x80) first last &&& 0x1F = b)
    (by decide +kernel) b hb first last

theorem take_one {u : List UInt8} (h : u ≠ []) : u.take 1 = [byteAt u 0] := by
  cases u with
  | nil => exact absurd rfl h
  | cons b u => rfl

def IsH264 (u : List UInt8) : Prop := ∃ nal : H264Nal, nal.bytes = u

theorem h264_receives (st : AVStream) {g : Group} (hg : ∀ u ∈ g.units, IsH264 u)
    {ps : List (List UInt8)} (h : Forms .h264 g ps) :
    depacketize (h264HandlePacket true st) ps = some (receivedUnits g.units) := by
  cases h with
  | single u =>
      obtain ⟨nal, rfl⟩ := hg u (by simp [Group.units])
      rw [depacketize_singleton (h264_whole st nal)]
      simp [Group.units]
  | aggregate _ hlen =>
      refine depacketize_singleton (h264_aggregate st fun u hu => ?_)
      obtain ⟨nal, rfl⟩ := hg u hu
      exact ⟨nal.length_pos, hlen _ hu⟩
  | @fragments u part data out hpart hdrop hfragmented =>
      obtain ⟨nal, rfl⟩ := hg u (by simp [Group.units])
      have hdecode : ∀ data, data ≠ [] → ∀ first last : Bool,
          output (h264HandlePacket true st) ((fragmentHeader .h264 nal.bytes).1 ++
            fragmentByte (fragmentHeader .h264 nal.bytes).2 first last :: data) =
              some ((if first then startSequence ++ nal.bytes.take 1 else []) ++ data) := by
        intro data hdata first last
        have hout := @h264_fragment st _ (fragmentByte (byteAt nal.bytes 0 &&& 0x1F ||| 0x80) first last)
          _ (fragment_type (byteAt nal.bytes 0)) hdata
        rw [fragment_header nal.forbidden, ← take_one nal.nonempty] at hout
        simp only [fragmentByte_start] at hout
        exact hout
      have hlater := depacketize_fragmented hfragmented fun data hdata last =>
        hdecode data hdata false last
      have hunit : startSequence ++ nal.bytes.take 1 ++ part ++ data =
          receivedUnits (Group.fragments nal.bytes).units := by
        rw [List.append_assoc, List.append_assoc, ← hdrop]
        simp only [aggregateHeader, List.length_singleton, List.take_append_drop]
        simp [Group.units]
      rw [depacketize, hdecode part hpart true false, Option.bind_some, hlater, ← hunit]
      rfl

/-- What `rtp_write_packet` hands on: the time stamp, and the data with its address. -/
structure Write where
  curTimestamp : UInt32
  addr : Nat
  data : List UInt8

def packetizer : System RTPMuxContext Write where
  init s := s.buf = [] ∧ s.bufferedNals = 0 ∧ s.sent = []
  next s w := ffRtpSendH264Hevc { s with curTimestamp := w.curTimestamp } w.addr w.data

theorem Kept.next {P : RTPMuxContext → Prop} {t : RTPMuxContext} {w : Write} (hP : Kept P)
    (h : P { s with curTimestamp := w.curTimestamp, timestamp := w.curTimestamp, buf := [] })
    (hnext : packetizer.next s w = some t) : P t := by
  obtain ⟨u, hu, rfl⟩ := Option.map_eq_some_iff.mp hnext
  exact hP.flush (hP.loop h hu) true

theorem bufferedNals_eq_zero (h : packetizer.Reachable s) : s.bufferedNals = 0 := by
  obtain ⟨s₀, ls, hinit, hrun⟩ := h
  cases hrun with
  | nil => exact hinit.2.1
  | snoc _ hnext =>
      obtain ⟨t, _, rfl⟩ := Option.map_eq_some_iff.mp hnext
      rfl

/-- The two ways of writing units, by the size of the length prefix. -/
inductive Serialized : Nat → List Nal → List UInt8 → Prop
  | annexB (units : List (Bool × Nal)) : Serialized 0 (units.map Prod.snd) (annexB units)
  | lengthPrefixed {n : Nat} (hn : 1 ≤ n ∧ n ≤ 4) {units : List Nal}
      (h : ∀ u ∈ units, u.bytes.length < 256 ^ n) : Serialized n units (lengthPrefixed n units)

theorem annexB_start (addr : Nat) {units : List (Bool × Nal)} (hne : units ≠ []) :
    ffAvcFindStartcode addr (annexB units) = 0 := by
  cases units with
  | nil => exact absurd rfl hne
  | cons u units =>
      rw [annexB_cons]
      exact ffAvcFindStartcode_start addr u.1 (by simp [u.2.nonempty])

theorem Serialized.start {n : Nat} {units : List Nal} {data : List UInt8} (hne : units ≠ [])
    (hw : Serialized n units data) (addr : Nat) :
    (if n ≠ 0 then if (ffAvcMp4FindStartcode data n).isSome then 0 else data.length
      else ffAvcFindStartcode addr data) = 0 := by
  cases hw with
  | annexB units =>
      rw [if_neg (by decide)]
      exact annexB_start addr (by simpa using hne)
  | lengthPrefixed hn hunits =>
      cases units with
      | nil => exact absurd rfl hne
      | cons u units =>
          rw [if_pos (by omega), lengthPrefixed_cons, ← List.append_assoc,
            ffAvcMp4FindStartcode_unit hn.2 (hunits u (by simp))]
          rfl

theorem Serialized.sendUnits {s : RTPMuxContext} {n : Nat} {units : List Nal} {data : List UInt8}
    (hw : Serialized n units data) (hs : s.nalLengthSize = n) (addr : Nat) :
    sendUnits s addr data = sendAll s (units.map (·.bytes)) := by
  cases hw with
  | annexB units =>
      rw [sendUnits_annexB hs, List.map_map]
      rfl
  | lengthPrefixed hn hunits => exact sendUnits_lengthPrefixed hs hn _ hunits

theorem ffRtpSendH264Hevc_serialized {s : RTPMuxContext} {units : List Nal} {data : List UInt8}
    (hne : units ≠ []) (hw : Serialized s.nalLengthSize units data) (addr : Nat) :
    ffRtpSendH264Hevc s addr data =
      (sendAll { s with timestamp := s.curTimestamp, buf := [] }
        (units.map (·.bytes))).map (flushBuffered · true) := by
  have hstart := hw.start hne addr
  have hunits := @Serialized.sendUnits { s with timestamp := s.curTimestamp, buf := [] } _ _ _ hw rfl
  simp only [ffRtpSendH264Hevc, hstart, List.drop_zero, hunits]

theorem next_passes {codec : AVCodecID} (hs : packetizer.Reachable s) (ready : Ready codec s) (w : Write)
    (hne : units ≠ []) (hw : Serialized s.nalLengthSize units w.data) :
    ∃ t out, packetizer.next s w = some t ∧
      Passes codec { s with curTimestamp := w.curTimestamp, timestamp := w.curTimestamp, buf := [] }
        t (plan s.maxPayloadSize (aggregateHeader codec).length [] (units.map (·.bytes))) [] out ∧
      Ends true out := by
  have ready₁ : Ready codec { s with
      curTimestamp := w.curTimestamp, timestamp := w.curTimestamp, buf := [] } :=
    ⟨ready.codecId, ready.aggregates, ready.least, ready.most⟩
  obtain ⟨t, out, ht, hpass, hends⟩ :=
    @sendAll_flush _ _ [] ready₁ (.nil rfl (show s.bufferedNals = 0 from bufferedNals_eq_zero hs))
      (units.map (·.bytes)) (by simpa using hne)
  have hcall := @ffRtpSendH264Hevc_serialized { s with curTimestamp := w.curTimestamp } units w.data
    hne hw w.addr
  exact ⟨t, out, hcall.trans ht, hpass, hends⟩

/-- The two ways of writing an access unit, by the size of the length prefix. -/
inductive Written : Nat → List H264Nal → List UInt8 → Prop
  | annexB (units : List (Bool × H264Nal)) :
      Written 0 (units.map Prod.snd) (annexB (units.map fun u => (u.1, u.2.toNal)))
  | lengthPrefixed {n : Nat} (hn : 1 ≤ n ∧ n ≤ 4) {units : List H264Nal}
      (h : ∀ u ∈ units, u.bytes.length < 256 ^ n) :
      Written n units (lengthPrefixed n (units.map H264Nal.toNal))

theorem Written.serialized {units : List H264Nal} {data : List UInt8} (hw : Written n units data) :
    Serialized n (units.map H264Nal.toNal) data := by
  cases hw with
  | annexB units =>
      have hone := Serialized.annexB (units.map fun u => (u.1, u.2.toNal))
      rw [List.map_map] at hone ⊢
      exact hone
  | lengthPrefixed hn hunits =>
      refine .lengthPrefixed hn fun v hv => ?_
      obtain ⟨u, hu, rfl⟩ := List.mem_map.mp hv
      exact hunits u hu

theorem write_received (hs : packetizer.Reachable s) (ready : Ready .h264 s) (st : AVStream) (w : Write)
    {units : List H264Nal} (hne : units ≠ []) (hw : Serialized s.nalLengthSize (units.map H264Nal.toNal) w.data) :
    ∃ t new, packetizer.next s w = some t ∧ t.sent = s.sent ++ new ∧
      depacketize (h264HandlePacket true st) (new.map RtpPacket.payload) =
        some (receivedUnits (units.map (·.bytes))) := by
  obtain ⟨t, out, ht, hpass, -⟩ := next_passes hs ready w (by simpa using hne) hw
  rw [List.map_map] at hpass
  have hunits := @plan_units s.maxPayloadSize 1 [] (units.map (·.bytes))
  have hreceived := depacketize_formed hpass.formed fun g hg ps hforms => by
    refine h264_receives st (fun u hu => ?_) hforms
    have hmem : u ∈ [] ++ units.map (·.bytes) := by
      rw [← hunits]
      exact List.mem_flatMap.mpr ⟨g, hg, hu⟩
    obtain ⟨nal, _, rfl⟩ := List.mem_map.mp hmem
    exact ⟨nal, rfl⟩
  refine ⟨t, _, ht, hpass.emits.sent, ?_⟩
  rw [map_payload_stamp, hreceived, decoded_received]
  exact congrArg (fun us => some (receivedUnits us)) hunits

/-- A receiver gets back the units of every access unit, out of payloads that are
not too large, with numbers one after the other, of which the last is marked. -/
theorem h264_round_trip {s : RTPMuxContext} (hs : packetizer.Reachable s) (hcodec : s.codecId = .h264)
    (hmode : s.mode0 = false) (hmax : 3 ≤ s.maxPayloadSize ∧ s.maxPayloadSize ≤ 65535)
    (st : AVStream) (w : Write) {units : List H264Nal} (hne : units ≠ [])
    (hw : Written s.nalLengthSize units w.data) :
    ∃ t new, packetizer.next s w = some t ∧ t.sent = s.sent ++ new ∧
      depacketize (h264HandlePacket true st) (new.map RtpPacket.payload) =
        some (receivedUnits (units.map fun u => u.bytes)) ∧
      (∀ p ∈ new, p.payload.length ≤ s.maxPayloadSize) ∧
      (∀ i (h : i < new.length), new[i].seq = s.seq + UInt16.ofNat i) ∧
      ∃ before last, new = before ++ [last] ∧ last.marker = true ∧
        ∀ p ∈ before, p.marker = false := by
  have ready : Ready .h264 s := ⟨hcodec, by simp [hmode], hmax.1, hmax.2⟩
  obtain ⟨t, out, ht, hpass, before, payload, rfl, hbefore⟩ :=
    next_passes hs ready w (by simpa using hne) hw.serialized
  rw [List.map_map] at hpass
  have hunits := @plan_units s.maxPayloadSize 1 [] (units.map fun u => u.bytes)
  have hreceived := depacketize_formed hpass.formed fun g hg ps hforms => by
    refine h264_receives st (fun u hu => ?_) hforms
    have hmem : u ∈ [] ++ units.map fun u => u.bytes := by
      rw [← hunits]
      exact List.mem_flatMap.mpr ⟨g, hg, hu⟩
    obtain ⟨nal, _, rfl⟩ := List.mem_map.mp hmem
    exact ⟨nal, rfl⟩
  refine ⟨t, _, ht, hpass.emits.sent, ?_, ?_, fun i h => stamp_seq _ _ _ i h, ?_⟩
  · rw [map_payload_stamp, hreceived, decoded_received]
    exact congrArg (fun us => some (receivedUnits us)) hunits
  · intro p hp
    have hmem := List.mem_map_of_mem hp (f := RtpPacket.payload)
    rw [map_payload_stamp] at hmem
    obtain ⟨q, hq, hpayload⟩ := List.mem_map.mp hmem
    rw [← hpayload]
    exact hpass.emits.fits q hq
  · rw [stamp_append]
    refine ⟨_, _, rfl, rfl, fun p hp => ?_⟩
    have hmem := List.mem_map_of_mem hp (f := RtpPacket.marker)
    rw [map_marker_stamp] at hmem
    obtain ⟨q, hq, hmarker⟩ := List.mem_map.mp hmem
    rw [← hmarker]
    exact hbefore q hq

def blankMux : RTPMuxContext where
  codecId := .h264
  payloadType := 96
  ssrc := 7
  seq := 65535
  timestamp := 0
  curTimestamp := 0
  maxPayloadSize := 8
  packetCount := 0
  octetCount := 0
  buf := []
  nalLengthSize := 0
  bufferedNals := 0
  mode0 := false
  sent := []

def parameterSet : H264Nal where
  bytes := [0x67, 1]
  nonempty := by decide
  noCode i hi := absurd hi (by simp)
  last := by decide
  single := by decide
  forbidden := by decide

def idrSlice : H264Nal where
  bytes := [0x65, 1, 2, 3, 4, 5, 6, 7, 8]
  nonempty := by decide
  noCode i hi := by
    have hall : ∀ i < 7, startCodeAt [0x65, 1, 2, 3, 4, 5, 6, 7, 8] i = false := by decide
    have hlt : i + 2 < 9 := hi
    exact hall i (by omega)
  last := by decide
  single := by decide
  forbidden := by decide

/-- One unit alone and one in two fragments. -/
theorem h264_round_trip_two :
    ∃ t new, packetizer.next blankMux ⟨3000, 0,
        [0, 0, 0, 1, 0x67, 1, 0, 0, 1, 0x65, 1, 2, 3, 4, 5, 6, 7, 8]⟩ = some t ∧
      t.sent = [] ++ new ∧
      depacketize (h264HandlePacket true ⟨0, ⟨1, 90000⟩⟩) (new.map RtpPacket.payload) =
        some [0, 0, 0, 1, 0x67, 1, 0, 0, 0, 1, 0x65, 1, 2, 3, 4, 5, 6, 7, 8] ∧
      (∀ p ∈ new, p.payload.length ≤ 8) ∧
      (∀ i (h : i < new.length), new[i].seq = 65535 + UInt16.ofNat i) ∧
      ∃ before last, new = before ++ [last] ∧ last.marker = true ∧
        ∀ p ∈ before, p.marker = false :=
  @h264_round_trip blankMux (.init ⟨rfl, rfl, rfl⟩) rfl rfl (by decide) ⟨0, ⟨1, 90000⟩⟩
    ⟨3000, 0, [0, 0, 0, 1, 0x67, 1, 0, 0, 1, 0x65, 1, 2, 3, 4, 5, 6, 7, 8]⟩
    [parameterSet, idrSlice] (by decide) (.annexB [(true, parameterSet), (false, idrSlice)])

/-- The packets of one source, numbered one after the other behind those before `s₀`, and counted. -/
structure Numbered (s₀ s : RTPMuxContext) : Prop where
  seq : s.seq = s₀.seq + UInt16.ofNat s.sent.length
  count : s.packetCount = s₀.packetCount + UInt32.ofNat s.sent.length
  source : s.ssrc = s₀.ssrc ∧ s.payloadType = s₀.payloadType
  sent : ∀ i (h : i < s.sent.length), s.sent[i].seq = s₀.seq + UInt16.ofNat i ∧ s.sent[i].ssrc = s₀.ssrc ∧
    s.sent[i].payloadType = s₀.payloadType &&& 0x7F

variable {s₀ : RTPMuxContext}

theorem Numbered.sendData (h : Numbered s₀ s) (buf : List UInt8) (len : Int) (m : Bool) :
    Numbered s₀ (ffRtpSendData s buf len m) where
  seq := by
    simp only [ffRtpSendData, List.length_append, UInt16.ofNat_add, h.seq, UInt16.add_assoc]
    rfl
  count := by
    simp only [ffRtpSendData, List.length_append, UInt32.ofNat_add, h.count, UInt32.add_assoc]
    rfl
  source := h.source
  sent i hi := by
    simp only [ffRtpSendData, List.length_append, List.length_singleton] at hi ⊢
    obtain hold | rfl := Nat.lt_succ_iff_lt_or_eq.mp hi
    · rw [List.getElem_append_left hold]
      exact h.sent i hold
    · rw [List.getElem_concat_length rfl]
      exact ⟨h.seq, h.source.1, congrArg (· &&& 0x7F) h.source.2⟩

theorem Numbered.kept : Kept (Numbered s₀) where
  send buf len m h := h.sendData buf len m
  hold _ _ h := ⟨h.1, h.2, h.3, h.4⟩

theorem Numbered.next {t : RTPMuxContext} {w : Write} (h : Numbered s₀ s) (hnext : packetizer.next s w = some t) :
    Numbered s₀ t :=
  Numbered.kept.next ⟨h.1, h.2, h.3, h.4⟩ hnext

theorem Numbered.init (h : packetizer.init s) : Numbered s s := by
  have hnone : s.sent = [] := h.2.2
  exact ⟨by simp [hnone], by simp [hnone], ⟨rfl, rfl⟩, fun i hi => by simp [hnone] at hi⟩

/-- Whatever the packets hold, the receiver sees no number left out and none twice. -/
theorem packets_numbered {ws : List Write} (hinit : packetizer.init s₀) (hrun : packetizer.Run s₀ ws s) :
    Numbered s₀ s :=
  hrun.keeps (fun _ _ _ _ h hnext => h.next hnext) (.init hinit)

theorem packets_numbered_two : ∃ s, Numbered blankMux s ∧ packetizer.Run blankMux
    [⟨3000, 0, [0, 0, 0, 1, 0x67, 1, 0, 0, 1, 0x65, 1, 2, 3, 4, 5, 6, 7, 8]⟩] s := by
  have ready : Ready .h264 blankMux := ⟨rfl, by decide, by decide, by decide⟩
  obtain ⟨s, -, hnext, -⟩ := next_passes (.init ⟨rfl, rfl, rfl⟩) ready
    ⟨3000, 0, [0, 0, 0, 1, 0x67, 1, 0, 0, 1, 0x65, 1, 2, 3, 4, 5, 6, 7, 8]⟩ (List.cons_ne_nil _ _)
    (.annexB [(true, parameterSet.toNal), (false, idrSlice.toNal)])
  have hrun := System.Run.snoc .nil hnext
  exact ⟨s, packets_numbered ⟨rfl, rfl, rfl⟩ hrun, hrun⟩

end P2PFFmpeg.Payload
