import P2PFFmpeg.Payload.NalSizes

namespace P2PFFmpeg.Payload

open Util Library.Transition Library.Scan

theorem ffAvcFindStartcode_le (addr : Nat) (bytes : List UInt8) :
    ffAvcFindStartcode addr bytes ≤ bytes.length := by
  have hfirst : firstStartCode bytes ≤ bytes.length := by
    unfold firstStartCode
    dsimp only
    split <;> omega
  unfold ffAvcFindStartcode
  rw [avcFindStartcodeInternal_eq]
  dsimp only
  split <;> omega

theorem unitEnd_le (r : List UInt8) (n : Nat) : unitEnd r n ≤ r.length := by
  unfold unitEnd ffAvcMp4FindStartcode
  split
  · exact Nat.le_refl _
  · dsimp only
    split
    · exact Nat.le_refl _
    · simp only [Option.getD_some]
      omega

theorem mem_cuts {n addr : Nat} {r : List UInt8} {c : Cut} (h : c ∈ cuts n addr r) :
    c.size ≤ c.buf.length := by
  fun_induction cuts n addr r with
  | case1 => exact absurd h (by simp)
  | case2 addr r hr hn r1 ih =>
      rcases List.mem_cons.mp h with rfl | h
      · have hle := unitEnd_le r n
        dsimp only
        rw [List.length_drop]
        omega
      · exact ih h
  | case3 addr r hr hn unit start r1 ih =>
      rcases List.mem_cons.mp h with rfl | h
      · exact Int.ofNat_le.mpr (ffAvcFindStartcode_le start unit)
      · exact ih h

def sendCuts (s : RTPMuxContext) (cs : List Cut) : Option RTPMuxContext :=
  cs.foldlM (fun s c => nalSend s c.buf c.size c.last) s

theorem sendUnits_eq_sendCuts (s : RTPMuxContext) (addr : Nat) (r : List UInt8) :
    sendUnits s addr r = sendCuts s (cuts s.nalLengthSize addr r) := by
  fun_induction sendUnits s addr r with
  | case1 s addr => 
      rw [cuts, dif_pos rfl]
      rfl
  | case2 s addr r hr hn r1 ih =>
      rw [cuts, dif_neg hr, dif_pos hn, sendCuts, List.foldlM_cons]
      refine Option.bind_congr fun t ht => ?_
      rw [ih t, nalSend_nalLengthSize ht]
      rfl
  | case3 s addr r hr hn unit start r1 ih =>
      rw [cuts, dif_neg hr, dif_neg hn, sendCuts, List.foldlM_cons]
      refine Option.bind_congr fun t ht => ?_
      rw [ih t, nalSend_nalLengthSize ht]
      rfl

def CutsSendable (s : RTPMuxContext) (cs : List Cut) : Prop :=
  SendableFrom s.maxPayloadSize (aggregateHeader s.codecId).length (mode0On s) s.buf.length
    (cs.map Cut.size)

theorem cutsSendable_of_emits {s t : RTPMuxContext} {out : Payloads} {c : Cut} {cs : List Cut}
    (h : Emits s t out) (hbuf : t.buf.length = fillBehind s.maxPayloadSize
      (aggregateHeader s.codecId).length (mode0On s) s.buf.length c.size) : CutsSendable s (c :: cs) ↔
      Sendable s.maxPayloadSize (aggregateHeader s.codecId).length (mode0On s) s.buf.length c.size ∧
        CutsSendable t cs := by
  have hmode0 : mode0On t = mode0On s := by rw [mode0On, mode0On, h.codecId, h.mode0]
  rw [CutsSendable, CutsSendable, h.maxPayloadSize, h.codecId, hmode0, hbuf]
  rfl

theorem sendCuts_returns {n : Nat} {s : RTPMuxContext} {cs : List Cut} (hmax : s.maxPayloadSize ≤ n)
    (hleast : 3 ≤ n) (hbuf : s.buf.length ≤ s.maxPayloadSize) (hlen : ∀ c ∈ cs, c.size ≤ c.buf.length)
    (hok : CutsSendable s cs) :
    ∃ t out, sendCuts s cs = some t ∧ Emits s t out ∧ t.buf.length ≤ t.maxPayloadSize ∧
      ∀ w ∈ cutStores s cs, w.offset + w.length ≤ n := by
  induction cs generalizing s with
  | nil => exact ⟨s, [], rfl, .nil rfl rfl rfl rfl rfl rfl rfl rfl rfl, hbuf, by simp [cutStores]⟩
  | cons c cs ih =>
      have hfirst := hok.1
      obtain ⟨t, out, ht, hemits, hfill⟩ :=
        nalSend_returns c.last hbuf (hlen c List.mem_cons_self) hfirst
      have hok' := ((cutsSendable_of_emits hemits hfill).mp hok).2
      have hbuf' : t.buf.length ≤ t.maxPayloadSize := by
        rw [hfill, hemits.maxPayloadSize]
        exact fillBehind_le hfirst
      obtain ⟨u, out', hu, hemits', hbuf'', hstores⟩ := ih (by rw [hemits.maxPayloadSize]; exact hmax)
        hbuf' (fun c hc => hlen c (List.mem_cons_of_mem _ hc)) hok'
      refine ⟨u, _, ?_, hemits.trans hemits', hbuf'', fun w hw => ?_⟩
      · rw [sendCuts, List.foldlM_cons, ht]
        exact hu
      · rw [cutStores, ht] at hw
        rcases List.mem_append.mp hw with hw | hw
        · exact nalStores_within hmax hleast hfirst w hw
        · exact hstores w hw

theorem sendCuts_none {s : RTPMuxContext} {cs : List Cut} (hbuf : s.buf.length ≤ s.maxPayloadSize)
    (hlen : ∀ c ∈ cs, c.size ≤ c.buf.length) (hstuck : ¬CutsSendable s cs) : sendCuts s cs = none := by
  induction cs generalizing s with
  | nil => exact absurd trivial hstuck
  | cons c cs ih =>
      have hc := hlen c List.mem_cons_self
      by_cases hfirst : Sendable s.maxPayloadSize (aggregateHeader s.codecId).length (mode0On s)
          s.buf.length c.size
      · obtain ⟨t, out, ht, hemits, hfill⟩ := nalSend_returns c.last hbuf hc hfirst
        have hbuf' : t.buf.length ≤ t.maxPayloadSize := by
          rw [hfill, hemits.maxPayloadSize]
          exact fillBehind_le hfirst
        have hrest := ih hbuf' (fun c hc => hlen c (List.mem_cons_of_mem _ hc)) fun hok =>
          hstuck ((cutsSendable_of_emits hemits hfill).mpr ⟨hfirst, hok⟩)
        rw [sendCuts, List.foldlM_cons, ht]
        exact hrest
      · rw [sendCuts, List.foldlM_cons, nalSend_none c.last hbuf hc hfirst]
        rfl

def muxer (p : Packetizer) (packetSize : Nat) : System Muxer Write where
  init s := ∃ mem s₀, mem.length = packetSize ∧ s₀.sent = [] ∧ s₀.bufferedNals = 0 ∧
    rtpWriteHeader p packetSize mem s₀ = some s
  next s w := (rtpWritePacket p s w).map Prod.snd

/-- A call returns, with packets of at most `packetSize` bytes and stores inside the buffer. -/
def Disciplined (packetSize : Nat) (s : Muxer) (result : Option (Int × Muxer)) : Prop :=
  ∃ ret t, result = some (ret, t) ∧ Within packetSize s t

/-- The packet can be sent with packets of `packetSize` bytes. -/
def Fits (p : Packetizer) (packetSize : Nat) (s : Muxer) (w : Write) : Prop :=
  match p with
  | .samples sampleSizeBits =>
      sampleSizeBits ≠ 0 ∧
        (w.data = [] ∨
          (sampleSizeBits % 8 = 0 ∧ (int32 (8 * w.data.length)).tmod sampleSizeBits ≠ 0) ∨
          sampleSizeBits / Nat.gcd sampleSizeBits 8 ≤ packetSize - 12)
  | .mpegaudio =>
      ¬(4 < s.buf.length ∧ packetSize < 12 + s.buf.length) ∧
        ¬(packetSize < 12 + w.data.length ∧ packetSize ≤ 16)
  | .raw => True
  | .mpegtsRaw => 12 + tsPacketSize ≤ packetSize ∨ w.data.length < tsPacketSize
  | .h264Hevc =>
      SendableFrom (packetSize - 12) (aggregateHeader s.codecId).length (mode0On s.toRTPMuxContext) 0
        ((packetCuts s.nalLengthSize w.addr w.data).map Cut.size)

section Packetizers

variable {packetSize : Nat} {s : Muxer}

variable {buf1 : List UInt8} {t : Muxer}

theorem samplesLoop_none {bits n : Nat} (hne : buf1 ≠ []) : samplesLoop s bits 0 n buf1 = none := by
  rw [samplesLoop, dif_neg hne]
  simp

theorem rtpSendSamples_iff (hmax : 12 + s.maxPayloadSize = packetSize) (bits : Nat)
    (buf1 : List UInt8) : Disciplined packetSize s (rtpSendSamples s buf1 bits) ↔
      bits ≠ 0 ∧ (buf1 = [] ∨ (bits % 8 = 0 ∧ (int32 (8 * buf1.length)).tmod bits ≠ 0) ∨
        bits / Nat.gcd bits 8 ≤ packetSize - 12) := by
  have hpayload : packetSize - 12 = s.maxPayloadSize := by omega
  by_cases hbits : bits = 0
  · subst hbits
    simp [rtpSendSamples, Disciplined]
  have haligned : 0 < bits / Nat.gcd bits 8 :=
    Nat.div_pos (Nat.gcd_le_left 8 (Nat.pos_of_ne_zero hbits)) (Nat.gcd_pos_of_pos_right _ (by decide))
  unfold rtpSendSamples
  generalize bits / Nat.gcd bits 8 = aligned at haligned ⊢
  dsimp only
  rw [if_neg (Nat.ne_of_gt haligned), hpayload]
  by_cases hwhole : bits % 8 = 0 ∧ (int32 (8 * buf1.length)).tmod bits ≠ 0
  · rw [if_pos hwhole]
    exact iff_of_true ⟨averrorEinval, s, rfl, .refl rfl rfl⟩ ⟨hbits, Or.inr (Or.inl hwhole)⟩
  rw [if_neg hwhole]
  by_cases hfits : buf1 = [] ∨ aligned ≤ s.maxPayloadSize
  · have hpos : buf1 = [] ∨ 0 < s.maxPayloadSize / aligned * aligned :=
      hfits.imp_right fun h => Nat.mul_pos (Nat.div_pos h haligned) haligned
    have hle := Nat.div_mul_le_self s.maxPayloadSize aligned
    obtain ⟨t, ht, hwithin⟩ := @samplesLoop_within packetSize s bits
      (s.maxPayloadSize / aligned * aligned) 0 buf1 (by omega) hpos
    refine iff_of_true ⟨0, t, by rw [ht]; rfl, hwithin⟩ ⟨hbits, ?_⟩
    exact hfits.imp_right Or.inr
  · obtain ⟨hne, hsmall⟩ := not_or.mp hfits
    have hzero : s.maxPayloadSize / aligned * aligned = 0 := by
      rw [Nat.div_eq_of_lt (Nat.not_le.mp hsmall), Nat.zero_mul]
    rw [hzero, samplesLoop_none hne]
    refine iff_of_false ?_ fun h => h.2.elim hne fun h => h.elim hwhole hsmall
    rintro ⟨_, _, h, _⟩
    cases h

theorem rtpSendMpegaudio_iff (hmax : 12 + s.maxPayloadSize = packetSize) (hbuf : 4 ≤ s.buf.length)
    (buf1 : List UInt8) : Disciplined packetSize s ((rtpSendMpegaudio s buf1).map fun s => (0, s)) ↔
      ¬(4 < s.buf.length ∧ packetSize < 12 + s.buf.length) ∧
        ¬(packetSize < 12 + buf1.length ∧ packetSize ≤ 16) := by
  have hflushLarge : packetSize < 12 + s.buf.length ↔ s.maxPayloadSize < s.buf.length := by omega
  have hlong : packetSize < 12 + buf1.length ∧ packetSize ≤ 16 ↔
      s.maxPayloadSize < buf1.length ∧ s.maxPayloadSize ≤ 4 := by omega
  rw [hflushLarge, hlong]
  by_cases hstuck : s.maxPayloadSize < buf1.length ∧ s.maxPayloadSize ≤ 4
  · have hnone : rtpSendMpegaudio s buf1 = none := by
      unfold rtpSendMpegaudio
      dsimp only
      rw [audioFlush_maxPayloadSize, if_pos hstuck.1]
      refine audioFragments_none ?_ ?_
      · simpa using hstuck.2
      · rintro rfl
        exact absurd hstuck.1 (Nat.not_lt_zero _)
    rw [hnone]
    refine iff_of_false ?_ fun h => h.2 hstuck
    rintro ⟨_, _, h, _⟩
    cases h
  · obtain ⟨t, ht, hwithin, _⟩ :=
      @rtpSendMpegaudio_flushed packetSize s buf1 (Nat.le_of_eq hmax) hbuf hstuck
    rw [ht]
    constructor
    · rintro ⟨_, _, h, hall⟩
      cases h
      refine ⟨fun hlarge => ?_, hstuck⟩
      -- the frames that wait are sent as they are
      have hflush : audioFlush s buf1.length =
          { s.sendData s.buf s.buf.length false with buf := s.buf.take 4 } := by
        unfold audioFlush
        dsimp only
        rw [if_pos ⟨by omega, hlarge.1⟩]
      rw [hflush] at hwithin
      have hadds : Adds (s.sendData s.buf s.buf.length false) t :=
        Adds.trans (@Within.refl 0 _ _ rfl rfl).adds hwithin.adds
      refine not_within_sendData ?_ hadds hall
      simp only [Int.toNat_natCast, List.take_length]
      omega
    · rintro ⟨hfill, _⟩
      exact ⟨0, t, rfl, (audioFlush_within buf1.length (Nat.le_of_eq hmax) hfill).trans hwithin⟩

theorem rtpSendMpegtsRaw_iff (hmax : s.maxPayloadSize = payloadSize .mpegtsRaw packetSize)
    (hpacket : 12 < packetSize) (hroom : s.buf.length < s.maxPayloadSize) (buf1 : List UInt8) :
    Disciplined packetSize s ((rtpSendMpegtsRaw s buf1).map fun s => (0, s)) ↔
      12 + tsPacketSize ≤ packetSize ∨ buf1.length < tsPacketSize := by
  by_cases hlarge : 12 + tsPacketSize ≤ packetSize
  · have hle : 12 + s.maxPayloadSize ≤ packetSize := by
      have hdiv := Nat.div_mul_le_self (packetSize - 12) tsPacketSize
      have hpos : 1 ≤ (packetSize - 12) / tsPacketSize := Nat.div_pos (by omega) (by decide)
      rw [hmax, payloadSize, Nat.max_eq_right hpos]
      omega
    obtain ⟨t, ht, hwithin, _⟩ :=
      @mpegtsLoop_within packetSize { s with timestamp := s.curTimestamp } buf1 hroom hle
    exact iff_of_true ⟨0, t, by rw [rtpSendMpegtsRaw, ht]; rfl,
      Within.trans (.refl rfl rfl) hwithin⟩ (Or.inl hlarge)
  · have hone : s.maxPayloadSize = tsPacketSize := by
      rw [hmax, payloadSize, Nat.div_eq_of_lt (by omega)]
      rfl
    by_cases hshort : buf1.length < tsPacketSize
    · refine iff_of_true ⟨0, { s with timestamp := s.curTimestamp }, ?_, .refl rfl rfl⟩ (Or.inr hshort)
      rw [rtpSendMpegtsRaw, mpegtsLoop, dif_neg (Nat.not_le.mpr hshort)]
      rfl
    · refine iff_of_false ?_ (by omega)
      rintro ⟨_, t, ht, hwithin⟩
      -- the first round fills the buffer and sends it
      have hfull : ¬s.maxPayloadSize < s.buf.length := by omega
      have hlen : min (s.maxPayloadSize - s.buf.length) buf1.length = tsPacketSize - s.buf.length := by
        omega
      have hprogress : ¬tsPacketSize - s.buf.length = 0 := by omega
      obtain ⟨u, hu, hrest, _⟩ := @mpegtsLoop_within (12 + s.maxPayloadSize)
        (mpegtsRound { s with timestamp := s.curTimestamp } (buf1.take (tsPacketSize - s.buf.length)))
        (buf1.drop (tsPacketSize - s.buf.length)) (mpegtsRound_room (by dsimp only; omega)) (by simp)
      rw [rtpSendMpegtsRaw, mpegtsLoop, dif_pos (Nat.not_lt.mp hshort), if_neg hfull] at ht
      simp only [hlen, dif_neg hprogress, hu, Option.map_some, Option.some.injEq, Prod.mk.injEq] at ht
      obtain ⟨_, rfl⟩ := ht
      have hbuf : (Muxer.append { s with timestamp := s.curTimestamp }
          (buf1.take (tsPacketSize - s.buf.length))).buf.length = tsPacketSize := by
        rw [Muxer.append, List.length_append, List.length_take]
        dsimp only
        omega
      rw [mpegtsRound] at hrest
      have hstart : Adds s (Muxer.append { s with timestamp := s.curTimestamp }
          (buf1.take (tsPacketSize - s.buf.length))) := ⟨List.prefix_rfl, List.prefix_append _ _⟩
      have hmax₁ : (Muxer.append { s with timestamp := s.curTimestamp }
          (buf1.take (tsPacketSize - s.buf.length))).maxPayloadSize = tsPacketSize := hone
      generalize Muxer.append { s with timestamp := s.curTimestamp }
        (buf1.take (tsPacketSize - s.buf.length)) = s₁ at hbuf hrest hstart hmax₁
      dsimp only at hrest
      rw [if_pos (by omega)] at hrest
      have hadds : Adds (s₁.sendData s₁.buf s₁.buf.length false) u :=
        Adds.trans (@Within.refl 0 _ _ rfl rfl).adds hrest.adds
      have hsend : Adds s₁ (s₁.sendData s₁.buf s₁.buf.length false) :=
        ⟨List.prefix_append _ _, List.prefix_rfl⟩
      refine not_within_sendData ?_ hadds (hwithin.split hstart (hsend.trans hadds)).2
      simp only [Int.toNat_natCast, List.take_length]
      omega

theorem rtpSendRaw_disciplined (hmax : 12 + s.maxPayloadSize = packetSize) (hpos : 12 < packetSize)
    (buf1 : List UInt8) : Disciplined packetSize s ((rtpSendRaw s buf1).map fun s => (0, s)) := by
  obtain ⟨t, ht, hwithin⟩ := @rtpSendRaw_within packetSize s buf1 (Nat.le_of_eq hmax) (by omega)
  exact ⟨0, t, by rw [ht]; rfl, hwithin⟩

theorem sendH264Hevc_eq (addr : Nat) (buf1 : List UInt8) :
    sendH264Hevc s addr buf1 =
      (sendCuts { s.toRTPMuxContext with timestamp := s.curTimestamp, buf := [] }
        (packetCuts s.nalLengthSize addr buf1)).map fun t =>
          { toRTPMuxContext := flushBuffered t true
            stores := s.stores ++
              cutStores { s.toRTPMuxContext with timestamp := s.curTimestamp, buf := [] }
                (packetCuts s.nalLengthSize addr buf1) } := by
  simp only [sendH264Hevc, ffRtpSendH264Hevc, sendUnits_eq_sendCuts, Option.map_map]
  rfl

theorem sendH264Hevc_iff (hmax : 12 + s.maxPayloadSize = packetSize) (addr : Nat) (buf1 : List UInt8) :
    Disciplined packetSize s ((sendH264Hevc s addr buf1).map fun s => (0, s)) ↔
      SendableFrom (packetSize - 12) (aggregateHeader s.codecId).length (mode0On s.toRTPMuxContext) 0
        ((packetCuts s.nalLengthSize addr buf1).map Cut.size) := by
  have hlen : ∀ c ∈ packetCuts s.nalLengthSize addr buf1, c.size ≤ c.buf.length :=
    fun c hc => mem_cuts hc
  have hcuts : CutsSendable { s.toRTPMuxContext with timestamp := s.curTimestamp, buf := [] }
      (packetCuts s.nalLengthSize addr buf1) ↔
        SendableFrom (packetSize - 12) (aggregateHeader s.codecId).length
          (mode0On s.toRTPMuxContext) 0 ((packetCuts s.nalLengthSize addr buf1).map Cut.size) := by
    rw [← hmax, Nat.add_sub_cancel_left]
    rfl
  rw [sendH264Hevc_eq, ← hcuts]
  constructor
  · rintro ⟨_, t, ht, _⟩
    by_contra hstuck
    rw [sendCuts_none (Nat.zero_le _) hlen hstuck] at ht
    cases ht
  · intro hok
    obtain ⟨t, out, ht, hemits, hbuf, hstores⟩ :=
      @sendCuts_returns packetSize _ _ (by dsimp only; omega) (by omega) (Nat.zero_le _) hlen hok
    obtain ⟨out', hflush⟩ := flushBuffered_emits hbuf true
    obtain ⟨new, hnew, hfits⟩ := (hemits.trans hflush).sent_fits
    refine ⟨0, _, by rw [ht]; rfl, new, _, hnew, rfl, fun p hp => ?_, hstores⟩
    have hle := hfits p hp
    dsimp only at hle
    omega

theorem samplesLoop_maxPayloadSize {bits maxPacketSize n : Nat}
    (h : samplesLoop s bits maxPacketSize n buf1 = some t) : t.maxPayloadSize = s.maxPayloadSize := by
  fun_induction samplesLoop s bits maxPacketSize n buf1 with
  | case1 => cases h; rfl
  | case2 => cases h
  | case3 s n buf1 hne len hlen s₁ ih => exact ih h

theorem rtpSendSamples_maxPayloadSize {bits : Nat} {ret : Int}
    (h : rtpSendSamples s buf1 bits = some (ret, t)) : t.maxPayloadSize = s.maxPayloadSize := by
  unfold rtpSendSamples at h
  dsimp only at h
  split at h
  · cases h
  · split at h
    · cases h
      rfl
    · obtain ⟨u, hu, h⟩ := Option.map_eq_some_iff.mp h
      cases h
      exact samplesLoop_maxPayloadSize hu

theorem rtpSendRaw_maxPayloadSize (h : rtpSendRaw s buf1 = some t) : t.maxPayloadSize = s.maxPayloadSize := by
  fun_induction rtpSendRaw s buf1 with
  | case1 => cases h; rfl
  | case2 => cases h
  | case3 s buf1 hne len hlen s₁ ih => exact ih h

theorem rtpSendMpegaudio_kept {t : Muxer} {buf1 : List UInt8} (hbuf : 4 ≤ s.buf.length)
    (h : rtpSendMpegaudio s buf1 = some t) : t.maxPayloadSize = s.maxPayloadSize ∧ 4 ≤ t.buf.length := by
  by_cases hstuck : s.maxPayloadSize < buf1.length ∧ s.maxPayloadSize ≤ 4
  · have hne : buf1 ≠ [] := by
      rintro rfl
      exact absurd hstuck.1 (Nat.not_lt_zero _)
    unfold rtpSendMpegaudio at h
    dsimp only at h
    rw [audioFlush_maxPayloadSize, if_pos hstuck.1,
      audioFragments_none (by simpa using hstuck.2) hne] at h
    cases h
  · obtain ⟨u, hu, _, hmax, hbuf'⟩ :=
      @rtpSendMpegaudio_flushed (12 + s.maxPayloadSize) s buf1 (Nat.le_refl _) hbuf hstuck
    rw [hu] at h
    cases h
    exact ⟨hmax, hbuf'⟩

theorem sendH264Hevc_maxPayloadSize {addr : Nat} (h : sendH264Hevc s addr buf1 = some t) :
    t.maxPayloadSize = s.maxPayloadSize := by
  rw [sendH264Hevc_eq] at h
  obtain ⟨u, hu, rfl⟩ := Option.map_eq_some_iff.mp h
  have hlen : ∀ c ∈ packetCuts s.nalLengthSize addr buf1, c.size ≤ c.buf.length :=
    fun c hc => mem_cuts hc
  by_cases hok : CutsSendable { s.toRTPMuxContext with timestamp := s.curTimestamp, buf := [] }
      (packetCuts s.nalLengthSize addr buf1)
  · obtain ⟨t, out, ht, hemits, hbuf, _⟩ := @sendCuts_returns (3 + s.maxPayloadSize) _ _
      (by dsimp only; omega) (by omega) (Nat.zero_le _) hlen hok
    rw [hu] at ht
    cases ht
    obtain ⟨_, hflush⟩ := flushBuffered_emits hbuf true
    exact hflush.maxPayloadSize.trans hemits.maxPayloadSize
  · rw [sendCuts_none (Nat.zero_le _) hlen hok] at hu
    cases hu

end Packetizers

structure Prepared (p : Packetizer) (packetSize : Nat) (s : Muxer) : Prop where
  packet : 12 < packetSize
  payload : s.maxPayloadSize = payloadSize p packetSize
  header : p = .mpegaudio → 4 ≤ s.buf.length
  room : p = .mpegtsRaw → s.buf.length < s.maxPayloadSize

theorem Prepared.step {p : Packetizer} {packetSize : Nat} {s t : Muxer} {w : Write} {ret : Int}
    (h : Prepared p packetSize s) (hwrite : rtpWritePacket p s w = some (ret, t)) :
    Prepared p packetSize t := by
  cases p with
  | samples bits =>
      have hmax := rtpSendSamples_maxPayloadSize hwrite
      exact ⟨h.packet, hmax.trans h.payload, by simp, by simp⟩
  | mpegaudio =>
      obtain ⟨u, hu, h'⟩ := Option.map_eq_some_iff.mp hwrite
      cases h'
      obtain ⟨hmax, hbuf⟩ :=
        @rtpSendMpegaudio_kept { s with curTimestamp := w.curTimestamp } _ _ (h.header rfl) hu
      exact ⟨h.packet, hmax.trans h.payload, fun _ => hbuf, by simp⟩
  | raw =>
      obtain ⟨u, hu, h'⟩ := Option.map_eq_some_iff.mp hwrite
      cases h'
      exact ⟨h.packet, (rtpSendRaw_maxPayloadSize hu).trans h.payload, by simp, by simp⟩
  | mpegtsRaw =>
      obtain ⟨u, hu, h'⟩ := Option.map_eq_some_iff.mp hwrite
      cases h'
      obtain ⟨v, hv, _, hroom, hmax⟩ := @mpegtsLoop_within (12 + s.maxPayloadSize)
        { s with curTimestamp := w.curTimestamp, timestamp := w.curTimestamp } w.data (h.room rfl)
        (Nat.le_refl _)
      rw [rtpSendMpegtsRaw, hv] at hu
      cases hu
      exact ⟨h.packet, hmax.trans h.payload, by simp, fun _ => hroom⟩
  | h264Hevc =>
      obtain ⟨u, hu, h'⟩ := Option.map_eq_some_iff.mp hwrite
      cases h'
      exact ⟨h.packet, (sendH264Hevc_maxPayloadSize hu).trans h.payload, by simp, by simp⟩

theorem prepared {p : Packetizer} {packetSize : Nat} {s : Muxer}
    (h : (muxer p packetSize).Reachable s) : Prepared p packetSize s := by
  refine System.Reachable.invariant (Prepared p packetSize) ?_ ?_ h
  · rintro s ⟨mem, s₀, hmem, _, _, hheader⟩
    unfold rtpWriteHeader at hheader
    split at hheader
    · cases hheader
    · next hpacket =>
        cases hheader
        refine ⟨Nat.not_le.mp hpacket, rfl, ?_, ?_⟩
        · rintro rfl
          simp only [if_true, List.length_take]
          omega
        · rintro rfl
          simp only [reduceCtorEq, if_false, List.length_nil, payloadSize, tsPacketSize]
          omega
  · intro s w t _ hs hnext
    obtain ⟨⟨ret, t⟩, hwrite, rfl⟩ := Option.map_eq_some_iff.mp hnext
    exact hs.step hwrite

/-- A call keeps to the packet size exactly if the packet fits. -/
theorem packet_size_discipline {p : Packetizer} {packetSize : Nat} {s : Muxer}
    (hs : (muxer p packetSize).Reachable s) (w : Write) :
    Disciplined packetSize s (rtpWritePacket p s w) ↔ Fits p packetSize s w := by
  have hprepared := prepared hs
  have hpacket := hprepared.packet
  have hpayload := hprepared.payload
  cases p with
  | samples bits =>
      refine @rtpSendSamples_iff packetSize { s with curTimestamp := w.curTimestamp } ?_ bits w.data
      dsimp only [payloadSize] at hpayload ⊢
      omega
  | mpegaudio =>
      refine @rtpSendMpegaudio_iff packetSize { s with curTimestamp := w.curTimestamp } ?_
        (hprepared.header rfl) w.data
      dsimp only [payloadSize] at hpayload ⊢
      omega
  | raw =>
      refine iff_of_true (@rtpSendRaw_disciplined packetSize { s with curTimestamp := w.curTimestamp }
        ?_ hpacket w.data) trivial
      dsimp only [payloadSize] at hpayload ⊢
      omega
  | mpegtsRaw =>
      exact @rtpSendMpegtsRaw_iff packetSize { s with curTimestamp := w.curTimestamp } hpayload hpacket
        (hprepared.room rfl) w.data
  | h264Hevc =>
      refine @sendH264Hevc_iff packetSize { s with curTimestamp := w.curTimestamp } ?_ w.addr w.data
      dsimp only [payloadSize] at hpayload ⊢
      omega

def smallMuxer : Muxer :=
  { blankMux with maxPayloadSize := 10, buf := [0, 0, 0, 0], stores := [] }

theorem smallMuxer_init : (muxer .mpegaudio 22).init smallMuxer :=
  ⟨List.replicate 22 0, blankMux, by simp, rfl, rfl, rfl⟩

/-- A frame that fits with its header. -/
theorem packet_size_discipline_small :
    Disciplined 22 smallMuxer (rtpWritePacket .mpegaudio smallMuxer ⟨3000, 0, [1, 2, 3, 4, 5, 6]⟩) :=
  (packet_size_discipline (.init smallMuxer_init) ⟨3000, 0, [1, 2, 3, 4, 5, 6]⟩).mpr
    ⟨by decide, by decide⟩

def fullMuxer : Muxer :=
  { smallMuxer with
    curTimestamp := 3000
    timestamp := 3000
    buf := [0, 0, 0, 0, 1, 2, 3, 4, 5, 6, 7, 8]
    stores := [⟨0, 4⟩, ⟨4, 8⟩] }

/-- The frame goes in a packet of 24 bytes. -/
theorem audio_packet_too_large :
    ∃ s w, (muxer .mpegaudio 22).Reachable s ∧ ¬Disciplined 22 s (rtpWritePacket .mpegaudio s w) := by
  have hstep : (muxer .mpegaudio 22).next smallMuxer ⟨3000, 0, [1, 2, 3, 4, 5, 6, 7, 8]⟩ =
      some fullMuxer := rfl
  refine ⟨fullMuxer, ⟨6000, 0, [9]⟩, (System.Reachable.init smallMuxer_init).step hstep, fun h => ?_⟩
  have hfits := (@rtpSendMpegaudio_iff 22 { fullMuxer with curTimestamp := 6000 } rfl (by decide)
    [9]).mp h
  exact hfits.1 (by decide)

end P2PFFmpeg.Payload
