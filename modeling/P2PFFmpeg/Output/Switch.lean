import P2PFFmpeg.Output.TimeBases
import P2PFFmpeg.Util.Rescale

namespace P2PFFmpeg.Output

open Util Library.Rounding Library.Transition

theorem dtsOn_append (i : Int) (es fs : List Event) : dtsOn i (es ++ fs) = dtsOn i es ++ dtsOn i fs :=
  List.filterMap_append

theorem dtsOn_headerEvents (i : Int) (o : OutputState) (a : HeaderAnswer) :
    dtsOn i (headerEvents o a) = [] := by
  simp only [headerEvents]
  split <;> rfl

theorem dtsOn_write (i ret : Int) (pkt : AVPacket) (target : AVRational) :
    dtsOn i [.write ret pkt target] = if pkt.streamIndex = i then pkt.dts.toList else [] := by
  by_cases h : pkt.streamIndex = i
  · cases hdts : pkt.dts <;> simp [dtsOn, h, hdts]
  · simp [dtsOn, h]

/-- The writers agree with the muxer so far: the header went out with the video
stream's time base of now, nothing went out before it, and the video packets
are in that time base and in order. -/
structure Sound (o : OutputState) (es : List Event) : Prop where
  opened : ∀ ret timeBases, .header ret timeBases ∈ es → 0 ≤ ret →
    o.headerWritten = true ∧ timeBaseAt timeBases o.videoOutIndex = o.videoTimeBase
  unopened : o.headerWritten = false → ∀ ret pkt target, .write ret pkt target ∉ es
  target : ∀ ret pkt target, .write ret pkt target ∈ es → pkt.streamIndex = o.videoOutIndex →
    o.videoTimeBase = some target
  increasing : (dtsOn o.videoOutIndex es).Pairwise (· < ·)
  neverWritten : NeverWritten o

section Sound

variable {o : OutputState} {es : List Event} {opkt : AVPacket} {target : AVRational}
  {a : WriteAnswers}

theorem Sound.valid (h : Sound o es) : ValidStream o.videoOutIndex es where
  timeBase ret timeBases hheader hret ret' pkt target hwrite hindex := by
    rw [(h.opened ret timeBases hheader hret).2]
    exact h.target ret' pkt target hwrite hindex
  increasing := h.increasing

/-- The header puts the writers and the muxer in agreement: there were no
packets before it. -/
theorem Sound.header (h : Sound o es) (henabled : o.enabled = true) (hoc : o.oc ≠ none)
    {a : HeaderAnswer} (hok : ∀ e ∈ headerEvents o a, 0 ≤ e.ret) :
    Sound (outputWriteHeaderIfNeeded o a).2 (es ++ headerEvents o a) ∧
      (outputWriteHeaderIfNeeded o a).2.headerWritten = true ∧
      0 ≤ (outputWriteHeaderIfNeeded o a).1 := by
  obtain ⟨oc, hsome⟩ := Option.ne_none_iff_exists'.mp hoc
  cases hwritten : o.headerWritten with
  | true => simpa [outputWriteHeaderIfNeeded, headerEvents, hsome, hwritten] using h
  | false =>
      have hevents : headerEvents o a = [.header (outputWriteHeaderIfNeeded o a).1
          (outputWriteHeaderIfNeeded o a).2.timeBases] := by
        simp [headerEvents, henabled, hsome, hwritten]
      have hret : 0 ≤ (outputWriteHeaderIfNeeded o a).1 :=
        hok (.header (outputWriteHeaderIfNeeded o a).1 _) (by rw [hevents]; exact List.mem_singleton_self _)
      have hdone : (outputWriteHeaderIfNeeded o a).2 =
          { o with oc := some (avformatWriteHeader oc a).2, headerWritten := true } := by
        simp only [outputWriteHeaderIfNeeded, hsome, henabled, hwritten] at hret ⊢
        by_cases hneg : (avformatWriteHeader oc a).1 < 0
        · simp only [hneg, Bool.not_true, Bool.or_self, Bool.false_eq_true, if_false, if_true] at hret
          omega
        · simp [hneg]
      refine ⟨?_, by rw [hdone], hret⟩
      exact
        { opened := by
            intro ret timeBases hheader hpos
            cases List.mem_append.mp hheader with
            | inl hold =>
                have hopen := (h.opened ret timeBases hold hpos).1
                simp [hwritten] at hopen
            | inr hnew =>
                rw [hevents, List.mem_singleton] at hnew
                cases hnew
                exact ⟨by rw [hdone], rfl⟩
          unopened := by
            intro hclosed
            rw [hdone] at hclosed
            cases hclosed
          target := by
            intro ret pkt target hwrite _
            cases List.mem_append.mp hwrite with
            | inl hold => exact absurd hold (h.unopened hwritten ret pkt target)
            | inr hnew =>
                rw [hevents, List.mem_singleton] at hnew
                cases hnew
          increasing := by
            rw [dtsOn_append, dtsOn_headerEvents, List.append_nil, hdone]
            exact h.increasing
          neverWritten := by
            rw [hdone]
            exact h.neverWritten }

theorem outputSend_passes (henabled : o.enabled = true) (hoc : o.oc ≠ none) (h : Sound o es)
    (hok : ∀ e ∈ sendEvents o opkt target a, 0 ≤ e.ret) : sendEvents o opkt target a =
        headerEvents o a.header ++ [.write (outputSend o opkt a).ret opkt target] ∧
      0 ≤ (outputSend o opkt a).ret := by
  have hheader := h.header henabled hoc (a := a.header)
    (fun e he => hok e (List.mem_append_left _ he))
  have hsome : (outputSend o opkt a).passed = some opkt := by
    simp only [outputSend]
    rw [if_neg (Int.not_lt.mpr hheader.2.2)]
    cases hdone : (outputWriteHeaderIfNeeded o a.header).2.oc with
    | none => exact absurd hdone (outputWriteHeaderIfNeeded_oc a.header hoc)
    | some oc => rfl
  have hevents : sendEvents o opkt target a =
      headerEvents o a.header ++ [.write (outputSend o opkt a).ret opkt target] := by
    simp [sendEvents, hsome]
  exact ⟨hevents, hok (.write (outputSend o opkt a).ret opkt target) (by simp [hevents])⟩

theorem Sound.send (h : Sound o es) (henabled : o.enabled = true) (hoc : o.oc ≠ none)
    (hok : ∀ e ∈ sendEvents o opkt target a, 0 ≤ e.ret) (htarget : opkt.streamIndex = o.videoOutIndex →
      (outputWriteHeaderIfNeeded o a.header).2.videoTimeBase = some target)
    (hafter : opkt.streamIndex = o.videoOutIndex →
      (dtsOn o.videoOutIndex es ++ opkt.dts.toList).Pairwise (· < ·)) :
    Sound (outputSend o opkt a).state (es ++ sendEvents o opkt target a) := by
  obtain ⟨hevents, _⟩ := outputSend_passes henabled hoc h hok
  obtain ⟨hheader, hwritten, _⟩ := h.header henabled hoc (a := a.header)
    (fun e he => hok e (List.mem_append_left _ he))
  have hindex := outputSend_videoOutIndex o opkt a
  have hheaderIndex := outputWriteHeaderIfNeeded_videoOutIndex o a.header
  have hvideo := outputSend_videoTimeBase o opkt a
  rw [hevents, ← List.append_assoc]
  exact
    { opened := by
        intro ret timeBases hmem hpos
        rw [outputSend_headerWritten, hindex, hvideo, ← hheaderIndex]
        cases List.mem_append.mp hmem with
        | inl hold => exact hheader.opened ret timeBases hold hpos
        | inr hnew => cases List.mem_singleton.mp hnew
      unopened := by
        intro hclosed
        rw [outputSend_headerWritten, hwritten] at hclosed
        cases hclosed
      target := by
        intro ret pkt tb hmem hstream
        rw [hindex] at hstream
        rw [hvideo]
        cases List.mem_append.mp hmem with
        | inl hold => exact hheader.target ret pkt tb hold (hstream.trans hheaderIndex.symm)
        | inr hnew =>
            cases List.mem_singleton.mp hnew
            exact htarget hstream
      increasing := by
        rw [hindex, dtsOn_append, dtsOn_append, dtsOn_headerEvents, List.append_nil]
        rw [dtsOn_write]
        by_cases hstream : opkt.streamIndex = o.videoOutIndex
        · rw [if_pos hstream]
          exact hafter hstream
        · rw [if_neg hstream, List.append_nil]
          exact h.increasing
      neverWritten := by
        intro last hlast
        rw [outputSend_lastDts] at hlast
        exact h.neverWritten last hlast }

theorem videoOst_videoTimeBase {ost : AVStream} (h : o.videoOst = some ost) :
    o.oc ≠ none ∧ o.videoTimeBase = some ost.timeBase := by
  obtain ⟨oc, hoc, hst⟩ := Option.bind_eq_some_iff.mp h
  refine ⟨by simp [hoc], ?_⟩
  simp only [AVFormatContext.stream] at hst
  simp only [OutputState.videoTimeBase, OutputState.timeBases, hoc, timeBaseAt]
  split at hst
  · rename_i hpos
    simp [hpos, hst]
  · cases hst

theorem copies_enabled {pkt : AVPacket} {outIdx : Nat} {ost : AVStream}
    (h : o.copies pkt = some (outIdx, ost)) : o.enabled = true ∧ o.oc ≠ none ∧
      (outIdx = o.videoOutIndex → o.videoTimeBase = some ost.timeBase) := by
  refine ⟨?_, copies_oc h, ?_⟩
  · cases henabled : o.enabled with
    | true => rfl
    | false => simp [OutputState.copies, henabled] at h
  · intro hindex
    simp only [OutputState.copies] at h
    split at h
    · cases h
    · obtain ⟨idx, _, hmap⟩ := Option.bind_eq_some_iff.mp h
      obtain ⟨st, hst, heq⟩ := Option.map_eq_some_iff.mp hmap
      obtain ⟨rfl, rfl⟩ := Prod.mk.inj heq
      obtain ⟨oc, hoc, hget⟩ := Option.bind_eq_some_iff.mp hst
      simp only [OutputState.videoTimeBase, OutputState.timeBases, hoc, timeBaseAt, ← hindex]
      simp [hget]

end Sound

/-- A packet that is copied to the video stream comes after the ones before it,
and a header that goes out for it leaves the stream's time base alone. -/
def CopyInOrder (o : OutputState) (es : List Event) (call : CopyCall) : Prop :=
  ∀ out ∈ o.copies call.pkt, out.1 = o.videoOutIndex → 0 ≤ call.reference →
    KeepsVideo o call.answers.header ∧
      (dtsOn o.videoOutIndex es ++
        ((rescaleTs call.pkt.dts call.ist out.2.timeBase).or
          (rescaleTs call.pkt.pts call.ist out.2.timeBase)).toList).Pairwise (· < ·)

def FitsEncoder (o : OutputState) (encoder : EncoderAnswer) : Prop :=
  o.videoEncCtx = none → encoder.opens = true → o.headerWritten = true →
    o.videoTimeBase = some encoderTimeBase

instance (o : OutputState) (encoder : EncoderAnswer) : Decidable (FitsEncoder o encoder) :=
  inferInstanceAs (Decidable (_ → _))

def encodedDts (enc : AVCodecContext) (tb : AVRational) (received : List (AVPacket × WriteAnswers)) :
    List Int :=
  received.filterMap fun r => rescaleTs r.1.dts enc.timeBase tb

/-- The packets of the encoder come after the ones before them, and a header
that goes out for them leaves the stream's time base alone. -/
def EncodeInOrder (o : OutputState) (es : List Event) (answers : EncodeAnswers) : Prop :=
  ∀ enc ∈ o.videoEncCtx, (∀ r ∈ answers.received, KeepsVideo o r.2.header) ∧
    ∀ tb ∈ o.videoTimeBase,
      (dtsOn o.videoOutIndex es ++ encodedDts enc tb answers.received).Pairwise (· < ·)

section Given

/-- A timestamp of the input or of the encoder, in the time base that it comes in. -/
structure Given where
  ts : Int
  tb : AVRational
deriving DecidableEq, Repr

def Given.tick (g : Given) (tb : AVRational) : Int :=
  Mode.nearest.round (timeOf g.ts g.tb / timeOf 1 tb)

def Given.CountedIn (g : Given) (tb : AVRational) : Prop :=
  (0 < g.tb.num ∧ 0 < g.tb.den) ∧ (0 < tb.num ∧ 0 < tb.den) ∧ -int64Max ≤ g.ts ∧ Fits g.ts g.tb tb

instance (g : Given) (tb : AVRational) : Decidable (g.CountedIn tb) := inferInstanceAs (Decidable (_ ∧ _))

def CopyCall.given (o : OutputState) (call : CopyCall) : List Given :=
  match o.copies call.pkt with
  | none => []
  | some (outIdx, _) =>
      if outIdx = o.videoOutIndex ∧ 0 ≤ call.reference then
        (call.pkt.dts.or call.pkt.pts).toList.map fun ts => ⟨ts, call.ist⟩
      else []

def EncodeAnswers.given (o : OutputState) (answers : EncodeAnswers) : List Given :=
  match o.videoEncCtx with
  | none => []
  | some enc => (answers.received.filterMap fun r => r.1.dts).map fun ts => ⟨ts, enc.timeBase⟩

def Step.given (o : OutputState) : Step → List Given
  | .copyAudio call | .copyVideo call => call.given o
  | .prepareAtParamChange _ | .prepareAtFrame _ => []
  | .encodeFrame _ _ answers | .flush answers => answers.given o

/-- A header that goes out for a packet of the video stream leaves the stream's time base
alone, and an encoder is opened only where its time base fits. -/
def Step.KeepsTimeBase (o : OutputState) : Step → Prop
  | .copyAudio call | .copyVideo call =>
      ∀ out ∈ o.copies call.pkt, out.1 = o.videoOutIndex → KeepsVideo o call.answers.header
  | .prepareAtParamChange encoder | .prepareAtFrame encoder => FitsEncoder o encoder
  | .encodeFrame _ _ answers | .flush answers => ∀ r ∈ answers.received, KeepsVideo o r.2.header

instance (o : OutputState) : (step : Step) → Decidable (step.KeepsTimeBase o)
  | .copyAudio call | .copyVideo call => inferInstanceAs (Decidable (∀ out ∈ o.copies call.pkt, _))
  | .prepareAtParamChange encoder | .prepareAtFrame encoder => inferInstanceAs (Decidable (FitsEncoder o encoder))
  | .encodeFrame _ _ answers | .flush answers => inferInstanceAs (Decidable (∀ r ∈ answers.received, _))

/-- Timestamps go on in time behind those before them: the ticks of the video stream's time
base that are nearest to them increase. -/
def GoOn (o : OutputState) (before new : List Given) : Prop :=
  ∀ tb ∈ o.videoTimeBase, (∀ g ∈ new, g.CountedIn tb) ∧ ((before ++ new).map (·.tick tb)).Pairwise (· < ·)

instance (o : OutputState) (before new : List Given) : Decidable (GoOn o before new) :=
  inferInstanceAs (Decidable (∀ tb ∈ o.videoTimeBase, _))

def feeding : System ((OutputState × List Event) × List Given) Step :=
  ((streaming.guard allSucceed).observed events).observed fun s step => step.given s.1

/-- The condition on a step: on what it brings, on the muxer's answer to the header and on
the time base of the stream before it. -/
def Meets (s : (OutputState × List Event) × List Given) (step : Step) : Prop :=
  GoOn s.1.1 s.2 (step.given s.1.1) ∧ step.KeepsTimeBase s.1.1

instance (s : (OutputState × List Event) × List Given) (step : Step) : Decidable (Meets s step) :=
  inferInstanceAs (Decidable (_ ∧ _))

variable {o : OutputState} {es : List Event} {gs : List Given} {tb src : AVRational}

theorem rescaleTs_given {ts : Int} (h : (Given.mk ts src).CountedIn tb) :
    rescaleTs (some ts) src tb = some ((Given.mk ts src).tick tb) := by
  obtain ⟨hround, hfits⟩ := avRescaleQ_round h.1 h.2.1 h.2.2.1 h.2.2.2
  rw [rescaleTs, Option.bind_some, if_neg hfits, hround]
  rfl

theorem rescaleTs_or_given {dts pts : Option Int}
    (h : ∀ g ∈ (dts.or pts).toList.map fun ts => Given.mk ts src, g.CountedIn tb) :
    ((rescaleTs dts src tb).or (rescaleTs pts src tb)).toList =
      ((dts.or pts).toList.map fun ts => Given.mk ts src).map (·.tick tb) := by
  cases dts with
  | some ts =>
      rw [rescaleTs_given (h ⟨ts, src⟩ (by simp))]
      rfl
  | none =>
      cases pts with
      | none => rfl
      | some ts =>
          rw [rescaleTs_given (h ⟨ts, src⟩ (by simp))]
          rfl

theorem encodedDts_given {enc : AVCodecContext} {received : List (AVPacket × WriteAnswers)}
    (h : ∀ g ∈ (received.filterMap fun r => r.1.dts).map fun ts => Given.mk ts enc.timeBase, g.CountedIn tb) :
    encodedDts enc tb received =
      ((received.filterMap fun r => r.1.dts).map fun ts => Given.mk ts enc.timeBase).map (·.tick tb) := by
  induction received with
  | nil => rfl
  | cons r rest ih =>
      cases hdts : r.1.dts with
      | none =>
          rw [List.filterMap_cons_none (f := fun r : AVPacket × WriteAnswers => r.1.dts) hdts] at h ⊢
          rw [← ih h, encodedDts, List.filterMap_cons_none (by rw [hdts]; rfl)]
          rfl
      | some ts =>
          rw [List.filterMap_cons_some (f := fun r : AVPacket × WriteAnswers => r.1.dts) hdts] at h ⊢
          have hfirst := rescaleTs_given (h ⟨ts, enc.timeBase⟩ (List.mem_cons_self ..))
          rw [encodedDts, List.filterMap_cons_some (by rw [hdts]; exact hfirst), List.map_cons, List.map_cons,
            ← ih fun g hg => h g (List.mem_cons_of_mem _ hg)]
          rfl

theorem dtsOn_sendEvents {opkt : AVPacket} {target : AVRational} {a : WriteAnswers} (i : Int) :
    (dtsOn i (sendEvents o opkt target a)).Sublist (if opkt.streamIndex = i then opkt.dts.toList else []) := by
  rw [sendEvents, dtsOn_append, dtsOn_headerEvents, List.nil_append]
  cases hpassed : (outputSend o opkt a).passed with
  | none => exact List.nil_sublist _
  | some p =>
      obtain rfl := outputSend_passed hpassed
      rw [Option.map_some, Option.toList_some, dtsOn_write]

theorem KeepsVideo.send {opkt : AVPacket} {a : WriteAnswers} {b : HeaderAnswer} (ha : KeepsVideo o a.header)
    (hb : KeepsVideo o b) : KeepsVideo (outputSend o opkt a).state b := by
  intro hclosed tb htb
  rw [outputSend_videoOutIndex] at htb
  rw [outputSend_videoTimeBase, outputWriteHeaderIfNeeded_videoTimeBase ha]
  refine hb ?_ tb htb
  rw [outputSend_headerWritten] at hclosed
  cases hwritten : o.headerWritten with
  | false => rfl
  | true =>
      cases hoc : o.oc <;> simp [outputWriteHeaderIfNeeded, hwritten, hoc] at hclosed

theorem dtsOn_receive {enc : AVCodecContext} {last : Int} {received : List (AVPacket × WriteAnswers)}
    (hkeeps : ∀ r ∈ received, KeepsVideo o r.2.header) :
    (receivePackets enc last o received).state.videoOutIndex = o.videoOutIndex ∧
      (receivePackets enc last o received).state.videoTimeBase = o.videoTimeBase ∧
      ∀ tb ∈ o.videoTimeBase, (dtsOn o.videoOutIndex (receivePackets enc last o received).events).Sublist
        (encodedDts enc tb received) := by
  induction received generalizing o with
  | nil => exact ⟨rfl, rfl, fun tb _ => List.Sublist.refl _⟩
  | cons r rest ih =>
      obtain ⟨pkt, a⟩ := r
      rw [receivePackets]
      cases host : o.videoOst with
      | none => exact ⟨rfl, rfl, fun tb _ => List.nil_sublist _⟩
      | some ost =>
          have hkept := hkeeps (pkt, a) (List.mem_cons_self ..)
          have hsent : (outputSend o (rescaled pkt o.videoOutIndex enc.timeBase ost.timeBase) a).state.videoTimeBase =
              o.videoTimeBase := by rw [outputSend_videoTimeBase, outputWriteHeaderIfNeeded_videoTimeBase hkept]
          have hindex := outputSend_videoOutIndex o (rescaled pkt o.videoOutIndex enc.timeBase ost.timeBase) a
          have hfirst : ∀ tb ∈ o.videoTimeBase, (dtsOn o.videoOutIndex (sendEvents o
              (rescaled pkt o.videoOutIndex enc.timeBase ost.timeBase) ost.timeBase a)).Sublist
                (rescaleTs pkt.dts enc.timeBase tb).toList := by
            intro tb htb
            obtain rfl : ost.timeBase = tb := Option.some.inj ((videoOst_videoTimeBase host).2.symm.trans htb)
            exact (dtsOn_sendEvents o.videoOutIndex).trans (by simp [rescaled])
          have hsplit : ∀ tb, encodedDts enc tb ((pkt, a) :: rest) =
              (rescaleTs pkt.dts enc.timeBase tb).toList ++ encodedDts enc tb rest := by
            intro tb
            cases hts : rescaleTs pkt.dts enc.timeBase tb <;> simp [encodedDts, hts]
          dsimp only
          split
          · refine ⟨hindex, hsent, fun tb htb => ?_⟩
            rw [hsplit]
            exact (hfirst tb htb).trans (List.sublist_append_left _ _)
          · obtain ⟨hrestIndex, hrestTb, hrest⟩ := @ih
              (outputSend o (rescaled pkt o.videoOutIndex enc.timeBase ost.timeBase) a).state
              fun r hr => hkept.send (hkeeps r (List.mem_cons_of_mem _ hr))
            refine ⟨hrestIndex.trans hindex, hrestTb.trans hsent, fun tb htb => ?_⟩
            have hmore := hrest tb (hsent.symm ▸ htb)
            rw [hindex] at hmore
            rw [hsplit, dtsOn_append]
            exact (hfirst tb htb).append hmore

end Given

section Steps

variable {o : OutputState} {es : List Event}

theorem Sound.copy (h : Sound o es) {call : CopyCall} (horder : CopyInOrder o es call)
    (hok : ∀ e ∈ copyEvents o call, 0 ≤ e.ret) : Sound (call.outcome o).state (es ++ copyEvents o call) := by
  simp only [CopyCall.outcome, outputWritePacketCopy, copyEvents] at hok ⊢
  cases hcopies : o.copies call.pkt with
  | none => simpa using h
  | some out =>
      obtain ⟨outIdx, ost⟩ := out
      simp only [hcopies] at hok ⊢
      by_cases href : call.reference < 0
      · simpa [href] using h
      · simp only [href, if_false] at hok ⊢
        obtain ⟨henabled, hoc, hvideo⟩ := copies_enabled hcopies
        have hopkt : o.opkt outIdx call.ist ost.timeBase call.pkt =
            filledIn (rescaled call.pkt outIdx call.ist ost.timeBase) := h.neverWritten.opkt ..
        have hindex : (o.opkt outIdx call.ist ost.timeBase call.pkt).streamIndex = outIdx := by
          rw [hopkt, filledIn_streamIndex]
          rfl
        obtain ⟨hevents, hret⟩ := outputSend_passes henabled hoc h hok
        have hsent := h.send henabled hoc hok
          (by
            intro hstream
            rw [hindex] at hstream
            rw [outputWriteHeaderIfNeeded_videoTimeBase (horder (outIdx, ost) hcopies hstream (not_lt.mp href)).1]
            exact hvideo hstream)
          (by
            intro hstream
            rw [hindex] at hstream
            rw [hopkt, filledIn_dts]
            exact (horder (outIdx, ost) hcopies hstream (not_lt.mp href)).2)
        rw [if_neg]
        · exact hsent
        · rw [outputSend_left hoc hret]
          simp

theorem Sound.receive {enc : AVCodecContext} {last : Int} {received : List (AVPacket × WriteAnswers)}
    (h : Sound o es) (henabled : o.enabled = true) (hkeeps : ∀ r ∈ received, KeepsVideo o r.2.header)
    (horder : ∀ tb, o.videoTimeBase = some tb →
      (dtsOn o.videoOutIndex es ++ encodedDts enc tb received).Pairwise (· < ·))
    (hok : ∀ e ∈ (receivePackets enc last o received).events, 0 ≤ e.ret) :
    Sound (receivePackets enc last o received).state
      (es ++ (receivePackets enc last o received).events) := by
  induction received generalizing o es with
  | nil => simpa [receivePackets] using h
  | cons r rest ih =>
      obtain ⟨pkt, a⟩ := r
      simp only [receivePackets] at hok ⊢
      cases host : o.videoOst with
      | none => simpa using h
      | some ost =>
          simp only [host] at hok ⊢
          obtain ⟨hoc, hvideo⟩ := videoOst_videoTimeBase host
          have hsendOk : ∀ e ∈ sendEvents o
              (rescaled pkt o.videoOutIndex enc.timeBase ost.timeBase) ost.timeBase a, 0 ≤ e.ret := by
            intro e he
            apply hok e
            split
            · exact he
            · exact List.mem_append_left _ he
          obtain ⟨hevents, hret⟩ := outputSend_passes henabled hoc h hsendOk
          have hgoes : ¬ ((outputSend o (rescaled pkt o.videoOutIndex enc.timeBase ost.timeBase)
              a).passed.isSome && (outputSend o (rescaled pkt o.videoOutIndex enc.timeBase
                ost.timeBase) a).ret < 0) = true := by
            simp [Int.not_lt.mpr hret]
          simp only [hgoes] at hok ⊢
          have hkept := outputWriteHeaderIfNeeded_videoTimeBase (hkeeps (pkt, a) (by simp))
          have hdts := horder ost.timeBase hvideo
          have hfirst : encodedDts enc ost.timeBase ((pkt, a) :: rest) =
              (rescaleTs pkt.dts enc.timeBase ost.timeBase).toList ++
                encodedDts enc ost.timeBase rest := by
            cases hts : rescaleTs pkt.dts enc.timeBase ost.timeBase <;> simp [encodedDts, hts]
          rw [hfirst, ← List.append_assoc] at hdts
          have hsent := h.send henabled hoc hsendOk (fun _ => hkept.trans hvideo)
            (fun _ => (List.pairwise_append.mp hdts).1)
          have hrest := ih hsent
            (by rw [outputSend_enabled, henabled])
            (by
              intro _ _ hclosed
              have hopen := (h.header henabled hoc (fun e he =>
                hsendOk e (List.mem_append_left _ he))).2.1
              rw [outputSend_headerWritten, hopen] at hclosed
              cases hclosed)
            (by
              intro tb htb
              rw [outputSend_videoTimeBase, hkept, hvideo] at htb
              obtain rfl := Option.some.inj htb
              rw [outputSend_videoOutIndex, dtsOn_append, hevents, dtsOn_append, dtsOn_headerEvents]
              simpa [dtsOn_write, rescaled] using hdts)
            (fun e he => hok e (List.mem_append_right _ he))
          rwa [List.append_assoc] at hrest

theorem Sound.withEncoder (h : Sound o es) (enc : Option AVCodecContext) :
    Sound { o with videoEncCtx := enc } es where
  opened := h.opened
  unopened := h.unopened
  target := h.target
  increasing := h.increasing
  neverWritten := h.neverWritten

theorem Sound.encode (h : Sound o es) {frame : Option (Option Int)} {srcTb : AVRational}
    {answers : EncodeAnswers} (horder : EncodeInOrder o es answers)
    (hok : ∀ e ∈ (outputEncodeAndWriteVideo o frame srcTb answers).events, 0 ≤ e.ret) :
    Sound (outputEncodeAndWriteVideo o frame srcTb answers).state
      (es ++ (outputEncodeAndWriteVideo o frame srcTb answers).events) := by
  have hstays : Sound o (es ++ []) := by
    rw [List.append_nil]
    exact h
  simp only [outputEncodeAndWriteVideo] at hok ⊢
  cases henc : o.videoEncCtx with
  | none => exact hstays
  | some enc =>
      simp only [henc] at hok ⊢
      obtain ⟨hkeeps, hdts⟩ := horder enc henc
      by_cases henabled : o.enabled = false
      · rw [if_pos henabled]
        exact hstays
      · rw [if_neg henabled] at hok ⊢
        by_cases href : (frame.isSome && answers.reference < 0) = true
        · rw [if_pos href]
          exact hstays
        · rw [if_neg href] at hok ⊢
          by_cases hsend : answers.sendFrame < 0 ∧ answers.sendFrame ≠ averrorEagain ∧
              answers.sendFrame ≠ averrorEof
          · rw [if_pos hsend]
            exact hstays
          · rw [if_neg hsend] at hok ⊢
            exact (h.withEncoder _).receive (by simpa using henabled) hkeeps hdts hok

/-- Preparing the encoder leaves everything alone but the encoder's own fields
and the parameters and the time base of the video stream. -/
theorem outputPrepareVideoEncoder_spec (o : OutputState) (a : EncoderAnswer) :
    (outputPrepareVideoEncoder o a).2 = o ∨
      o.videoEncCtx = none ∧ a.opens = true ∧
        (outputPrepareVideoEncoder o a).2.headerWritten = o.headerWritten ∧
        (outputPrepareVideoEncoder o a).2.videoOutIndex = o.videoOutIndex ∧
        (outputPrepareVideoEncoder o a).2.lastDts = o.lastDts ∧
        ((outputPrepareVideoEncoder o a).2.videoTimeBase = o.videoTimeBase ∨
          (outputPrepareVideoEncoder o a).2.videoTimeBase = some encoderTimeBase) := by
  simp only [outputPrepareVideoEncoder]
  cases hoc : o.oc with
  | none => exact .inl rfl
  | some oc =>
      simp only
      split
      · exact .inl rfl
      · split
        · exact .inl rfl
        · rename_i hfree
          split
          · exact .inl rfl
          · rename_i hfound
            split
            · exact .inl rfl
            · rename_i hallocated
              split
              · exact .inl rfl
              · rename_i hopened
                have hopens : a.opens = true := by
                  rw [Bool.not_eq_false] at hfound hallocated
                  simp [EncoderAnswer.opens, hfound, hallocated, Int.not_lt.mp hopened]
                have hnone : o.videoEncCtx = none := by simpa using hfree
                cases hst : oc.stream o.videoOutIndex with
                | none =>
                    refine .inr ⟨hnone, hopens, rfl, rfl, rfl, .inl ?_⟩
                    simp [OutputState.videoTimeBase, OutputState.timeBases, hoc]
                | some st =>
                    refine .inr ⟨hnone, hopens, rfl, rfl, rfl, .inr ?_⟩
                    simp only [AVFormatContext.stream] at hst
                    split at hst
                    · rename_i hpos
                      obtain ⟨hlt, _⟩ := List.getElem?_eq_some_iff.mp hst
                      simp [OutputState.videoTimeBase, OutputState.timeBases, timeBaseAt,
                        AVFormatContext.setStream, hpos, hlt]
                    · cases hst

theorem Sound.prepare (h : Sound o es) {a : EncoderAnswer} (hfits : FitsEncoder o a) :
    Sound (outputPrepareVideoEncoder o a).2 es := by
  obtain hsame | ⟨hfree, hopens, hwritten, hindex, hlast, htb⟩ := outputPrepareVideoEncoder_spec o a
  · rw [hsame]
    exact h
  · have hvideo : o.headerWritten = true →
        (outputPrepareVideoEncoder o a).2.videoTimeBase = o.videoTimeBase := by
      intro hopen
      rw [hfits hfree hopens hopen] at htb ⊢
      exact htb.elim id id
    exact
      { opened := by
          intro ret timeBases hheader hpos
          obtain ⟨hopen, hsame⟩ := h.opened ret timeBases hheader hpos
          rw [hwritten, hindex, hvideo hopen]
          exact ⟨hopen, hsame⟩
        unopened := by
          rw [hwritten]
          exact h.unopened
        target := by
          intro ret pkt target hwrite hstream
          cases hopen : o.headerWritten with
          | false => exact absurd hwrite (h.unopened hopen ret pkt target)
          | true =>
              rw [hvideo hopen]
              exact h.target ret pkt target hwrite (hstream.trans hindex)
        increasing := by
          rw [hindex]
          exact h.increasing
        neverWritten := by
          intro last hmem
          rw [hlast] at hmem
          exact h.neverWritten last hmem }

theorem outputInitFromInput_sound (oformat : AVOutputFormat) (inputs : List InputStream) :
    Sound (outputInitFromInput oformat inputs) [] where
  opened _ _ hheader _ := absurd hheader List.not_mem_nil
  unopened _ _ _ _ := List.not_mem_nil
  target _ _ _ hwrite _ := absurd hwrite List.not_mem_nil
  increasing := .nil
  neverWritten := outputInitFromInput_neverWritten oformat inputs

def Brought (o : OutputState) (es : List Event) (gs : List Given) : Prop :=
  ∀ tb ∈ o.videoTimeBase, (dtsOn o.videoOutIndex es).Sublist (gs.map (·.tick tb))

variable {gs : List Given}

theorem Brought.append (h : Brought o es gs) {o' : OutputState} {new : List Event} {given : List Given}
    (hindex : o'.videoOutIndex = o.videoOutIndex) (htb : o'.videoTimeBase = o.videoTimeBase)
    (hnew : ∀ tb ∈ o.videoTimeBase, (dtsOn o.videoOutIndex new).Sublist (given.map (·.tick tb))) :
    Brought o' (es ++ new) (gs ++ given) := by
  intro tb hmem
  rw [htb] at hmem
  rw [hindex, dtsOn_append, List.map_append]
  exact (h tb hmem).append (hnew tb hmem)

/-- Before the header nothing was written, whatever the time base of the stream becomes. -/
theorem Sound.brought (h : Sound o es) (hclosed : o.headerWritten = false) {o' : OutputState} {new : List Event}
    (hindex : o'.videoOutIndex = o.videoOutIndex) (hnew : dtsOn o.videoOutIndex new = []) :
    Brought o' (es ++ new) gs := by
  have hnone : dtsOn o.videoOutIndex es = [] := by
    rw [dtsOn, List.filterMap_eq_nil_iff]
    intro e he
    cases e with
    | header ret timeBases => rfl
    | write ret pkt target => exact absurd he (h.unopened hclosed ret pkt target)
  intro tb _
  rw [hindex, dtsOn_append, hnone, hnew]
  exact List.nil_sublist _

theorem outcome_videoTimeBase (o : OutputState) (call : CopyCall) :
    (call.outcome o).state.videoOutIndex = o.videoOutIndex ∧
      ((call.outcome o).state.videoTimeBase = o.videoTimeBase ∨
        (call.outcome o).state.videoTimeBase =
          (outputWriteHeaderIfNeeded o call.answers.header).2.videoTimeBase) := by
  simp only [CopyCall.outcome, outputWritePacketCopy]
  cases o.copies call.pkt with
  | none => exact ⟨rfl, .inl rfl⟩
  | some out =>
      dsimp only
      split
      · exact ⟨rfl, .inl rfl⟩
      · split
        · exact ⟨outputSend_videoOutIndex .., .inr (outputSend_videoTimeBase ..)⟩
        · exact ⟨outputSend_videoOutIndex .., .inr (outputSend_videoTimeBase ..)⟩

theorem given_copied {call : CopyCall} {outIdx : Nat} {ost : AVStream}
    (hcopies : o.copies call.pkt = some (outIdx, ost)) :
    call.given o = if outIdx = o.videoOutIndex ∧ 0 ≤ call.reference then
      (call.pkt.dts.or call.pkt.pts).toList.map fun ts => ⟨ts, call.ist⟩ else [] := by
  rw [CopyCall.given, hcopies]

theorem dtsOn_copied (hnever : NeverWritten o) {call : CopyCall} {outIdx : Nat} {ost : AVStream}
    (hcopies : o.copies call.pkt = some (outIdx, ost)) :
    (dtsOn o.videoOutIndex (copyEvents o call)).Sublist
      (if outIdx = o.videoOutIndex ∧ 0 ≤ call.reference then
        ((rescaleTs call.pkt.dts call.ist ost.timeBase).or (rescaleTs call.pkt.pts call.ist ost.timeBase)).toList
      else []) := by
  have hopkt := hnever.opkt outIdx call.ist ost.timeBase call.pkt
  have hsent := @dtsOn_sendEvents o (o.opkt outIdx call.ist ost.timeBase call.pkt) ost.timeBase call.answers
    o.videoOutIndex
  rw [hopkt, filledIn_streamIndex, filledIn_dts] at hsent
  rw [copyEvents, hcopies]
  dsimp only
  by_cases href : call.reference < 0
  · rw [if_pos href]
    exact List.nil_sublist _
  · rw [if_neg href, hopkt]
    simp only [not_lt.mp href, and_true]
    exact hsent

theorem Brought.copy (h : Brought o es gs) (hs : Sound o es) {call : CopyCall} (hgo : GoOn o gs (call.given o))
    (hkeeps : ∀ out ∈ o.copies call.pkt, out.1 = o.videoOutIndex → KeepsVideo o call.answers.header) :
    CopyInOrder o es call ∧ Brought (call.outcome o).state (es ++ copyEvents o call) (gs ++ call.given o) := by
  obtain ⟨hindex, htb⟩ := outcome_videoTimeBase o call
  cases hcopies : o.copies call.pkt with
  | none =>
      have hsame : (call.outcome o).state = o := by rw [CopyCall.outcome, outputWritePacketCopy, hcopies]
      have hnothing : copyEvents o call = [] := by rw [copyEvents, hcopies]
      refine ⟨fun out hout => (by rw [hcopies] at hout; cases hout), ?_⟩
      rw [hsame, hnothing]
      exact h.append rfl rfl fun tb _ => List.nil_sublist _
  | some out =>
      obtain ⟨outIdx, ost⟩ := out
      obtain ⟨_, _, hvideo⟩ := copies_enabled hcopies
      have hgiven := given_copied hcopies
      have hdts := dtsOn_copied hs.neverWritten hcopies
      by_cases hbrings : outIdx = o.videoOutIndex ∧ 0 ≤ call.reference
      · have hkept := hkeeps (outIdx, ost) hcopies hbrings.1
        obtain ⟨hcounted, hpairwise⟩ := hgo ost.timeBase (hvideo hbrings.1)
        rw [if_pos hbrings] at hgiven hdts
        rw [hgiven] at hcounted
        have hticks := rescaleTs_or_given hcounted
        rw [← hgiven] at hticks
        have hsub := h ost.timeBase (hvideo hbrings.1)
        constructor
        · intro out hout _ _
          obtain rfl : (outIdx, ost) = out := Option.some.inj (hcopies.symm.trans hout)
          rw [hticks]
          rw [List.map_append] at hpairwise
          exact ⟨hkept, hpairwise.sublist (hsub.append (List.Sublist.refl _))⟩
        · refine h.append hindex ?_ ?_
          · exact htb.elim id fun hheader => hheader.trans (outputWriteHeaderIfNeeded_videoTimeBase hkept)
          · intro tb hmem
            obtain rfl : ost.timeBase = tb := Option.some.inj ((hvideo hbrings.1).symm.trans hmem)
            rwa [← hticks]
      · rw [if_neg hbrings] at hgiven hdts
        have hnothing := List.sublist_nil.mp hdts
        refine ⟨fun out hout hvideo href => ?_, ?_⟩
        · obtain rfl : (outIdx, ost) = out := Option.some.inj (hcopies.symm.trans hout)
          exact absurd ⟨hvideo, href⟩ hbrings
        · rw [hgiven]
          cases hwritten : o.headerWritten with
          | false => exact hs.brought hwritten hindex hnothing
          | true =>
              have hkept : KeepsVideo o call.answers.header := fun hclosed => by
                rw [hwritten] at hclosed
                cases hclosed
              refine h.append hindex ?_ fun tb _ => by rw [hnothing]; exact List.nil_sublist _
              exact htb.elim id fun hheader => hheader.trans (outputWriteHeaderIfNeeded_videoTimeBase hkept)

theorem Brought.encode (h : Brought o es gs) (frame : Option (Option Int)) (srcTb : AVRational)
    {answers : EncodeAnswers} (hgo : GoOn o gs (answers.given o))
    (hkeeps : ∀ r ∈ answers.received, KeepsVideo o r.2.header) :
    EncodeInOrder o es answers ∧ Brought (outputEncodeAndWriteVideo o frame srcTb answers).state
      (es ++ (outputEncodeAndWriteVideo o frame srcTb answers).events) (gs ++ answers.given o) := by
  have hstays : Brought o (es ++ []) (gs ++ answers.given o) := h.append rfl rfl fun tb _ => List.nil_sublist _
  cases henc : o.videoEncCtx with
  | none =>
      refine ⟨fun enc hmem => (by rw [henc] at hmem; cases hmem), ?_⟩
      rw [outputEncodeAndWriteVideo, henc]
      exact hstays
  | some enc =>
      have hgiven : answers.given o = (answers.received.filterMap fun r => r.1.dts).map fun ts => ⟨ts, enc.timeBase⟩ := by
        rw [EncodeAnswers.given, henc]
      have hticks : ∀ tb ∈ o.videoTimeBase, encodedDts enc tb answers.received = (answers.given o).map (·.tick tb) := by
        intro tb htb
        have hcounted := (hgo tb htb).1
        rw [hgiven] at hcounted ⊢
        exact encodedDts_given hcounted
      constructor
      · intro enc' hmem
        obtain rfl : enc = enc' := Option.some.inj (henc.symm.trans hmem)
        refine ⟨hkeeps, fun tb htb => ?_⟩
        have hpairwise := (hgo tb htb).2
        rw [List.map_append] at hpairwise
        rw [hticks tb htb]
        exact hpairwise.sublist ((h tb htb).append (List.Sublist.refl _))
      · rw [outputEncodeAndWriteVideo, henc]
        dsimp only
        split
        · exact hstays
        · split
          · exact hstays
          · split
            · exact hstays
            · obtain ⟨hindex, htb, hnew⟩ := @dtsOn_receive { o with videoEncCtx := some { enc with
                  frames := if answers.sendFrame < 0 then enc.frames
                    else enc.frames ++ frame.toList.map fun pts => rescaleTs pts srcTb enc.timeBase } }
                { enc with
                  frames := if answers.sendFrame < 0 then enc.frames
                    else enc.frames ++ frame.toList.map fun pts => rescaleTs pts srcTb enc.timeBase }
                answers.last answers.received hkeeps
              refine h.append hindex htb fun tb hmem => ?_
              rw [← hticks tb hmem]
              exact hnew tb hmem

theorem Brought.prepare (h : Brought o es gs) (hs : Sound o es) {a : EncoderAnswer} (hfits : FitsEncoder o a) :
    Brought (outputPrepareVideoEncoder o a).2 (es ++ []) (gs ++ []) := by
  obtain hsame | ⟨hfree, hopens, _, hindex, _, htb⟩ := outputPrepareVideoEncoder_spec o a
  · rw [hsame]
    exact h.append rfl rfl fun tb _ => List.nil_sublist _
  · cases hwritten : o.headerWritten with
    | false => exact hs.brought hwritten hindex rfl
    | true =>
        refine h.append hindex ?_ fun tb _ => List.nil_sublist _
        exact htb.elim id fun henc => henc.trans (hfits hfree hopens hwritten).symm

theorem Sound.step (h : Sound o es) (hb : Brought o es gs) {step : Step} (hmeets : Meets ((o, es), gs) step)
    (hok : ∀ e ∈ events o step, 0 ≤ e.ret) : Sound (step.outcome o).state (es ++ events o step) ∧
      Brought (step.outcome o).state (es ++ events o step) (gs ++ step.given o) := by
  obtain ⟨hgo, hkeeps⟩ := hmeets
  have hstays : Sound o (es ++ []) := by
    rw [List.append_nil]
    exact h
  have hbstays : ∀ given, Brought o (es ++ []) (gs ++ given) := fun given =>
    hb.append rfl rfl fun tb _ => List.nil_sublist _
  cases step with
  | copyAudio call =>
      obtain ⟨horder, hbrought⟩ := hb.copy h hgo hkeeps
      simp only [events, Step.outcome, Step.given] at hok ⊢
      split
      · rename_i hen
        simp only [hen, if_true] at hok
        exact ⟨h.copy horder hok, hbrought⟩
      · exact ⟨hstays, hbstays _⟩
  | copyVideo call =>
      obtain ⟨horder, hbrought⟩ := hb.copy h hgo hkeeps
      simp only [events, Step.outcome, Step.given] at hok ⊢
      split
      · rename_i hen
        simp only [hen, if_true] at hok
        exact ⟨h.copy horder hok, hbrought⟩
      · exact ⟨hstays, hbstays _⟩
  | prepareAtParamChange encoder =>
      simp only [events, Step.outcome, Step.given]
      split
      · exact ⟨by simpa using h.prepare hkeeps, hb.prepare h hkeeps⟩
      · exact ⟨hstays, hbstays _⟩
  | prepareAtFrame encoder =>
      simp only [events, Step.outcome, Step.given]
      split
      · exact ⟨by simpa using h.prepare hkeeps, hb.prepare h hkeeps⟩
      · exact ⟨hstays, hbstays _⟩
  | encodeFrame pts srcTb answers =>
      obtain ⟨horder, hbrought⟩ := hb.encode (some pts) srcTb hgo hkeeps
      simp only [events, Step.outcome, Step.given] at hok ⊢
      split
      · rename_i hen
        simp only [hen, if_true] at hok
        exact ⟨h.encode horder hok, hbrought⟩
      · exact ⟨hstays, hbstays _⟩
  | flush answers =>
      obtain ⟨horder, hbrought⟩ := hb.encode none ⟨0, 0⟩ hgo hkeeps
      exact ⟨h.encode horder hok, hbrought⟩

end Steps

theorem streaming_sound {s : (OutputState × List Event) × List Given} (h : (feeding.restrict Meets).Reachable s) :
    Sound s.1.1 s.1.2 ∧ Brought s.1.1 s.1.2 s.2 := by
  refine System.Reachable.invariant (fun s => Sound s.1.1 s.1.2 ∧ Brought s.1.1 s.1.2 s.2) ?_ ?_ h
  · rintro ⟨⟨o, es⟩, gs⟩ ⟨⟨⟨oformat, inputs, rfl⟩, rfl⟩, rfl⟩
    exact ⟨outputInitFromInput_sound oformat inputs, fun tb _ => List.Sublist.refl _⟩
  · rintro ⟨⟨o, es⟩, gs⟩ step ⟨⟨o', es'⟩, gs'⟩ _ ⟨hsound, hbrought⟩ hn
    obtain ⟨hmeets, hnext⟩ := System.restrict_next.mp hn
    obtain ⟨hwritten, rfl⟩ := System.observed_next.mp hnext
    obtain ⟨hguard, rfl⟩ := System.observed_next.mp hwritten
    obtain ⟨hall, hstep⟩ := System.guard_next.mp hguard
    obtain rfl : (step.outcome o).state = o' := Option.some.inj hstep
    apply hsound.step hbrought hmeets
    intro e he
    simpa using List.all_eq_true.mp hall e he

/-- In every run whose steps meet the condition, the packets of the video stream
are valid in every state, also across the switch to encoding. -/
theorem switch_keeps_video_valid {s : (OutputState × List Event) × List Given}
    (h : (feeding.restrict Meets).Reachable s) : ValidStream s.1.1.videoOutIndex s.1.2 :=
  (streaming_sound h).1.valid

def videoInput (den : Int) : InputStream := ⟨⟨1, den⟩, .video, .other, 0, 0, false⟩

def keepsTimeBase (den : Int) : WriteAnswers := ⟨⟨0, [⟨1, den⟩]⟩, none, []⟩

def videoPacket (ts : Int) : AVPacket := ⟨some ts, some ts, [0], 0, true, false, 1⟩

def copyVideoAt (den ts : Int) : Step :=
  .copyVideo ⟨⟨1, den⟩, videoPacket ts, 0, keepsTimeBase den⟩

def encoderOpens : EncoderAnswer := ⟨true, true, 0, .other, 0⟩

/-- A frame, and the packet that the encoder returns for it at once. -/
def encodeAt (den ts dts : Int) : Step :=
  .encodeFrame (some ts) ⟨1, den⟩ ⟨0, 0, [(videoPacket dts, keepsTimeBase den)], averrorEagain⟩

theorem streaming_init (den : Int) : ((streaming.guard allSucceed).observed events).init
    (outputInitFromInput plainFormat [videoInput den], []) :=
  ⟨⟨_, _, rfl⟩, rfl⟩

/-- A switch in a stream that has the time base of the encoder. -/
theorem switch_keeps_video_valid_at_90000 :
    ∃ s, (feeding.restrict Meets).Reachable s ∧ s.2 = [⟨0, ⟨1, 90000⟩⟩, ⟨3600, ⟨1, 90000⟩⟩, ⟨7200, ⟨1, 90000⟩⟩] ∧
      dtsOn 0 s.1.2 = [0, 3600, 7200] ∧ ValidStream s.1.1.videoOutIndex s.1.2 := by
  have hrun : ((feeding.guard fun s step => decide (Meets s step)).run
        [copyVideoAt 90000 0, copyVideoAt 90000 3600, .prepareAtParamChange encoderOpens,
          encodeAt 90000 7200 7200]
        ((outputInitFromInput plainFormat [videoInput 90000], []), [])).map (fun s => (s.2, dtsOn 0 s.1.2)) =
          some ([⟨0, ⟨1, 90000⟩⟩, ⟨3600, ⟨1, 90000⟩⟩, ⟨7200, ⟨1, 90000⟩⟩], [0, 3600, 7200]) := by
    decide +kernel
  obtain ⟨s, hs, hview⟩ := Option.map_eq_some_iff.mp hrun
  obtain ⟨hgiven, hdts⟩ := Prod.mk.inj hview
  have hinit : feeding.init ((outputInitFromInput plainFormat [videoInput 90000], []), []) := ⟨streaming_init 90000, rfl⟩
  have hreach := System.Reachable.of_guard (fun _ _ => of_decide_eq_true) hinit hs
  exact ⟨s, hreach, hgiven, hdts, switch_keeps_video_valid hreach⟩

/-- A stream that counts milliseconds gets timestamps of the encoder, in ticks
of 1/90000 second, after the switch. -/
theorem encoder_ticks_in_milliseconds :
    ∃ s, ((streaming.guard allSucceed).observed events).Reachable s ∧
      ¬ ValidStream s.1.videoOutIndex s.2 := by
  have hrun : (((streaming.guard allSucceed).observed events).run
      [copyVideoAt 1000 0, .prepareAtParamChange encoderOpens, encodeAt 1000 40 3600]
        (outputInitFromInput plainFormat [videoInput 1000], [])).map
          (fun s => (s.1.videoOutIndex, s.2)) =
        some (0, [.header 0 [⟨1, 1000⟩], .write 0 (videoPacket 0) ⟨1, 1000⟩,
          .write 0 (videoPacket 3600) ⟨1, 90000⟩]) := by
    decide +kernel
  obtain ⟨s, hs, hview⟩ := Option.map_eq_some_iff.mp hrun
  obtain ⟨hindex, hevents⟩ := Prod.mk.inj hview
  refine ⟨s, System.Reachable.of_run (streaming_init 1000) hs, ?_⟩
  intro hvalid
  rw [hindex, hevents] at hvalid
  have htb := hvalid.timeBase 0 [⟨1, 1000⟩] (by simp) (by decide) 0 (videoPacket 3600) ⟨1, 90000⟩
    (by simp) rfl
  exact absurd htb (by decide)

end P2PFFmpeg.Output
