import P2PFFmpeg.Library.Transition
import P2PFFmpeg.Output.Context
import P2PFFmpeg.Util.Error

namespace P2PFFmpeg.Output

open Util Library.Transition Library.Program

structure CopyCall where
  ist : AVRational
  pkt : AVPacket
  reference : Int
  answers : WriteAnswers

def CopyCall.outcome (call : CopyCall) (o : OutputState) : CopyOutcome :=
  outputWritePacketCopy o call.ist call.pkt call.reference call.answers

def copying : System OutputState CopyCall where
  init o := ∃ oformat inputs, o = outputInitFromInput oformat inputs
  next o call := some (call.outcome o).state

def succeeded (o : OutputState) (call : CopyCall) : Bool := 0 ≤ (call.outcome o).ret

/-- A packet passed to av_interleaved_write_frame, with the input packet, the
stream that it was mapped to and the two time bases of the call. -/
structure Copied where
  input : AVPacket
  outIdx : Nat
  ist : AVRational
  ost : AVRational
  passed : AVPacket
deriving DecidableEq, Repr

def copied (o : OutputState) (call : CopyCall) : List Copied :=
  match o.copies call.pkt, (call.outcome o).passed with
  | some (outIdx, ost), some p => [⟨call.pkt, outIdx, call.ist, ost.timeBase, p⟩]
  | _, _ => []

def Copied.pts (c : Copied) : Option Int := rescaleTs c.input.pts c.ist c.ost

def Copied.dts (c : Copied) : Option Int := rescaleTs c.input.dts c.ist c.ost

def Copied.offered (c : Copied) : Option Int := c.dts.or c.pts

def Copied.Spaced (c : Copied) : Prop :=
  ∀ p d, c.pts = some p → c.dts = some d →
    ∃ p' d', c.passed.pts = some p' ∧ c.passed.dts = some d' ∧ p' - d' = p - d

def passedOn (i : Int) (cs : List Copied) : List Int :=
  cs.filterMap fun c => if c.passed.streamIndex = i then c.passed.dts else none

def offeredOn (i : Nat) (cs : List Copied) : List Int :=
  cs.filterMap fun c => if c.outIdx = i then c.offered else none

/-- Per output stream the dts passed on increase, and pts and dts keep their
distance. -/
def Restreamed (cs : List Copied) : Prop :=
  (∀ i, (passedOn i cs).Pairwise (· < ·)) ∧ ∀ c ∈ cs, c.Spaced

structure Copied.FromInput (c : Copied) : Prop where
  streamIndex : c.passed.streamIndex = c.outIdx
  dts : c.passed.dts = c.offered
  pts : c.passed.pts = c.pts.or c.dts

theorem filledIn_dts (p : AVPacket) : (filledIn p).dts = p.dts.or p.pts := by
  cases hdts : p.dts <;> cases hpts : p.pts <;> simp [filledIn, hdts, hpts]

theorem filledIn_pts (p : AVPacket) : (filledIn p).pts = p.pts.or p.dts := by
  cases hdts : p.dts <;> cases hpts : p.pts <;> simp [filledIn, hdts, hpts]

theorem filledIn_streamIndex (p : AVPacket) : (filledIn p).streamIndex = p.streamIndex := by
  simp only [filledIn]
  split <;> split <;> rfl

theorem bumped_none {plast : Option (Option Int)} {p : AVPacket}
    (h : plast = none ∨ plast = some none) : bumped plast p = p := by
  obtain rfl | rfl := h <;> rfl

def NeverWritten (o : OutputState) : Prop := ∀ last ∈ o.lastDts, last = none

variable {o : OutputState}

theorem NeverWritten.plast (h : NeverWritten o) (outIdx : Nat) :
    o.lastDts[outIdx]? = none ∨ o.lastDts[outIdx]? = some none := by
  cases hlast : o.lastDts[outIdx]? with
  | none => exact .inl rfl
  | some last =>
      obtain rfl := h last (List.mem_of_getElem? hlast)
      exact .inr rfl

theorem NeverWritten.opkt (h : NeverWritten o) (outIdx : Nat) (ist ost : AVRational) (pkt : AVPacket) :
    o.opkt outIdx ist ost pkt = filledIn (rescaled pkt outIdx ist ost) :=
  bumped_none (h.plast outIdx)

theorem outputInitFromInput_neverWritten (oformat : AVOutputFormat) (inputs : List InputStream) :
    NeverWritten (outputInitFromInput oformat inputs) := by
  intro last hlast
  exact List.eq_of_mem_replicate hlast

theorem copied_fromInput {call : CopyCall} {c : Copied} (ho : NeverWritten o) (h : c ∈ copied o call) :
    c.FromInput := by
  simp only [copied] at h
  split at h
  · rename_i outIdx ost p hcopies hpassed
    obtain rfl := List.mem_singleton.mp h
    obtain ⟨outIdx', ost', hcopies', rfl⟩ :=
      (outputWritePacketCopy_spec o call.ist call.pkt call.reference call.answers).2 p hpassed
    obtain ⟨rfl, rfl⟩ : outIdx = outIdx' ∧ ost = ost' := by
      simpa [hcopies] using hcopies'
    rw [ho.opkt]
    exact
      { streamIndex := filledIn_streamIndex _
        dts := filledIn_dts _
        pts := filledIn_pts _ }
  · cases h

/-- In every run no last dts is ever remembered, and every packet passed on is
its input's, rescaled and filled in. -/
theorem copying_fromInput {check : OutputState → CopyCall → Bool} {s : OutputState × List Copied}
    (h : ((copying.guard check).observed copied).Reachable s) :
    NeverWritten s.1 ∧ ∀ c ∈ s.2, c.FromInput := by
  refine System.Reachable.invariant (fun s => NeverWritten s.1 ∧ ∀ c ∈ s.2, c.FromInput) ?_ ?_ h
  · rintro ⟨o, cs⟩ ⟨⟨oformat, inputs, rfl⟩, rfl⟩
    exact ⟨outputInitFromInput_neverWritten oformat inputs, by simp⟩
  · rintro ⟨o, cs⟩ call ⟨o', cs'⟩ _ ⟨ho, hcs⟩ hn
    obtain ⟨hguard, rfl⟩ := System.observed_next.mp hn
    obtain ⟨_, hnext⟩ := System.guard_next.mp hguard
    obtain rfl : (call.outcome o).state = o' := Option.some.inj hnext
    constructor
    · have hkept := (outputWritePacketCopy_spec o call.ist call.pkt call.reference call.answers).1
      intro last hlast
      exact ho last (hkept ▸ hlast)
    · intro c hc
      cases List.mem_append.mp hc with
      | inl hold => exact hcs c hold
      | inr hnew => exact copied_fromInput ho hnew

theorem Copied.FromInput.spaced {c : Copied} (h : c.FromInput) : c.Spaced := by
  intro p d hp hd
  refine ⟨p, d, ?_, ?_, rfl⟩
  · rw [h.pts, hp]
    rfl
  · rw [h.dts, Copied.offered, hd]
    rfl

theorem passedOn_eq_offeredOn {cs : List Copied} (h : ∀ c ∈ cs, c.FromInput) (i : Nat) :
    passedOn i cs = offeredOn i cs := by
  apply List.filterMap_congr
  intro c hc
  simp [(h c hc).streamIndex, (h c hc).dts]

theorem passedOn_negative {cs : List Copied} (h : ∀ c ∈ cs, c.FromInput) {i : Int} (hi : i < 0) :
    passedOn i cs = [] := by
  apply List.filterMap_eq_nil_iff.mpr
  intro c hc
  have hindex := (h c hc).streamIndex
  rw [if_neg]
  omega

/-- The dts that the player passes on increase exactly when those that it is
given, rescaled and filled in, already do: its own repair never happens. -/
theorem restreamed_iff_offered_increase {s : OutputState × List Copied}
    (h : ((copying.guard succeeded).observed copied).Reachable s) :
    Restreamed s.2 ↔ ∀ i, (offeredOn i s.2).Pairwise (· < ·) := by
  obtain ⟨_, hfrom⟩ := copying_fromInput h
  constructor
  · rintro ⟨hincreasing, _⟩ i
    rw [← passedOn_eq_offeredOn hfrom i]
    exact hincreasing i
  · intro hoffered
    refine ⟨?_, fun c hc => (hfrom c hc).spaced⟩
    intro i
    by_cases hi : i < 0
    · rw [passedOn_negative hfrom hi]
      exact .nil
    · obtain ⟨n, rfl⟩ := Int.eq_ofNat_of_zero_le (Int.not_lt.mp hi)
      rw [passedOn_eq_offeredOn hfrom n]
      exact hoffered n

def plainFormat : AVOutputFormat := ⟨false, false, none, fun _ _ => 0⟩

def millisecondVideo : InputStream := ⟨⟨1, 1000⟩, .video, .other, 0, 0, false⟩

theorem copying_init (oformat : AVOutputFormat) (inputs : List InputStream) :
    ((copying.guard succeeded).observed copied).init (outputInitFromInput oformat inputs, []) :=
  ⟨⟨oformat, inputs, rfl⟩, rfl⟩

def copyAt (ts : Int) : CopyCall where
  ist := ⟨1, 1000⟩
  pkt := ⟨some ts, some ts, [0], 0, true, false, 1⟩
  reference := 0
  answers := ⟨⟨0, [⟨1, 1000⟩]⟩, none, []⟩

theorem restreamed_at_distance :
    ∃ s, ((copying.guard succeeded).observed copied).Reachable s ∧ passedOn 0 s.2 = [0, 40] ∧
      (Restreamed s.2 ↔ ∀ i, (offeredOn i s.2).Pairwise (· < ·)) := by
  have hrun : (((copying.guard succeeded).observed copied).run [copyAt 0, copyAt 40]
      (outputInitFromInput plainFormat [millisecondVideo], [])).map (fun s => passedOn 0 s.2) =
        some [0, 40] := by
    decide +kernel
  obtain ⟨s, hs, hview⟩ := Option.map_eq_some_iff.mp hrun
  have hreach := System.Reachable.of_run (copying_init _ _) hs
  exact ⟨s, hreach, hview, restreamed_iff_offered_increase hreach⟩

/-- Two packets of one video stream with the same dts are written as they are. -/
theorem duplicate_dts_passed :
    ∃ s, ((copying.guard succeeded).observed copied).Reachable s ∧ ¬ Restreamed s.2 := by
  have hrun : (((copying.guard succeeded).observed copied).run [copyAt 0, copyAt 0]
      (outputInitFromInput plainFormat [millisecondVideo], [])).map (fun s => passedOn 0 s.2) =
        some [0, 0] := by
    decide +kernel
  obtain ⟨s, hs, hview⟩ := Option.map_eq_some_iff.mp hrun
  refine ⟨s, System.Reachable.of_run (copying_init _ _) hs, ?_⟩
  rintro ⟨hincreasing, _⟩
  have hzero := hincreasing 0
  rw [hview] at hzero
  simp at hzero

def encoderTimeBase : AVRational := ⟨1, 90000⟩

structure EncoderAnswer where
  found : Bool
  allocated : Bool
  opened : Int
  codecId : AVCodecID
  videoDelay : Nat
deriving DecidableEq, Repr

def EncoderAnswer.opens (a : EncoderAnswer) : Bool := a.found && a.allocated && a.opened ≥ 0

def avcodecParametersFromContext (st : AVStream) (a : EncoderAnswer) : AVStream :=
  { st with codecType := .video, codecId := a.codecId, sampleRate := 0, videoDelay := a.videoDelay }

def outputPrepareVideoEncoder (o : OutputState) (a : EncoderAnswer) : Int × OutputState :=
  match o.oc with
  | none => (0, o)
  | some oc =>
      if o.enabled = false then (0, o)
      else if o.videoEncCtx.isSome then (0, o)
      else if a.found = false then (averrorEncoderNotFound, o)
      else if a.allocated = false then (averrorEnomem, o)
      else if a.opened < 0 then (a.opened, o)
      else
        let o := { o with
          videoEncCtx := some ⟨encoderTimeBase, []⟩
          useCopyVideo := false
          forceEncodeVideo := true }
        match oc.stream o.videoOutIndex with
        | none => (0, o)
        | some st =>
            let ost := { avcodecParametersFromContext st a with timeBase := encoderTimeBase }
            (0, { o with oc := some (oc.setStream o.videoOutIndex ost) })

/-- The calls into the muxer, as they happen: a header with the time bases that
the streams have when it returns, and a packet with the time base that its
timestamps were rescaled to. -/
inductive Event
  | header (ret : Int) (timeBases : List AVRational)
  | write (ret : Int) (pkt : AVPacket) (target : AVRational)
deriving DecidableEq, Repr

def Event.ret : Event → Int
  | .header ret _ => ret
  | .write ret _ _ => ret

def OutputState.timeBases (o : OutputState) : List AVRational :=
  match o.oc with
  | none => []
  | some oc => oc.streams.map (·.timeBase)

def headerEvents (o : OutputState) (a : HeaderAnswer) : List Event :=
  if o.enabled && o.oc.isSome && !o.headerWritten then
    [.header (outputWriteHeaderIfNeeded o a).1 (outputWriteHeaderIfNeeded o a).2.timeBases]
  else []

def sendEvents (o : OutputState) (opkt : AVPacket) (target : AVRational) (a : WriteAnswers) :
    List Event :=
  headerEvents o a.header ++
    ((outputSend o opkt a).passed.map fun p => .write (outputSend o opkt a).ret p target).toList

structure StepOutcome where
  ret : Int
  state : OutputState
  events : List Event

def copyEvents (o : OutputState) (call : CopyCall) : List Event :=
  match o.copies call.pkt with
  | none => []
  | some (outIdx, ost) =>
      if call.reference < 0 then []
      else sendEvents o (o.opkt outIdx call.ist ost.timeBase call.pkt) ost.timeBase call.answers

def copyStep (o : OutputState) (call : CopyCall) : StepOutcome :=
  ⟨(call.outcome o).ret, (call.outcome o).state, copyEvents o call⟩

/-- What the encoder answers for one frame: the packets that it returns, and
why it returns no more. -/
structure EncodeAnswers where
  reference : Int
  sendFrame : Int
  received : List (AVPacket × WriteAnswers)
  last : Int
deriving DecidableEq, Repr

def OutputState.videoOst (o : OutputState) : Option AVStream :=
  o.oc.bind fun oc => oc.stream o.videoOutIndex

def receivePackets (enc : AVCodecContext) (last : Int) :
    OutputState → List (AVPacket × WriteAnswers) → StepOutcome
  | o, [] => ⟨if last = averrorEagain ∨ last = averrorEof then 0 else last, o, []⟩
  | o, (pkt, a) :: rest =>
      match o.videoOst with
      | none => ⟨0, o, []⟩
      | some ost =>
          let opkt := rescaled pkt o.videoOutIndex enc.timeBase ost.timeBase
          let sent := outputSend o opkt a
          let events := sendEvents o opkt ost.timeBase a
          -- a header that fails leaves ret alone, and the loop goes on
          if sent.passed.isSome && sent.ret < 0 then ⟨sent.ret, sent.state, events⟩
          else
            let more := receivePackets enc last sent.state rest
            ⟨more.ret, more.state, events ++ more.events⟩

/-- The frame, as far as it is read: its pts; none is the flush. -/
def outputEncodeAndWriteVideo (o : OutputState) (frame : Option (Option Int)) (srcTb : AVRational)
    (a : EncodeAnswers) : StepOutcome :=
  match o.videoEncCtx with
  | none => ⟨0, o, []⟩
  | some enc =>
      if o.enabled = false then ⟨0, o, []⟩
      else if frame.isSome && a.reference < 0 then ⟨a.reference, o, []⟩
      else if a.sendFrame < 0 ∧ a.sendFrame ≠ averrorEagain ∧ a.sendFrame ≠ averrorEof then
        ⟨a.sendFrame, o, []⟩
      else
        let given := frame.toList.map fun pts => rescaleTs pts srcTb enc.timeBase
        let enc := { enc with frames := if a.sendFrame < 0 then enc.frames else enc.frames ++ given }
        receivePackets enc a.last { o with videoEncCtx := some enc } a.received

/-- The writer steps: read_thread with an audio or a video packet, the two
threads on their way to prepare the encoder, video_thread with a frame, and the
flush at the end. -/
inductive Step
  | copyAudio (call : CopyCall)
  | copyVideo (call : CopyCall)
  | prepareAtParamChange (encoder : EncoderAnswer)
  | prepareAtFrame (encoder : EncoderAnswer)
  | encodeFrame (pts : Option Int) (srcTb : AVRational) (answers : EncodeAnswers)
  | flush (answers : EncodeAnswers)

def Step.outcome (o : OutputState) : Step → StepOutcome
  | .copyAudio call => if o.enabled then copyStep o call else ⟨0, o, []⟩
  | .copyVideo call => if o.enabled && o.useCopyVideo then copyStep o call else ⟨0, o, []⟩
  | .prepareAtParamChange encoder =>
      if o.enabled && !o.forceEncodeVideo then
        ⟨(outputPrepareVideoEncoder o encoder).1, (outputPrepareVideoEncoder o encoder).2, []⟩
      else ⟨0, o, []⟩
  | .prepareAtFrame encoder =>
      if o.enabled && (o.forceEncodeVideo || !o.useCopyVideo) && o.videoEncCtx.isNone then
        ⟨(outputPrepareVideoEncoder o encoder).1, (outputPrepareVideoEncoder o encoder).2, []⟩
      else ⟨0, o, []⟩
  | .encodeFrame pts srcTb answers =>
      if o.enabled && (o.forceEncodeVideo || !o.useCopyVideo) then
        outputEncodeAndWriteVideo o (some pts) srcTb answers
      else ⟨0, o, []⟩
  | .flush answers => outputEncodeAndWriteVideo o none ⟨0, 0⟩ answers

def streaming : System OutputState Step where
  init o := ∃ oformat inputs, o = outputInitFromInput oformat inputs
  next o step := some (step.outcome o).state

def events (o : OutputState) (step : Step) : List Event := (step.outcome o).events

def allSucceed (o : OutputState) (step : Step) : Bool := (events o step).all fun e => e.ret ≥ 0

def timeBaseAt (timeBases : List AVRational) (i : Int) : Option AVRational :=
  if 0 ≤ i then timeBases[i.toNat]? else none

def dtsOn (i : Int) (es : List Event) : List Int :=
  es.filterMap fun
    | .write _ pkt _ => if pkt.streamIndex = i then pkt.dts else none
    | .header _ _ => none

/-- What holds of the packets of an output stream: they are in the time base
that the header gave to it, and their dts increase. -/
structure ValidStream (i : Int) (es : List Event) : Prop where
  timeBase : ∀ ret timeBases, .header ret timeBases ∈ es → 0 ≤ ret →
    ∀ ret' pkt target, .write ret' pkt target ∈ es → pkt.streamIndex = i →
      timeBaseAt timeBases i = some target
  increasing : (dtsOn i es).Pairwise (· < ·)

end P2PFFmpeg.Output
