import P2PFFmpeg.Output.Muxer

namespace P2PFFmpeg.Output

open Util Library.Program

structure AVCodecContext where
  timeBase : AVRational
  frames : List (Option Int)
deriving DecidableEq, Repr

/-- The re-streaming state of the player. -/
structure OutputState where
  enabled : Bool
  oc : Option AVFormatContext
  headerWritten : Bool
  videoInIndex : Int
  audioInIndex : Int
  videoOutIndex : Int
  audioOutIndex : Int
  useCopyVideo : Bool
  useCopyAudio : Bool
  forceEncodeVideo : Bool
  videoEncCtx : Option AVCodecContext
  streamMapping : List Int
  lastDts : List (Option Int)

structure InputStream where
  timeBase : AVRational
  codecType : AVMediaType
  codecId : AVCodecID
  sampleRate : Int
  videoDelay : Nat
  isIntraOnly : Bool
deriving DecidableEq, Repr

def avformatNewStream (ist : InputStream) : AVStream where
  timeBase := if ist.timeBase.num ≠ 0 ∧ ist.timeBase.den ≠ 0 then ist.timeBase else ⟨1, 90000⟩
  avgFrameRate := ⟨0, 0⟩
  codecType := ist.codecType
  codecId := ist.codecId
  sampleRate := ist.sampleRate
  videoDelay := ist.videoDelay
  isIntraOnly := ist.isIntraOnly
  curDts := none
  privPts := ⟨0, 0, 0⟩
  ptsBuffer := List.replicate (maxReorderDelay + 1) none

def addStream (o : OutputState) (oc : AVFormatContext) (i : Nat) (ist : InputStream) :
    OutputState × AVFormatContext :=
  if ist.codecType ≠ .audio ∧ ist.codecType ≠ .video then (o, oc)
  else
    let index : Int := oc.streams.length
    let o := { o with streamMapping := o.streamMapping.set i index }
    let oc := { oc with streams := oc.streams ++ [avformatNewStream ist] }
    match ist.codecType with
    | .video => ({ o with videoInIndex := i, videoOutIndex := index }, oc)
    | .audio => ({ o with audioInIndex := i, audioOutIndex := index }, oc)
    | _ => (o, oc)

def addStreams (o : OutputState) (oc : AVFormatContext) : Nat → List InputStream →
    OutputState × AVFormatContext
  | _, [] => (o, oc)
  | i, ist :: rest =>
      let added := addStream o oc i ist
      addStreams added.1 added.2 (i + 1) rest

def outputInitFromInput (oformat : AVOutputFormat) (inputs : List InputStream) : OutputState :=
  let oc : AVFormatContext :=
    { oformat := oformat
      streams := []
      packetBuffer := []
      nbInterleavedStreams := 0
      interleavePacket := .passthrough
      maxInterleaveDelta := 10000000 }
  let o : OutputState :=
    { enabled := true
      oc := none
      headerWritten := false
      videoInIndex := -1
      audioInIndex := -1
      videoOutIndex := -1
      audioOutIndex := -1
      useCopyVideo := true
      useCopyAudio := true
      forceEncodeVideo := false
      videoEncCtx := none
      streamMapping := List.replicate inputs.length (-1)
      lastDts := [] }
  let added := addStreams o oc 0 inputs
  { added.1 with
    oc := some added.2
    lastDts := List.replicate added.2.streams.length none }

def outputWriteHeaderIfNeeded (o : OutputState) (a : HeaderAnswer) : Int × OutputState :=
  match o.oc with
  | none => (0, o)
  | some oc =>
      if !o.enabled || o.headerWritten then (0, o)
      else
        let written := avformatWriteHeader oc a
        if written.1 < 0 then (written.1, { o with oc := some written.2 })
        else (0, { o with oc := some written.2, headerWritten := true })

def interleavedWrite (oc : AVFormatContext) (pkt : AVPacket) (filtered : Option (List AVPacket))
    (answers : List Int) : Int × AVFormatContext × AVPacket :=
  match avInterleavedWriteFrame.run ⟨oc, pkt, filtered, answers⟩ with
  | .ok _ call => (0, call.context, call.pkt)
  | .error ret call => (ret, call.context, call.pkt)

structure WriteAnswers where
  header : HeaderAnswer
  filtered : Option (List AVPacket)
  muxer : List Int
deriving DecidableEq, Repr

/-- The end of a writer: the header if it is still to be written, then the
packet. The packet that comes back is the one after the call. -/
structure Sent where
  ret : Int
  state : OutputState
  passed : Option AVPacket
  left : AVPacket

def outputSend (o : OutputState) (opkt : AVPacket) (a : WriteAnswers) : Sent :=
  let header := outputWriteHeaderIfNeeded o a.header
  if header.1 < 0 then ⟨header.1, header.2, none, opkt⟩
  else
    match header.2.oc with
    | none => ⟨0, header.2, none, opkt⟩
    | some oc =>
        let written := interleavedWrite oc opkt a.filtered a.muxer
        ⟨written.1, { header.2 with oc := some written.2.1 }, some opkt, written.2.2⟩

def rescaled (pkt : AVPacket) (outIdx : Int) (src dst : AVRational) : AVPacket :=
  { pkt with
    streamIndex := outIdx
    pts := rescaleTs pkt.pts src dst
    dts := rescaleTs pkt.dts src dst
    duration := if pkt.duration > 0 then avRescaleQ pkt.duration src dst else pkt.duration }

def filledIn (opkt : AVPacket) : AVPacket :=
  let opkt := if opkt.dts = none ∧ opkt.pts ≠ none then { opkt with dts := opkt.pts } else opkt
  if opkt.pts = none ∧ opkt.dts ≠ none then { opkt with pts := opkt.dts } else opkt

def bumped (plast : Option (Option Int)) (opkt : AVPacket) : AVPacket :=
  match plast, opkt.dts with
  | some (some last), some dts =>
      if dts ≤ last then
        let bump := (last + if opkt.duration > 0 then opkt.duration else 1) - dts
        { opkt with dts := some (dts + bump), pts := opkt.pts.map (· + bump) }
      else opkt
  | _, _ => opkt

def OutputState.outIdx (o : OutputState) (streamIndex : Int) : Option Nat :=
  if 0 ≤ streamIndex then
    match o.streamMapping[streamIndex.toNat]? with
    | some outIdx => if outIdx < 0 then none else some outIdx.toNat
    | none => none
  else none

def OutputState.ost (o : OutputState) (outIdx : Nat) : Option AVStream :=
  o.oc.bind fun oc => oc.streams[outIdx]?

/-- The tests at the head of output_write_packet_copy: the output stream of a
packet that is copied. -/
def OutputState.copies (o : OutputState) (pkt : AVPacket) : Option (Nat × AVStream) :=
  if !o.enabled || o.oc.isNone || !o.useCopyVideo && pkt.streamIndex == o.videoInIndex then none
  else (o.outIdx pkt.streamIndex).bind fun outIdx => (o.ost outIdx).map fun ost => (outIdx, ost)

def OutputState.opkt (o : OutputState) (outIdx : Nat) (ist ost : AVRational) (pkt : AVPacket) :
    AVPacket :=
  bumped o.lastDts[outIdx]? (filledIn (rescaled pkt outIdx ist ost))

structure CopyOutcome where
  ret : Int
  state : OutputState
  passed : Option AVPacket

def outputWritePacketCopy (o : OutputState) (ist : AVRational) (pkt : AVPacket) (reference : Int)
    (a : WriteAnswers) : CopyOutcome :=
  match o.copies pkt with
  | none => ⟨0, o, none⟩
  | some (outIdx, ost) =>
      if reference < 0 then ⟨reference, o, none⟩
      else
        let sent := outputSend o (o.opkt outIdx ist ost.timeBase pkt) a
        -- the dts is read from the packet that the muxer left behind
        if sent.left.dts.isSome && sent.ret ≥ 0 then
          ⟨sent.ret, { sent.state with lastDts := sent.state.lastDts.set outIdx sent.left.dts },
            sent.passed⟩
        else ⟨sent.ret, sent.state, sent.passed⟩

section Blank

def IsBlank (c : MuxCall) : Prop := c.pkt = .blank

variable {c : MuxCall}

theorem attempt_blank (h : IsBlank c) : EndsIn IsBlank attempt c := by
  apply endsIn_bind
  intro ret hret
  by_cases hneg : ret < 0
  · rw [if_pos hneg]
    exact endsIn_throw ret
  · rw [if_neg hneg]
    exact endsIn_pure () h

theorem writePacket_blank : EndsIn IsBlank writePacket c := by
  apply endsIn_bind
  intro ret _
  apply endsIn_modify_bind
  by_cases hneg : ret < 0
  · rw [if_pos hneg]
    exact endsIn_throw ret
  · rw [if_neg hneg]
    exact endsIn_pure () rfl

theorem ffInterleaveAddPacket_blank : EndsIn IsBlank ffInterleaveAddPacket c := by
  apply endsIn_bind
  intro allocated _
  by_cases hmem : allocated < 0
  · rw [if_pos hmem]
    exact endsIn_modify_bind (endsIn_throw averrorEnomem)
  · rw [if_neg hmem]
    apply endsIn_bind
    intro refcounted _
    by_cases href : refcounted < 0
    · rw [if_pos href]
      exact endsIn_modify_bind (endsIn_throw refcounted)
    · rw [if_neg href]
      exact endsIn_modify rfl

theorem drain_blank (flush : Bool) (buffer : List AVPacket) (h : IsBlank c) :
    EndsIn IsBlank (drain flush buffer) c := by
  induction buffer generalizing c with
  | nil => exact endsIn_pure () h
  | cons top rest ih =>
      apply endsIn_get_bind
      by_cases hout : (flush || c.context.forcesOutput (top :: rest)) = true
      · rw [if_pos hout]
        apply endsIn_modify_bind
        apply endsIn_bind
        intro _ hwritten
        exact ih (writePacket_blank () hwritten)
      · rw [if_neg hout]
        exact endsIn_pure () h

theorem interleavedWritePacket_blank (flush : Bool) :
    EndsIn IsBlank (interleavedWritePacket flush true) c := by
  apply endsIn_get_bind
  cases c.context.interleavePacket with
  | passthrough => exact writePacket_blank
  | perDts =>
      apply endsIn_bind
      intro _ hadded
      exact endsIn_get_bind (drain_blank flush _ (ffInterleaveAddPacket_blank () hadded))

theorem writePacketCommon_blank : EndsIn IsBlank writePacketCommon c := by
  apply endsIn_get_bind
  cases c.context.stream c.pkt.streamIndex with
  | none => exact endsIn_throw averrorEinval
  | some st =>
      apply endsIn_modify_bind
      split
      · exact endsIn_throw _
      · split
        · exact endsIn_throw averrorEinval
        · exact interleavedWritePacket_blank false

theorem writeFiltered_blank (filtered : List AVPacket) : EndsIn IsBlank (writeFiltered filtered) c := by
  induction filtered generalizing c with
  | nil => exact endsIn_modify_bind (attempt_blank rfl)
  | cons p ps ih =>
      apply endsIn_modify_bind
      apply endsIn_bind
      intro _ _
      exact ih

theorem writePacketsCommon_blank : EndsIn IsBlank writePacketsCommon c := by
  apply endsIn_get_bind
  split
  · exact endsIn_throw averrorEinval
  · apply endsIn_bind
    intro _ _
    apply endsIn_bind
    intro _ _
    cases c.filtered with
    | none => exact writePacketCommon_blank
    | some filtered =>
        apply endsIn_bind
        intro _ _
        exact writeFiltered_blank filtered

/-- Whatever av_interleaved_write_frame returns, the caller's packet is blank
afterwards: queued and moved away, or released. -/
theorem interleavedWrite_blank (oc : AVFormatContext) (pkt : AVPacket)
    (filtered : Option (List AVPacket)) (answers : List Int) :
    (interleavedWrite oc pkt filtered answers).2.2 = .blank := by
  have hreturns : EndsIn IsBlank writePacketsCommon ⟨oc, pkt, filtered, answers⟩ :=
    writePacketsCommon_blank
  simp only [EndsIn, value, after] at hreturns
  simp only [interleavedWrite, avInterleavedWriteFrame, tryCatch, tryCatchThe, MonadExceptOf.tryCatch,
    EStateM.tryCatch, EStateM.run] at hreturns ⊢
  cases hrun : writePacketsCommon ⟨oc, pkt, filtered, answers⟩ with
  | ok u call =>
      rw [hrun] at hreturns
      exact hreturns () rfl
  | error ret call => rfl

end Blank

section LastDts

variable {o : OutputState} {pkt opkt : AVPacket} {a : WriteAnswers}

theorem outputWriteHeaderIfNeeded_oc (a : HeaderAnswer) (h : o.oc ≠ none) :
    (outputWriteHeaderIfNeeded o a).2.oc ≠ none := by
  simp only [outputWriteHeaderIfNeeded]
  split
  · exact h
  · split
    · exact h
    · split <;> simp

theorem outputWriteHeaderIfNeeded_lastDts (o : OutputState) (a : HeaderAnswer) :
    (outputWriteHeaderIfNeeded o a).2.lastDts = o.lastDts := by
  simp only [outputWriteHeaderIfNeeded]
  split
  · rfl
  · split
    · rfl
    · split <;> rfl

theorem outputSend_lastDts (o : OutputState) (opkt : AVPacket) (a : WriteAnswers) :
    (outputSend o opkt a).state.lastDts = o.lastDts := by
  simp only [outputSend]
  split
  · exact outputWriteHeaderIfNeeded_lastDts o a.header
  · split <;> exact outputWriteHeaderIfNeeded_lastDts o a.header

theorem outputSend_left (h : o.oc ≠ none) (hret : 0 ≤ (outputSend o opkt a).ret) :
    (outputSend o opkt a).left.dts = none := by
  simp only [outputSend] at hret ⊢
  by_cases hheader : (outputWriteHeaderIfNeeded o a.header).1 < 0
  · rw [if_pos hheader] at hret
    have hlow : 0 ≤ (outputWriteHeaderIfNeeded o a.header).1 := hret
    omega
  · rw [if_neg hheader] at hret ⊢
    cases hoc : (outputWriteHeaderIfNeeded o a.header).2.oc with
    | none => exact absurd hoc (outputWriteHeaderIfNeeded_oc a.header h)
    | some oc =>
        simp only [interleavedWrite_blank]
        rfl

theorem outputSend_passed {p : AVPacket} (h : (outputSend o opkt a).passed = some p) : p = opkt := by
  simp only [outputSend] at h
  split at h
  · cases h
  · split at h
    · cases h
    · exact (Option.some.inj h).symm

theorem copies_oc {outIdx : Nat} {ost : AVStream} (h : o.copies pkt = some (outIdx, ost)) : o.oc ≠ none := by
  intro hoc
  simp [OutputState.copies, hoc] at h

/-- What a copy does: the packet that it passes is the input packet moved after
the last dts, and the last dts stay what they were. -/
theorem outputWritePacketCopy_spec (o : OutputState) (ist : AVRational) (pkt : AVPacket)
    (reference : Int) (a : WriteAnswers) :
    (outputWritePacketCopy o ist pkt reference a).state.lastDts = o.lastDts ∧
      ∀ p, (outputWritePacketCopy o ist pkt reference a).passed = some p →
        ∃ outIdx ost, o.copies pkt = some (outIdx, ost) ∧
          p = o.opkt outIdx ist ost.timeBase pkt := by
  simp only [outputWritePacketCopy]
  cases hcopies : o.copies pkt with
  | none => simp
  | some out =>
      obtain ⟨outIdx, ost⟩ := out
      simp only
      by_cases href : reference < 0
      · simp [href]
      · rw [if_neg href, if_neg]
        · refine ⟨outputSend_lastDts o _ a, ?_⟩
          intro p hp
          exact ⟨outIdx, ost, rfl, outputSend_passed hp⟩
        · intro hremembers
          simp only [Bool.and_eq_true, decide_eq_true_eq] at hremembers
          rw [outputSend_left (copies_oc hcopies) hremembers.2] at hremembers
          exact absurd hremembers.1 (by simp)

end LastDts

end P2PFFmpeg.Output
