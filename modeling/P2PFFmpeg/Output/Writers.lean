import P2PFFmpeg.Output.Restream

namespace P2PFFmpeg.Output

open Util Library.Transition

inductive Thread
  | read
  | video
  | main
deriving DecidableEq, Repr

inductive MuxerCall
  | frame (opkt : AVPacket)
  | trailer
deriving DecidableEq, Repr

structure Job where
  call : MuxerCall
  answers : WriteAnswers
deriving DecidableEq, Repr

/-- Where a thread is in its job. It leaves with what the call returned, unless
the header failed, and with the packet after the call. -/
inductive SectionPc
  | testHeader
  | beginHeader
  | endHeader
  | setHeader
  | beginCall
  | endCall
  | leave (ret : Option Int) (left : AVPacket)
deriving DecidableEq, Repr

inductive EncodePc
  | receive (rest : List (AVPacket × WriteAnswers))
  | lock (job : Job) (rest : List (AVPacket × WriteAnswers))
  | locked (job : Job) (pc : SectionPc) (rest : List (AVPacket × WriteAnswers))
deriving DecidableEq, Repr

inductive ReadPc
  | nextPacket
  | prepare (encoder : EncoderAnswer) (call : CopyCall)
  | testCopy (call : CopyCall)
  | copy (call : CopyCall)
  | writing (outIdx : Nat) (job : Job) (pc : SectionPc)
  | done

structure Frame where
  pts : Option Int
  srcTb : AVRational
  encoder : EncoderAnswer
  answers : EncodeAnswers
deriving DecidableEq, Repr

inductive VideoPc
  | nextFrame
  | prepare (frame : Frame)
  | encode (frame : Frame)
  | encoding (pc : EncodePc)
  | done
deriving DecidableEq, Repr

inductive MainPc
  | waiting
  | flushing (pc : EncodePc)
  | lock
  | closing (job : Job) (pc : SectionPc)
  | closed
deriving DecidableEq, Repr

inductive MuxerEvent
  | header (ret : Int)
  | frame
  | trailer
deriving DecidableEq, Repr

/-- The two writers and the thread that closes the output. The list holds the
threads that are in a call of the muxer. -/
structure Writers where
  output : OutputState
  mutex : Option Thread
  reader : ReadPc
  video : VideoPc
  main : MainPc
  muxing : List Thread
  log : List MuxerEvent

def MuxerCall.event : MuxerCall → MuxerEvent
  | .frame _ => .frame
  | .trailer => .trailer

def MuxerCall.packet : MuxerCall → AVPacket
  | .frame opkt => opkt
  | .trailer => .blank

def endHeader (o : OutputState) (a : HeaderAnswer) : Int × OutputState :=
  match o.oc with
  | none => (0, o)
  | some oc => ((avformatWriteHeader oc a).1, { o with oc := some (avformatWriteHeader oc a).2 })

def endCall (o : OutputState) (job : Job) : Int × OutputState × AVPacket :=
  match job.call, o.oc with
  | .frame opkt, some oc =>
      let written := interleavedWrite oc opkt job.answers.filtered job.answers.muxer
      (written.1, { o with oc := some written.2.1 }, written.2.2)
  | _, _ => (job.answers.muxer.headD 0, o, .blank)

def Writers.sectionStep (s : Writers) (t : Thread) (job : Job) : SectionPc → Writers × SectionPc
  | .testHeader =>
      (s, if !s.output.enabled || s.output.headerWritten || s.output.oc.isNone then .beginCall
        else .beginHeader)
  | .beginHeader => ({ s with muxing := t :: s.muxing }, .endHeader)
  | .endHeader =>
      let ended := endHeader s.output job.answers.header
      ({ s with
          output := ended.2
          muxing := s.muxing.erase t
          log := s.log ++ [.header ended.1] },
        if ended.1 < 0 then .leave none job.call.packet else .setHeader)
  | .setHeader => ({ s with output := { s.output with headerWritten := true } }, .beginCall)
  | .beginCall => ({ s with muxing := t :: s.muxing, log := s.log ++ [job.call.event] }, .endCall)
  | .endCall =>
      let ended := endCall s.output job
      ({ s with output := ended.2.1, muxing := s.muxing.erase t }, .leave (some ended.1) ended.2.2)
  | .leave ret left => (s, .leave ret left)

inductive Packet
  | audio (call : CopyCall)
  | video (call : CopyCall) (isParamChange : Bool) (encoder : EncoderAnswer)
  | eof

def rememberDts (o : OutputState) (outIdx : Nat) (ret : Option Int) (left : AVPacket) : OutputState :=
  match ret with
  | some r => if left.dts.isSome && r ≥ 0 then { o with lastDts := o.lastDts.set outIdx left.dts } else o
  | none => o

def Writers.readStep (s : Writers) (p : Packet) : Option Writers :=
  match s.reader with
  | .nextPacket =>
      match p with
      | .eof => some { s with reader := .done }
      | .audio call => some (if s.output.enabled then { s with reader := .copy call } else s)
      | .video call isParamChange encoder =>
          if s.output.enabled = false then some s
          else if !s.output.forceEncodeVideo && isParamChange then
            some { s with reader := .prepare encoder call }
          else some { s with reader := .testCopy call }
  | .prepare encoder call =>
      some { s with
        output := (outputPrepareVideoEncoder s.output encoder).2
        reader := .testCopy call }
  | .testCopy call =>
      some { s with reader := if s.output.useCopyVideo then .copy call else .nextPacket }
  | .copy call =>
      match s.output.copies call.pkt with
      | none => some { s with reader := .nextPacket }
      | some (outIdx, ost) =>
          if call.reference < 0 then some { s with reader := .nextPacket }
          else
            -- the lock of the mutex is commented out here
            let opkt := s.output.opkt outIdx call.ist ost.timeBase call.pkt
            some { s with reader := .writing outIdx ⟨.frame opkt, call.answers⟩ .testHeader }
  | .writing outIdx _ (.leave ret left) =>
      some { s with output := rememberDts s.output outIdx ret left, reader := .nextPacket }
  | .writing outIdx job pc =>
      let next := s.sectionStep .read job pc
      some { next.1 with reader := .writing outIdx job next.2 }
  | .done => none

def Writers.encodeStep (s : Writers) (t : Thread) : EncodePc → Option (Writers × Option EncodePc)
  | .receive [] => some (s, none)
  | .receive ((pkt, a) :: rest) =>
      match s.output.videoEncCtx, s.output.videoOst with
      | some enc, some ost =>
          let opkt := rescaled pkt s.output.videoOutIndex enc.timeBase ost.timeBase
          some (s, some (.lock ⟨.frame opkt, a⟩ rest))
      | _, _ => some (s, none)
  | .lock job rest =>
      if s.mutex = none then some ({ s with mutex := some t }, some (.locked job .testHeader rest))
      else none
  | .locked _ (.leave ret _) rest =>
      some ({ s with mutex := none }, if ret.any (· < 0) then none else some (.receive rest))
  | .locked job pc rest =>
      let next := s.sectionStep t job pc
      some (next.1, some (.locked job next.2 rest))

def OutputState.sendFrame (o : OutputState) (frame : Option (Option Int)) (srcTb : AVRational)
    (a : EncodeAnswers) : Option OutputState :=
  match o.videoEncCtx with
  | none => none
  | some enc =>
      if o.enabled = false then none
      else if frame.isSome && a.reference < 0 then none
      else if a.sendFrame < 0 ∧ a.sendFrame ≠ averrorEagain ∧ a.sendFrame ≠ averrorEof then none
      else
        let given := frame.toList.map fun pts => rescaleTs pts srcTb enc.timeBase
        some { o with videoEncCtx := some { enc with
          frames := if a.sendFrame < 0 then enc.frames else enc.frames ++ given } }

def Writers.videoStep (s : Writers) (f : Option Frame) : Option Writers :=
  match s.video with
  | .nextFrame =>
      match f with
      | none => some { s with video := .done }
      | some frame =>
          if s.output.enabled && (s.output.forceEncodeVideo || !s.output.useCopyVideo) then
            if s.output.videoEncCtx.isNone then some { s with video := .prepare frame }
            else some { s with video := .encode frame }
          else some s
  | .prepare frame =>
      some { s with
        output := (outputPrepareVideoEncoder s.output frame.encoder).2
        video := .encode frame }
  | .encode frame =>
      match s.output.sendFrame (some frame.pts) frame.srcTb frame.answers with
      | none => some { s with video := .nextFrame }
      | some o => some { s with output := o, video := .encoding (.receive frame.answers.received) }
  | .encoding pc =>
      (s.encodeStep .video pc).map fun next =>
        { next.1 with video := match next.2 with
          | some pc => .encoding pc
          | none => .nextFrame }
  | .done => none

/-- A step of output_flush_and_close, which the main thread calls when the other
two have ended. -/
def Writers.mainStep (s : Writers) (answers : EncodeAnswers) (a : WriteAnswers) : Option Writers :=
  match s.main with
  | .waiting =>
      match s.reader, s.video with
      | .done, .done =>
          if s.output.enabled = false then some { s with main := .closed }
          else
            match s.output.sendFrame none ⟨0, 0⟩ answers with
            | none => some { s with main := .lock }
            | some o => some { s with output := o, main := .flushing (.receive answers.received) }
      | _, _ => none
  | .flushing pc =>
      (s.encodeStep .main pc).map fun next =>
        { next.1 with main := match next.2 with
          | some pc => .flushing pc
          | none => .lock }
  | .lock =>
      if s.output.oc.isNone then some { s with main := .closed }
      else if s.mutex = none then
        some { s with mutex := some .main, main := .closing ⟨.trailer, a⟩ .testHeader }
      else none
  | .closing _ (.leave _ _) => some { s with mutex := none, main := .closed }
  | .closing job pc =>
      let next := s.sectionStep .main job pc
      some { next.1 with main := .closing job next.2 }
  | .closed => none

inductive WriterLabel
  | read (p : Packet)
  | video (f : Option Frame)
  | main (answers : EncodeAnswers) (a : WriteAnswers)

def Writers.start (o : OutputState) : Writers :=
  ⟨o, none, .nextPacket, .nextFrame, .waiting, [], []⟩

def writing : System Writers WriterLabel where
  init s := ∃ oformat inputs, s = Writers.start (outputInitFromInput oformat inputs)
  next s
    | .read p => s.readStep p
    | .video f => s.videoStep f
    | .main answers a => s.mainStep answers a

end P2PFFmpeg.Output
