import P2PFFmpeg.Tools.SyncFifos

namespace P2PFFmpeg.Tools

open Library Library.Transition Util

structure SampleFormat where
  bytesPerSample : Nat
  planar : Bool
  nbChannels : Nat
deriving DecidableEq

def SampleFormat.planes (f : SampleFormat) : Nat := if f.planar then f.nbChannels else 1

def SampleFormat.block (f : SampleFormat) : Nat :=
  f.bytesPerSample * (if f.planar then 1 else f.nbChannels)

/-- A frame: its data pointers point into the planes, all at the same offset, the
first one to the address. -/
structure AVFrame where
  format : SampleFormat
  planes : Nat → List UInt8
  offset : Nat
  address : Nat
  linesize : Int
  nbSamples : Nat
  pts : Int
  duration : Int
  sampleRate : Int
  timeBase : AVRational

structure FrameStream where
  fifo : List AVFrame
  samplesQueued : Nat
  samplesSent : Nat
  framesSent : Nat
  framesMax : Nat
  frameSamples : Nat

/-- The heads and the ends of the streams are kept as in a queue of packets, whose
fifos and counters stay unused. -/
structure FrameQueue where
  timing : SyncQueue
  streams : Nat → FrameStream
  alignMask : Nat

def FrameQueue.set (sq : FrameQueue) (i : Nat) (st : FrameStream) : FrameQueue :=
  { sq with streams := Function.update sq.streams i st }

def FrameQueue.finish (sq : FrameQueue) (i : Nat) : FrameQueue :=
  { sq with timing := finishStream sq.timing i }

def FrameQueue.Finished (sq : FrameQueue) (i : Nat) : Prop := (sq.timing.streams i).finished = true

instance (sq : FrameQueue) (i : Nat) : Decidable (sq.Finished i) :=
  inferInstanceAs (Decidable (_ = true))

def AVFrame.samplesTime (f : AVFrame) (nbSamples : Nat) : Int :=
  avRescaleQ nbSamples ⟨1, f.sampleRate⟩ f.timeBase

def AVFrame.endTs (f : AVFrame) (nbSamples : Nat) : Int :=
  if nbSamples ≠ 0 then f.pts + f.samplesTime nbSamples else f.pts + f.duration

/-- tb_update; nothing when an assertion fails. -/
def frameTbUpdate (sq : FrameQueue) (i : Nat) (tb : AVRational) : Option FrameQueue :=
  let st := sq.timing.streams i
  if ¬ (tb.num > 0 ∧ tb.den > 0) then none
  else if tb.num = st.tb.num ∧ tb.den = st.tb.den then some sq
  else if (sq.streams i).fifo ≠ [] then none
  else
    some { sq with timing := sq.timing.set i { st with
      headTs := if st.headTs ≠ avNoptsValue then avRescaleQ st.headTs st.tb tb else st.headTs
      tb := tb } }

def AVFrame.timed (f : AVFrame) : AVFrame :=
  if f.nbSamples ≠ 0 then { f with duration := f.samplesTime f.nbSamples } else f

def countFrame (sq : FrameQueue) (i nbSamples : Nat) : FrameQueue :=
  let st := sq.streams i
  let counted := sq.set i { st with
    samplesQueued := st.samplesQueued + nbSamples
    samplesSent := st.samplesSent + nbSamples
    framesSent :=
      if st.frameSamples ≠ 0 then (st.samplesSent + nbSamples) / st.frameSamples
      else st.framesSent + 1 }
  if (counted.streams i).framesSent ≥ st.framesMax then counted.finish i else counted

/-- No frame is an end of stream; written is what av_fifo_write returns, and nothing a
failed assertion. -/
def frameSend (sq : FrameQueue) (i : Nat) (frame : Option AVFrame) (allocated : Bool) (written : Int) :
    Option (Int × FrameQueue) :=
  match frame with
  | none => some (0, sq.finish i)
  | some frame =>
      if sq.Finished i then some (averrorEof, sq)
      else do
        let sq ← frameTbUpdate sq i frame.timeBase
        if objpoolGet allocated < 0 then some (objpoolGet allocated, sq)
        else if frame.nbSamples ≠ 0 ∧ frame.sampleRate ≤ 0 then none
        else if written < 0 then some (written, sq)
        else
          let st := sq.streams i
          let stored := sq.set i { st with fifo := st.fifo ++ [frame.timed] }
          let timed := { stored with
            timing := streamUpdateTs stored.timing i (frame.timed.endTs 0) }
          some (0, countFrame timed i frame.nbSamples)

/-- The first samples are cut off; nothing when an assertion fails. -/
def offsetAudio (f : AVFrame) (nbSamples : Nat) : Option AVFrame :=
  if f.format.bytesPerSample = 0 ∨ f.nbSamples ≤ nbSamples then none
  else
    let offset := nbSamples * f.format.block
    let left := f.nbSamples - nbSamples
    some { f with
      offset := f.offset + offset
      address := if f.format.planes = 0 then f.address else f.address + offset
      linesize := f.linesize - offset
      nbSamples := left
      duration := f.samplesTime left
      pts := f.pts + f.samplesTime nbSamples }

/-- An int as an unsigned number of the size of a pointer. -/
def pointerSize (x : Int) : Nat := (x % 18446744073709551616).toNat

/-- Nothing when an assertion fails. -/
def frameIsAligned (alignMask : Nat) (f : AVFrame) : Option Bool :=
  if f.nbSamples = 0 ∨ alignMask = 0 then none
  else some (f.address &&& alignMask = 0 && pointerSize f.linesize &&& alignMask = 0 &&
    decide (pointerSize f.linesize > alignMask))

structure FrameMemory where
  frameRef : Bool
  layoutCopy : Bool
  getBuffer : Bool
  copyProps : Bool
  address : Nat
  linesize : Int

/-- av_samples_copy behind the samples that the frame has, from the first ones of
another; nothing for a read outside of its planes. -/
def samplesCopy (dst src : AVFrame) (toCopy : Nat) : Option AVFrame :=
  let size := toCopy * dst.format.block
  if ∀ p < dst.format.planes, src.offset + size ≤ (src.planes p).length then
    some { dst with
      planes := fun p =>
        (dst.planes p).take (dst.nbSamples * dst.format.block) ++
          ((src.planes p).drop src.offset).take size
      nbSamples := dst.nbSamples + toCopy }
  else none

def fillFrame (nbSamples : Nat) : Nat → AVFrame → FrameStream → Option (AVFrame × FrameStream)
  | 0, _, _ => none
  | rounds + 1, dst, st =>
      if dst.nbSamples < nbSamples then
        match st.fifo with
        | [] => none
        | src :: rest => do
            let toCopy := min (nbSamples - dst.nbSamples) src.nbSamples
            let dst ← samplesCopy dst src toCopy
            if toCopy < src.nbSamples then do
              let src ← offsetAudio src toCopy
              fillFrame nbSamples rounds dst
                { st with fifo := src :: rest, samplesQueued := st.samplesQueued - toCopy }
            else
              fillFrame nbSamples rounds dst
                { st with fifo := rest, samplesQueued := st.samplesQueued - toCopy }
      else some (dst, st)

def AVFrame.withDuration (f : AVFrame) (nbSamples : Nat) : AVFrame :=
  { f with duration := f.samplesTime nbSamples }

def AVFrame.blankLike (src : AVFrame) (memory : FrameMemory) : AVFrame :=
  { src with
    planes := fun _ => []
    offset := 0
    address := memory.address
    linesize := memory.linesize
    nbSamples := 0 }

def mayReference (alignMask : Nat) (src : AVFrame) (nbSamples : Nat) : Option Bool :=
  if src.nbSamples > nbSamples then frameIsAligned alignMask src else some false

/-- The returned value, the frame and the stream; nothing when an assertion fails. -/
def receiveSamples (alignMask : Nat) (st : FrameStream) (nbSamples : Nat) (memory : FrameMemory) :
    Option (Int × Option AVFrame × FrameStream) :=
  if st.samplesQueued < nbSamples then none
  else match st.fifo with
    | [] => none
    | src :: rest => do
        let reference ← mayReference alignMask src nbSamples
        if reference then
          if memory.frameRef = false then some (averrorEnomem, none, st)
          else do
            let left ← offsetAudio src nbSamples
            some (0, some ({ src with nbSamples := nbSamples }.withDuration nbSamples),
              { st with fifo := left :: rest, samplesQueued := st.samplesQueued - nbSamples })
        else if (memory.layoutCopy && memory.getBuffer && memory.copyProps) = false then
          some (averrorEnomem, none, st)
        else do
          let (dst, st) ← fillFrame nbSamples (st.fifo.length + 1) (src.blankLike memory) st
          some (0, some (dst.withDuration nbSamples), st)

structure FrameReceived where
  ret : Int
  frame : Option AVFrame
  state : FrameQueue

def noFrameFor (sq : FrameQueue) (i : Nat) : FrameReceived :=
  ⟨if sq.timing.finished = true ∨ (sq.Finished i ∧ (sq.streams i).fifo = []) then averrorEof
    else averrorEagain, none, sq⟩

/-- A frame that ends then does not overtake the head of the queue, or has no
timestamp, or nothing limits it. -/
def ReleasableAt (sq : SyncQueue) (i : Nat) (ts : Int) : Prop :=
  (ts ≠ avNoptsValue ∧ ∃ h ∈ sq.headStream,
      avCompareTs ts (sq.streams i).tb (sq.streams h).headTs (sq.streams h).tb ≤ 0) ∨
    ts = avNoptsValue ∨ sq.haveLimiting = false

instance (sq : SyncQueue) (i : Nat) (ts : Int) : Decidable (ReleasableAt sq i ts) :=
  inferInstanceAs (Decidable ((_ ∧ _) ∨ _ ∨ _))

def nextSamples (sq : FrameQueue) (i : Nat) : Nat :=
  if sq.Finished i then min (sq.streams i).frameSamples (sq.streams i).samplesQueued
  else (sq.streams i).frameSamples

def mustRegroup (alignMask nbSamples : Nat) (peek : AVFrame) : Option Bool :=
  if nbSamples = 0 then some false
  else if nbSamples ≠ peek.nbSamples then some true
  else (frameIsAligned alignMask peek).map (!·)

/-- A frame is cut or merged, or moved as it is; nothing when an assertion fails. -/
def releaseFrame (sq : FrameQueue) (i : Nat) (peek : AVFrame) (rest : List AVFrame)
    (memory : FrameMemory) : Option FrameReceived := do
  let st := sq.streams i
  let nbSamples := nextSamples sq i
  let regroup ← mustRegroup sq.alignMask nbSamples peek
  if regroup then do
    let (ret, frame, st) ← receiveSamples sq.alignMask st nbSamples memory
    some ⟨ret, frame, sq.set i st⟩
  else if st.samplesQueued < peek.nbSamples then none
  else
    some ⟨0, some peek, sq.set i { st with
      fifo := rest, samplesQueued := st.samplesQueued - peek.nbSamples }⟩

def receiveFrameFor (sq : FrameQueue) (i : Nat) (memory : FrameMemory) : Option FrameReceived :=
  let st := sq.streams i
  match st.fifo with
  | peek :: rest =>
      if (st.frameSamples ≤ st.samplesQueued ∨ sq.Finished i) ∧
          ReleasableAt sq.timing i (peek.endTs (nextSamples sq i)) then
        releaseFrame sq i peek rest memory
      else some (noFrameFor sq i)
  | [] => some (noFrameFor sq i)

def receiveAnyFrame (sq : FrameQueue) (memory : FrameMemory) :
    List Nat → Nat → Option FrameReceived
  | [], nbEof => some ⟨if nbEof = sq.timing.nbStreams then averrorEof else averrorEagain, none, sq⟩
  | i :: is, nbEof => do
      let received ← receiveFrameFor sq i memory
      if received.ret = averrorEof ∨ received.ret = averrorEagain then
        receiveAnyFrame sq memory is (nbEof + if received.ret = averrorEof then 1 else 0)
      else if received.ret < 0 then some received
      else some { received with ret := i }

/-- No index is -1. -/
def receiveFrameInternal (sq : FrameQueue) (memory : FrameMemory) :
    Option Nat → Option FrameReceived
  | some i => (receiveFrameFor sq i memory).map fun received =>
      if received.ret < 0 then received else { received with ret := i }
  | none => receiveAnyFrame sq memory (List.range sq.timing.nbStreams) 0

def tailEnd (fifo : List AVFrame) : Int :=
  match fifo.find? fun f => f.endTs 0 ≠ avNoptsValue with
  | some f => f.endTs 0
  | none => avNoptsValue

def frameHeartbeat (sq : FrameQueue) (streamIdx : Option Nat) : Bool × FrameQueue :=
  match streamIdx.or (mostAhead sq.timing (List.range sq.timing.nbStreams)) with
  | none => (false, sq)
  | some i =>
      let st := sq.timing.streams i
      let tail := tailEnd (sq.streams i).fifo
      if tail = avNoptsValue ∨ tail ≥ st.headTs ∨
          avRescaleQ (st.headTs - tail) st.tb avTimeBaseQ < sq.timing.bufSizeUs then (false, sq)
      else (true, { sq with
        timing := (List.range sq.timing.nbStreams).foldl (beat i (tail + 1)) sq.timing })

/-- A second try follows a heartbeat; memory is asked for in one of the two only. -/
def frameReceive (sq : FrameQueue) (streamIdx : Option Nat) (memory : FrameMemory) :
    Option FrameReceived := do
  let received ← receiveFrameInternal sq memory streamIdx
  if received.ret = averrorEagain then
    let heartbeat := frameHeartbeat received.state streamIdx
    if heartbeat.1 then receiveFrameInternal heartbeat.2 memory streamIdx
    else some { received with state := heartbeat.2 }
  else some received

inductive SetupCall
  | addStream (limiting : Bool)
  | limitFrames (streamIdx frames : Nat)
  | frameSamples (streamIdx samples : Nat)
deriving DecidableEq

def FrameStream.fresh : FrameStream where
  fifo := []
  samplesQueued := 0
  samplesSent := 0
  framesSent := 0
  framesMax := 18446744073709551615
  frameSamples := 0

def frameQueueAlloc (bufSizeUs : Int) : FrameQueue where
  timing := sqAlloc bufSizeUs
  streams := fun _ => .fresh
  alignMask := 0

def limitFrameStream (sq : FrameQueue) (i frames : Nat) : FrameQueue :=
  let limited := sq.set i { sq.streams i with framesMax := frames }
  if (sq.streams i).framesSent ≥ frames then limited.finish i else limited

/-- `maxAlign` is av_cpu_max_align(); nothing when an assertion fails. -/
def SetupCall.run (maxAlign : Nat) (sq : FrameQueue) : SetupCall → Option FrameQueue
  | .addStream limiting =>
      some { sq.set sq.timing.nbStreams .fresh with timing := sqAddStream sq.timing limiting }
  | .limitFrames i frames =>
      if i < sq.timing.nbStreams then some (limitFrameStream sq i frames) else none
  | .frameSamples i samples =>
      if i < sq.timing.nbStreams then
        some { sq.set i { sq.streams i with frameSamples := samples } with
          alignMask := maxAlign - 1 }
      else none

def frameQueueOpen (bufSizeUs : Int) (maxAlign : Nat) (setup : List SetupCall) :
    Option FrameQueue :=
  setup.foldlM (SetupCall.run maxAlign) (frameQueueAlloc bufSizeUs)

inductive FrameCall
  | send (streamIdx : Nat) (frame : Option AVFrame) (allocated : Bool) (written : Int)
  | receive (streamIdx : Option Nat) (memory : FrameMemory)

/-- What a call returns and writes, and the queue after it; nothing when an
assertion fails. -/
def FrameCall.run (sq : FrameQueue) : FrameCall → Option FrameReceived
  | .send i frame allocated written =>
      if i < sq.timing.nbStreams then
        (frameSend sq i frame allocated written).map fun r => ⟨r.1, none, r.2⟩
      else none
  | .receive streamIdx memory =>
      if ∀ i ∈ streamIdx, i < sq.timing.nbStreams then frameReceive sq streamIdx memory else none

structure FrameEvent where
  call : FrameCall
  ret : Int
  frame : Option AVFrame

def frameEvents (sq : FrameQueue) (call : FrameCall) : List FrameEvent :=
  ((call.run sq).map fun r => ⟨call, r.ret, r.frame⟩).toList

def regrouping (bufSizeUs : Int) (maxAlign : Nat) (setup : List SetupCall) :
    System FrameQueue FrameCall where
  init sq := frameQueueOpen bufSizeUs maxAlign setup = some sq
  next sq call := (call.run sq).map FrameReceived.state

def framesSentTo (i : Nat) (ev : List FrameEvent) : List AVFrame :=
  ev.filterMap fun
    | ⟨.send j (some frame) _ _, ret, _⟩ => if j = i ∧ ret = 0 then some frame else none
    | _ => none

def framesReceivedFrom (i : Nat) (ev : List FrameEvent) : List AVFrame :=
  ev.filterMap fun
    | ⟨.receive _ _, ret, frame⟩ => if ret = i then frame else none
    | _ => none

end P2PFFmpeg.Tools
