import P2PFFmpeg.Library.Transition
import P2PFFmpeg.Library.Watermark
import P2PFFmpeg.Tools.ObjPool
import P2PFFmpeg.Util.Fifo
import P2PFFmpeg.Util.Packet

namespace P2PFFmpeg.Tools

open Library Library.Transition Util

structure SyncPacket where
  pkt : AVPacket
  timeBase : AVRational
deriving DecidableEq, Repr

/-- A stream of a queue of packets, which has no samples to count. -/
structure SyncQueueStream where
  fifo : AVFifo SyncPacket
  tb : AVRational
  headTs : Int
  limiting : Bool
  finished : Bool
  framesSent : UInt64
  framesMax : UInt64

structure SyncQueue where
  finished : Bool
  headStream : Option Nat
  headFinishedStream : Option Nat
  bufSizeUs : Int
  streams : Nat → SyncQueueStream
  nbStreams : Nat
  haveLimiting : Bool

def SyncQueue.set (sq : SyncQueue) (i : Nat) (st : SyncQueueStream) : SyncQueue :=
  { sq with streams := Function.update sq.streams i st }

def SyncQueueStream.fresh (limiting : Bool) : SyncQueueStream where
  fifo := avFifoAlloc2 1 8 true
  tb := ⟨1, 1⟩
  headTs := avNoptsValue
  limiting := limiting
  finished := false
  framesSent := 0
  framesMax := 18446744073709551615

def sqAlloc (bufSizeUs : Int) : SyncQueue where
  finished := false
  headStream := none
  headFinishedStream := none
  bufSizeUs := bufSizeUs
  streams := fun _ => .fresh false
  nbStreams := 0
  haveLimiting := false

def sqAddStream (sq : SyncQueue) (limiting : Bool) : SyncQueue :=
  { sq.set sq.nbStreams (.fresh limiting) with
    haveLimiting := sq.haveLimiting || limiting
    nbStreams := sq.nbStreams + 1 }

/-- A queue with its streams, none of which has a packet yet. -/
def sqOpen (bufSizeUs : Int) (limiting : List Bool) : SyncQueue :=
  limiting.foldl sqAddStream (sqAlloc bufSizeUs)

/-- frame_end of a packet; one without a timestamp but with a duration ends a
little after the smallest number. -/
def frameEnd (frame : SyncPacket) : Int := frame.pkt.pts.getD avNoptsValue + frame.pkt.duration

/-- Nothing when an assertion fails. -/
def tbUpdate (sq : SyncQueue) (i : Nat) (tb : AVRational) : Option SyncQueue :=
  let st := sq.streams i
  if ¬ (tb.num > 0 ∧ tb.den > 0) then none
  else if tb.num = st.tb.num ∧ tb.den = st.tb.den then some sq
  else if avFifoCanRead st.fifo ≠ 0 then none
  else
    some (sq.set i { st with
      headTs := if st.headTs ≠ avNoptsValue then avRescaleQ st.headTs st.tb tb else st.headTs
      tb := tb })

def compareHeads (sq : SyncQueue) (i j : Nat) : Int :=
  avCompareTs (sq.streams i).headTs (sq.streams i).tb (sq.streams j).headTs (sq.streams j).tb

def markFinished (sq : SyncQueue) (i : Nat) : SyncQueue :=
  sq.set i { sq.streams i with finished := true }

def finishAhead (head : Nat) (sq : SyncQueue) (is : List Nat) : SyncQueue :=
  is.foldl (fun sq i =>
    if i ≠ head ∧ (sq.streams i).headTs ≠ avNoptsValue ∧ compareHeads sq head i ≤ 0 then
      markFinished sq i
    else sq) sq

def finishStream (sq : SyncQueue) (i : Nat) : SyncQueue :=
  let marked := markFinished sq i
  let ahead :=
    if (sq.streams i).limiting ∧ (sq.streams i).headTs ≠ avNoptsValue then
      let head :=
        match sq.headFinishedStream with
        | none => i
        | some h => if compareHeads sq i h < 0 then i else h
      finishAhead head { marked with headFinishedStream := some head } (List.range sq.nbStreams)
    else marked
  { ahead with
    finished := ahead.finished || (List.range sq.nbStreams).all fun j => (ahead.streams j).finished }

/-- The loop of queue_head_update that waits for a timestamp in each limiting
stream: nothing when one has none, else the first limiting stream. -/
def firstLimiting (sq : SyncQueue) : List Nat → Option Nat → Option Nat
  | [], first => first
  | i :: is, first =>
      if (sq.streams i).limiting = false then firstLimiting sq is first
      else if (sq.streams i).headTs = avNoptsValue then none
      else firstLimiting sq is (first.or (some i))

def headBelow (sq : SyncQueue) (i head : Nat) : Bool :=
  decide ((sq.streams i).limiting = true ∧ (sq.streams i).headTs ≠ avNoptsValue ∧
    compareHeads sq i head < 0)

/-- Called for a limiting stream only, so that its assertions hold. -/
def queueHeadUpdate (sq : SyncQueue) : SyncQueue :=
  match sq.headStream.or (firstLimiting sq (List.range sq.nbStreams) none) with
  | none => sq
  | some head =>
      { sq with headStream := some (Watermark.descend (headBelow sq) (List.range sq.nbStreams) head) }

/-- The part of stream_update_ts that is about the stream: it is finished when
it is now ahead of a finished one. -/
def raiseHead (sq : SyncQueue) (i : Nat) (ts : Int) : SyncQueue :=
  let raised := sq.set i { sq.streams i with headTs := ts }
  match sq.headFinishedStream with
  | some h => if compareHeads raised h i ≤ 0 then finishStream raised i else raised
  | none => raised

def streamUpdateTs (sq : SyncQueue) (i : Nat) (ts : Int) : SyncQueue :=
  let st := sq.streams i
  if ts = avNoptsValue ∨ (st.headTs ≠ avNoptsValue ∧ st.headTs ≥ ts) then sq
  else if st.limiting ∧ (sq.headStream = none ∨ sq.headStream = some i) then
    queueHeadUpdate (raiseHead sq i ts)
  else raiseHead sq i ts

/-- The loop of overflow_heartbeat for the stream that is most ahead. -/
def mostAhead (sq : SyncQueue) (is : List Nat) : Option Nat :=
  is.foldl (fun best i =>
    if (sq.streams i).headTs ≠ avNoptsValue ∧ (∀ j ∈ best, compareHeads sq j i < 0) then some i
    else best) none

/-- The loop of overflow_heartbeat for the first packet with a timestamp. One
turn more than there are packets. -/
def tailTs (fifo : AVFifo SyncPacket) : Nat → Nat → Int
  | 0, _ => avNoptsValue
  | n + 1, i =>
      match fifoPeekCommon fifo 1 i with
      | (_, [some frame]) =>
          if frameEnd frame = avNoptsValue then tailTs fifo n (i + 1) else frameEnd frame
      | _ => avNoptsValue

/-- One turn of the loop of overflow_heartbeat that signals fake timestamps. -/
def beat (i : Nat) (tail : Int) (sq : SyncQueue) (j : Nat) : SyncQueue :=
  let st := sq.streams i
  let st1 := sq.streams j
  if j = i ∨ st1.finished ∨
      (st1.headTs ≠ avNoptsValue ∧ avCompareTs tail st.tb st1.headTs st1.tb ≤ 0) then sq
  else
    let ts := avRescaleQ tail st.tb st1.tb
    streamUpdateTs sq j (if st1.headTs ≠ avNoptsValue then max (st1.headTs + 1) ts else ts)

def overflowHeartbeat (sq : SyncQueue) (streamIdx : Option Nat) : Bool × SyncQueue :=
  match streamIdx.or (mostAhead sq (List.range sq.nbStreams)) with
  | none => (false, sq)
  | some i =>
      let st := sq.streams i
      let tail := tailTs st.fifo (avFifoCanRead st.fifo + 1) 0
      if tail = avNoptsValue ∨ tail ≥ st.headTs ∨
          avRescaleQ (st.headTs - tail) st.tb avTimeBaseQ < sq.bufSizeUs then (false, sq)
      else (true, (List.range sq.nbStreams).foldl (beat i (tail + 1)) sq)

def countSent (sq : SyncQueue) (i : Nat) : SyncQueue :=
  let counted := sq.set i { sq.streams i with framesSent := (sq.streams i).framesSent + 1 }
  if (counted.streams i).framesSent ≥ (counted.streams i).framesMax then finishStream counted i
  else counted

/-- No frame is an end of stream; nothing when an assertion fails. -/
def sqSend (sq : SyncQueue) (i : Nat) (frame : Option SyncPacket)
    (allocated fifoAllocated : Bool) : Option (Int × SyncQueue) :=
  match frame with
  | none => some (0, finishStream sq i)
  | some frame =>
      if (sq.streams i).finished then some (averrorEof, sq)
      else
        (tbUpdate sq i frame.timeBase).map fun sq =>
          if objpoolGet allocated < 0 then (objpoolGet allocated, sq)
          else
            let written := avFifoWrite (sq.streams i).fifo [frame] fifoAllocated
            let stored := sq.set i { sq.streams i with fifo := written.2 }
            if written.1 < 0 then (written.1, stored)
            else (0, countSent (streamUpdateTs stored i (frameEnd frame)) i)

structure SqReceived where
  ret : Int
  frame : Option SyncPacket
  state : SyncQueue

def nothingFor (sq : SyncQueue) (i : Nat) : SqReceived :=
  ⟨if sq.finished ∨ ((sq.streams i).finished ∧ avFifoCanRead (sq.streams i).fifo = 0) then averrorEof
    else averrorEagain, none, sq⟩

/-- A packet does not overtake the head of the queue, or has no timestamp, or
nothing limits it. -/
def Releasable (sq : SyncQueue) (i : Nat) (peek : SyncPacket) : Prop :=
  (frameEnd peek ≠ avNoptsValue ∧ ∃ h ∈ sq.headStream,
      avCompareTs (frameEnd peek) (sq.streams i).tb (sq.streams h).headTs (sq.streams h).tb ≤ 0) ∨
    frameEnd peek = avNoptsValue ∨ sq.haveLimiting = false

instance (sq : SyncQueue) (i : Nat) (peek : SyncPacket) : Decidable (Releasable sq i peek) :=
  inferInstanceAs (Decidable ((_ ∧ _) ∨ _ ∨ _))

def receiveForStream (sq : SyncQueue) (i : Nat) : SqReceived :=
  let st := sq.streams i
  if avFifoCanRead st.fifo ≠ 0 then
    match fifoPeekCommon st.fifo 1 0 with
    | (_, [some peek]) =>
        if Releasable sq i peek then
          ⟨0, some peek, sq.set i { st with fifo := avFifoDrain2 st.fifo 1 }⟩
        else nothingFor sq i
    | _ => nothingFor sq i
  else nothingFor sq i

def receiveAny (sq : SyncQueue) : List Nat → Nat → SqReceived
  | [], nbEof => ⟨if nbEof = sq.nbStreams then averrorEof else averrorEagain, none, sq⟩
  | i :: is, nbEof =>
      let received := receiveForStream sq i
      if received.ret = averrorEof ∨ received.ret = averrorEagain then
        receiveAny sq is (nbEof + if received.ret = averrorEof then 1 else 0)
      else if received.ret < 0 then received
      else { received with ret := i }

/-- No index is -1. -/
def receiveInternal (sq : SyncQueue) : Option Nat → SqReceived
  | some i =>
      let received := receiveForStream sq i
      if received.ret < 0 then received else { received with ret := i }
  | none => receiveAny sq (List.range sq.nbStreams) 0

def sqReceive (sq : SyncQueue) (streamIdx : Option Nat) : SqReceived :=
  let received := receiveInternal sq streamIdx
  if received.ret = averrorEagain then
    let heartbeat := overflowHeartbeat received.state streamIdx
    if heartbeat.1 then receiveInternal heartbeat.2 streamIdx
    else { received with state := heartbeat.2 }
  else received

def sqLimitFrames (sq : SyncQueue) (i : Nat) (frames : UInt64) : SyncQueue :=
  let limited := sq.set i { sq.streams i with framesMax := frames }
  if (limited.streams i).framesSent ≥ (limited.streams i).framesMax then finishStream limited i
  else limited

inductive SqCall
  | send (streamIdx : Nat) (frame : Option SyncPacket) (allocated fifoAllocated : Bool)
  | limitFrames (streamIdx : Nat) (frames : UInt64)
  | receive (streamIdx : Option Nat)
deriving DecidableEq

/-- What a call returns and writes, and the queue after it; nothing when an
assertion fails. -/
def SqCall.run (sq : SyncQueue) : SqCall → Option SqReceived
  | .send i frame allocated fifoAllocated =>
      if i < sq.nbStreams then
        (sqSend sq i frame allocated fifoAllocated).map fun r => ⟨r.1, none, r.2⟩
      else none
  | .limitFrames i frames =>
      if i < sq.nbStreams then some ⟨0, none, sqLimitFrames sq i frames⟩ else none
  | .receive streamIdx =>
      if ∀ i ∈ streamIdx, i < sq.nbStreams then some (sqReceive sq streamIdx) else none

structure SqEvent where
  call : SqCall
  ret : Int
  frame : Option SyncPacket
deriving DecidableEq

def sqEvents (sq : SyncQueue) (call : SqCall) : List SqEvent :=
  ((call.run sq).map fun r => ⟨call, r.ret, r.frame⟩).toList

def syncing (bufSizeUs : Int) (limiting : List Bool) : System SyncQueue SqCall where
  init sq := sq = sqOpen bufSizeUs limiting
  next sq call := (call.run sq).map SqReceived.state

def sentTo (i : Nat) (ev : List SqEvent) : List SyncPacket :=
  ev.filterMap fun
    | ⟨.send j (some frame) _ _, ret, _⟩ => if j = i ∧ ret = 0 then some frame else none
    | _ => none

def receivedFrom (i : Nat) (ev : List SqEvent) : List SyncPacket :=
  ev.filterMap fun
    | ⟨.receive _, ret, frame⟩ => if ret = i then frame else none
    | _ => none

end P2PFFmpeg.Tools
