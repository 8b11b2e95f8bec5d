import P2PFFmpeg.Library.Monitor
import P2PFFmpeg.Tools.ObjPool
import P2PFFmpeg.Util.Fifo

namespace P2PFFmpeg.Tools

open Library Library.Transition Util

variable {α τ : Type}

structure Finished where
  send : Bool
  recv : Bool
deriving DecidableEq, Repr

def Finished.none : Finished := ⟨false, false⟩

structure FifoElem (α : Type) where
  obj : α
  streamIdx : Nat
deriving DecidableEq, Repr

structure ThreadQueue (α : Type) where
  finished : Nat → Finished
  nbStreams : Nat
  fifo : AVFifo (FifoElem α)

/-- An element is a pointer and an index, in 16 bytes. -/
def tqAlloc (nbStreams queueSize : Nat) : ThreadQueue α where
  finished := fun _ => .none
  nbStreams := nbStreams
  fifo := avFifoAlloc2 queueSize 16 false

/-- What a call returns: its code, and the index and the data that it writes; no
index is -1. -/
structure TqRet (α : Type) where
  code : Int
  streamIdx : Option Nat
  data : Option α
deriving DecidableEq, Repr

def TqRet.ofCode (code : Int) : TqRet α := ⟨code, .none, .none⟩

abbrev TqOutcome (α : Type) := Monitor.Outcome (ThreadQueue α) (TqRet α)

def ThreadQueue.sendFinished (tq : ThreadQueue α) (streamIdx : Nat) : ThreadQueue α :=
  { tq with
    finished := Function.update tq.finished streamIdx
      { tq.finished streamIdx with send := true } }

def ThreadQueue.recvFinished (tq : ThreadQueue α) (streamIdx : Nat) : ThreadQueue α :=
  { tq with
    finished := Function.update tq.finished streamIdx
      { tq.finished streamIdx with recv := true } }

def tqSendLoop (allocated : Bool) (streamIdx : Nat) (data : α) (tq : ThreadQueue α) :
    TqOutcome α :=
  if (tq.finished streamIdx).recv = false ∧ avFifoCanWrite tq.fifo = 0 then ⟨tq, false, .none⟩
  else if (tq.finished streamIdx).recv then
    ⟨tq.sendFinished streamIdx, false, some (.ofCode averrorEof)⟩
  else if objpoolGet allocated < 0 then ⟨tq, false, some (.ofCode (objpoolGet allocated))⟩
  else
    let written := avFifoWrite tq.fifo [⟨data, streamIdx⟩] true
    ⟨{ tq with fifo := written.2 }, true, some (.ofCode written.1)⟩

def tqSend (allocated : Bool) (streamIdx : Nat) (data : α) (tq : ThreadQueue α) : TqOutcome α :=
  if (tq.finished streamIdx).send then ⟨tq, false, some (.ofCode averrorEinval)⟩
  else tqSendLoop allocated streamIdx data tq

/-- The loop of receive_locked over the elements: those of streams that the
receiver has finished are dropped. One turn more than there are elements. -/
def readLive (finished : Nat → Finished) :
    Nat → AVFifo (FifoElem α) → Option (FifoElem α) × AVFifo (FifoElem α)
  | 0, fifo => (.none, fifo)
  | n + 1, fifo =>
      let read := avFifoRead fifo 1
      if read.1 ≥ 0 then
        match read.2.1 with
        | [some elem] =>
            if (finished elem.streamIdx).recv then readLive finished n read.2.2
            else (some elem, read.2.2)
        | _ => (.none, read.2.2)
      else (.none, read.2.2)

/-- The loop of receive_locked over the streams: the first that is finished and
whose end has not been told, or how many are done. -/
def untold (finished : Nat → Finished) : List Nat → Nat → Nat ⊕ Nat
  | [], nbFinished => .inr nbFinished
  | i :: rest, nbFinished =>
      if finished i = .none then untold finished rest nbFinished
      else if (finished i).recv = false then .inl i
      else untold finished rest (nbFinished + 1)

def receiveLocked (tq : ThreadQueue α) : TqRet α × ThreadQueue α :=
  let read := readLive tq.finished (avFifoCanRead tq.fifo + 1) tq.fifo
  match read.1 with
  | some elem => (⟨0, some elem.streamIdx, some elem.obj⟩, { tq with fifo := read.2 })
  | .none =>
      match untold tq.finished (List.range tq.nbStreams) 0 with
      | .inl i => (⟨averrorEof, some i, .none⟩, ({ tq with fifo := read.2 }).recvFinished i)
      | .inr nbFinished =>
          (.ofCode (if nbFinished = tq.nbStreams then averrorEof else averrorEagain),
            { tq with fifo := read.2 })

/-- One turn of the loop of tq_receive. -/
def tqReceive (tq : ThreadQueue α) : TqOutcome α :=
  let received := receiveLocked tq
  ⟨received.2, decide (avFifoCanRead tq.fifo ≠ avFifoCanRead received.2.fifo),
    if received.1.code = averrorEagain then .none else some received.1⟩

def tqSendFinish (streamIdx : Nat) (tq : ThreadQueue α) : TqOutcome α :=
  ⟨tq.sendFinished streamIdx, true, some (.ofCode 0)⟩

def tqReceiveFinish (streamIdx : Nat) (tq : ThreadQueue α) : TqOutcome α :=
  ⟨tq.recvFinished streamIdx, true, some (.ofCode 0)⟩

inductive Request (α : Type)
  | send (streamIdx : Nat) (data : α)
  | receive
  | sendFinish (streamIdx : Nat)
  | receiveFinish (streamIdx : Nat)
deriving DecidableEq, Repr

/-- The two wait loops: a send waits while its stream is read and there is no
room, a receive while it would be asked to try again. -/
def Blocked (tq : ThreadQueue α) : Request α → Prop
  | .send streamIdx _ => (tq.finished streamIdx).recv = false ∧ avFifoCanWrite tq.fifo = 0
  | .receive => (receiveLocked tq).1.code = averrorEagain
  | .sendFinish _ | .receiveFinish _ => False

def tqCode (α : Type) : Monitor.Code (ThreadQueue α) (Request α) Bool (TqRet α) where
  enter allocated
    | .send streamIdx data => tqSend allocated streamIdx data
    | .receive => tqReceive
    | .sendFinish streamIdx => tqSendFinish streamIdx
    | .receiveFinish streamIdx => tqReceiveFinish streamIdx
  resume allocated
    | .send streamIdx data => tqSendLoop allocated streamIdx data
    | .receive => tqReceive
    | .sendFinish streamIdx => tqSendFinish streamIdx
    | .receiveFinish streamIdx => tqReceiveFinish streamIdx
  blocked := Blocked

def may [DecidableEq τ] (consumer : τ) (nbStreams : Nat) (t : τ) : Request α → Bool
  | .send streamIdx _ | .sendFinish streamIdx | .receiveFinish streamIdx =>
      decide (streamIdx < nbStreams)
  | .receive => decide (t = consumer)

inductive TqEvent (α : Type)
  | accepted (streamIdx : Nat) (data : α)
  | received (streamIdx : Nat) (data : α)
  | eof (streamIdx : Nat)
  | finalEof
  | receiveFinish (streamIdx : Nat)
deriving DecidableEq, Repr

/-- What the calls that return have done: the elements that tq_send takes, what
tq_receive gives, and the calls of tq_receive_finish. -/
def seen : Request α → TqRet α → List (TqEvent α)
  | .send streamIdx data, r => if r.code < 0 then [] else [.accepted streamIdx data]
  | .receive, ⟨_, some streamIdx, some data⟩ => [.received streamIdx data]
  | .receive, ⟨_, some streamIdx, .none⟩ => [.eof streamIdx]
  | .receive, ⟨_, .none, _⟩ => [.finalEof]
  | .sendFinish _, _ => []
  | .receiveFinish streamIdx, _ => [.receiveFinish streamIdx]

def sending [DecidableEq τ] (α : Type) (consumer : τ) (nbStreams queueSize : Nat) :
    System (Monitor.Threads τ (ThreadQueue α) (Request α)) (Monitor.Label τ (Request α) Bool) :=
  (tqCode α).system (tqAlloc nbStreams queueSize) (may consumer nbStreams)

def acceptedOf (streamIdx : Nat) (es : List (TqEvent α)) : List α :=
  es.filterMap fun
    | .accepted i x => if i = streamIdx then some x else .none
    | _ => .none

def receivedOf (streamIdx : Nat) (es : List (TqEvent α)) : List α :=
  es.filterMap fun
    | .received i x => if i = streamIdx then some x else .none
    | _ => .none

def elemsOf (streamIdx : Nat) (es : List (FifoElem α)) : List α :=
  es.filterMap fun e => if e.streamIdx = streamIdx then some e.obj else .none

def TqEvent.about (streamIdx : Nat) : TqEvent α → Prop
  | .accepted i _ | .received i _ | .eof i => i = streamIdx
  | .finalEof | .receiveFinish _ => False

end P2PFFmpeg.Tools
