import P2PFFmpeg.Library.Conditions
import P2PFFmpeg.Util.Error
import P2PFFmpeg.Util.FifoQueue

namespace P2PFFmpeg.Util

open Library Library.Conditions

variable {σ α τ : Type}

abbrev AVFifoReadCB (σ α : Type) := σ → List (Option α) → Int × Nat × σ

structure PeekLoop (σ : Type) where
  user : σ
  offsetR : Nat
  toRead : Nat
  ret : Int

/-- The loop of fifo_peek_common with a callback: a round that does not end it
moves an element. -/
def peekRounds (writeCb : AVFifoReadCB σ α) (f : AVFifo α) : Nat → PeekLoop σ → PeekLoop σ
  | 0, l => l
  | fuel + 1, l =>
      if l.toRead = 0 then l
      else
        let len := min (f.nbElems - l.offsetR) l.toRead
        let answered := writeCb l.user (readElems f.nbElems f.buffer l.offsetR len)
        if answered.1 < 0 ∨ answered.2.1 = 0 then { l with user := answered.2.2, ret := answered.1 }
        else
          let offsetR := l.offsetR + answered.2.1
          peekRounds writeCb f fuel
            { user := answered.2.2
              offsetR := if offsetR ≥ f.nbElems then 0 else offsetR
              toRead := l.toRead - answered.2.1
              ret := answered.1 }

/-- The error, the count that is written back, what the callback leaves, and the FIFO. -/
def avFifoReadToCb (f : AVFifo α) (writeCb : AVFifoReadCB σ α) (user : σ) (nbElems : Nat) :
    Int × Nat × σ × AVFifo α :=
  if nbElems > avFifoCanRead f then (-22, 0, user, avFifoDrain2 f 0)
  else
    let offsetR := if f.offsetR ≥ f.nbElems then f.offsetR - f.nbElems else f.offsetR
    let l := peekRounds writeCb f nbElems ⟨user, offsetR, nbElems, 0⟩
    (l.ret, nbElems - l.toRead, l.user, avFifoDrain2 f (nbElems - l.toRead))

structure AVThreadMessageQueue (α : Type) where
  fifo : AVFifo α
  errSend : Int
  errRecv : Int
  /-- Whether free_func is set. -/
  freeFunc : Bool

inductive MessageCond
  | recv
  | send
deriving DecidableEq

inductive MessageOp (α : Type)
  | send (msg : α) (nonblock : Bool)
  | recv (nonblock : Bool)
  | setErrSend (err : Int)
  | setErrRecv (err : Int)
  | flush
deriving DecidableEq

structure MessageAnswer (α : Type) where
  ret : Int
  msg : List (Option α)
  freed : List (Option α)
deriving DecidableEq

abbrev MessageOutcome (α : Type) := Outcome MessageCond (AVThreadMessageQueue α) (MessageAnswer α)

def avThreadMessageQueueAlloc (nelem elsize : Nat) : AVThreadMessageQueue α where
  fifo := avFifoAlloc2 nelem elsize false
  errSend := 0
  errRecv := 0
  freeFunc := false

def avThreadMessageQueueSendLocked (mq : AVThreadMessageQueue α) (msg : α) (nonblock : Bool) :
    MessageOutcome α :=
  if mq.errSend = 0 ∧ avFifoCanWrite mq.fifo = 0 then
    if nonblock then ⟨mq, .silent, .returns ⟨averrorEagain, [], []⟩⟩ else ⟨mq, .silent, .waits .send⟩
  else if mq.errSend ≠ 0 then ⟨mq, .silent, .returns ⟨mq.errSend, [], []⟩⟩
  else
    -- the FIFO does not grow, and needs no memory
    ⟨{ mq with fifo := (avFifoWrite mq.fifo [msg] false).2 }, .signal .recv, .returns ⟨0, [], []⟩⟩

def avThreadMessageQueueRecvLocked (mq : AVThreadMessageQueue α) (nonblock : Bool) :
    MessageOutcome α :=
  if mq.errRecv = 0 ∧ avFifoCanRead mq.fifo = 0 then
    if nonblock then ⟨mq, .silent, .returns ⟨averrorEagain, [], []⟩⟩ else ⟨mq, .silent, .waits .recv⟩
  else if avFifoCanRead mq.fifo = 0 then ⟨mq, .silent, .returns ⟨mq.errRecv, [], []⟩⟩
  else
    let read := avFifoRead mq.fifo 1
    ⟨{ mq with fifo := read.2.2 }, .signal .send, .returns ⟨0, read.2.1, []⟩⟩

def avThreadMessageQueueSetErrSend (mq : AVThreadMessageQueue α) (err : Int) : MessageOutcome α :=
  ⟨{ mq with errSend := err }, .broadcast .send, .returns ⟨0, [], []⟩⟩

def avThreadMessageQueueSetErrRecv (mq : AVThreadMessageQueue α) (err : Int) : MessageOutcome α :=
  ⟨{ mq with errRecv := err }, .broadcast .recv, .returns ⟨0, [], []⟩⟩

/-- The messages that free_func was called with so far, and those of a piece of the FIFO. -/
def freeFuncWrap : AVFifoReadCB (List (Option α)) α := fun freed buf =>
  (0, buf.length, freed ++ buf)

def avThreadMessageFlush (mq : AVThreadMessageQueue α) : MessageOutcome α :=
  let used := avFifoCanRead mq.fifo
  if mq.freeFunc then
    let read := avFifoReadToCb mq.fifo freeFuncWrap [] used
    ⟨{ mq with fifo := read.2.2.2 }, .broadcast .send, .returns ⟨0, [], read.2.2.1⟩⟩
  else ⟨mq, .broadcast .send, .returns ⟨0, [], []⟩⟩

/-- The lock section of a call, from its start or from its wait on: the loops of
send and recv begin with the test that a wait comes back to. -/
def messageCode : Code MessageCond (AVThreadMessageQueue α) (MessageOp α) (MessageAnswer α)
  | .send msg nonblock, mq => avThreadMessageQueueSendLocked mq msg nonblock
  | .recv nonblock, mq => avThreadMessageQueueRecvLocked mq nonblock
  | .setErrSend err, mq => avThreadMessageQueueSetErrSend mq err
  | .setErrRecv err, mq => avThreadMessageQueueSetErrRecv mq err
  | .flush, mq => avThreadMessageFlush mq

inductive MessageEvent (α : Type)
  | sent (msg : α)
  | received (msg : Option α)
  | freed (msg : Option α)
  | flushed
deriving DecidableEq

def messageEvents (op : MessageOp α) (o : MessageOutcome α) : List (MessageEvent α) :=
  match op, o.ending with
  | .send msg _, .returns answer => if answer.ret = 0 then [.sent msg] else []
  | .recv _, .returns answer => answer.msg.map .received
  | .flush, .returns answer => answer.freed.map .freed ++ [.flushed]
  | _, _ => []

def NewMessageQueue (mq : AVThreadMessageQueue α) : Prop :=
  ∃ nelem elsize freeFunc, mq = { avThreadMessageQueueAlloc nelem elsize with freeFunc := freeFunc }

/-- Threads that call in any order, with what has been seen of the messages. -/
def messaging [DecidableEq τ] [DecidableEq α] : Transition.System
    (Threads τ MessageCond (AVThreadMessageQueue α) (MessageOp α) × List (MessageEvent α))
    (Label τ (MessageOp α)) :=
  (messageCode.system NewMessageQueue).observed (messageCode.observe messageEvents)

end P2PFFmpeg.Util
