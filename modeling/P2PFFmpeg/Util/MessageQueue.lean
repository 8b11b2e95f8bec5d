import P2PFFmpeg.Util.ThreadMessage

namespace P2PFFmpeg.Util

open Library Library.Conditions Library.Ring

variable {σ α τ : Type}

/-- A bounded queue of messages, with the errors that its two ends are given. -/
structure MessageQueue (α : Type) extends BoundedQueue α where
  errSend : Int
  errRecv : Int
  freeFunc : Bool

namespace MessageQueue

/-- A call that cannot go on waits, or returns at once. -/
def blocks (c : MessageCond) (nonblock : Bool) : Ending MessageCond (MessageAnswer α) :=
  if nonblock then .returns ⟨averrorEagain, [], []⟩ else .waits c

/-- What a message queue is for: one call, whom it wakes, and how it ends. -/
inductive Step : MessageQueue α → MessageOp α → Notice MessageCond →
    Ending MessageCond (MessageAnswer α) → MessageQueue α → Prop
  | refused {q : MessageQueue α} {msg : α} {nonblock : Bool} (h : q.errSend ≠ 0) :
      Step q (.send msg nonblock) .silent (.returns ⟨q.errSend, [], []⟩) q
  | sent {q : MessageQueue α} {msg : α} {nonblock : Bool} (h : q.errSend = 0)
      (hroom : [msg].length ≤ q.room) :
      Step q (.send msg nonblock) (.signal .recv) (.returns ⟨0, [], []⟩)
        { q with toBoundedQueue := q.push [msg] hroom }
  | full {q : MessageQueue α} {msg : α} {nonblock : Bool} (h : q.errSend = 0) (hroom : q.room = 0) :
      Step q (.send msg nonblock) .silent (blocks .send nonblock) q
  | received {q : MessageQueue α} {msg : α} {rest : List α} {nonblock : Bool}
      (h : q.elems = msg :: rest) :
      Step q (.recv nonblock) (.signal .send) (.returns ⟨0, [some msg], []⟩)
        { q with toBoundedQueue := q.drop 1 }
  | ended {q : MessageQueue α} {nonblock : Bool} (h : q.errRecv ≠ 0) (hnone : q.elems = []) :
      Step q (.recv nonblock) .silent (.returns ⟨q.errRecv, [], []⟩) q
  | empty {q : MessageQueue α} {nonblock : Bool} (h : q.errRecv = 0) (hnone : q.elems = []) :
      Step q (.recv nonblock) .silent (blocks .recv nonblock) q
  | setErrSend {q : MessageQueue α} {err : Int} :
      Step q (.setErrSend err) (.broadcast .send) (.returns ⟨0, [], []⟩) { q with errSend := err }
  | setErrRecv {q : MessageQueue α} {err : Int} :
      Step q (.setErrRecv err) (.broadcast .recv) (.returns ⟨0, [], []⟩) { q with errRecv := err }
  | flush {q : MessageQueue α} :
      Step q .flush (.broadcast .send)
        (.returns ⟨0, [], if q.freeFunc then q.elems.map some else []⟩)
        { q with toBoundedQueue := q.clear }

/-- So many threads that come back from a wait take all that is there for them;
with an error, no number is enough. -/
def Enough (q : MessageQueue α) (c : MessageCond) (n : Nat) : Prop :=
  match c with
  | .send => q.errSend = 0 ∧ q.room ≤ n
  | .recv => q.errRecv = 0 ∧ q.elems.length ≤ n

def waitsOn : MessageOp α → Option MessageCond
  | .send _ false => some .send
  | .recv false => some .recv
  | _ => none

section Step

variable {q q' : MessageQueue α} {op : MessageOp α} {notice : Notice MessageCond}
  {ending : Ending MessageCond (MessageAnswer α)} {c : MessageCond} {n : Nat}

theorem Step.waits (h : q.Step op notice ending q') (hwaits : ending = .waits c) :
    waitsOn op = some c ∧ q'.Enough c 0 := by
  cases h with
  | full herr hroom =>
      simp only [blocks] at hwaits
      split at hwaits
      · cases hwaits
      · next hblocks =>
          cases hwaits
          rw [Bool.not_eq_true] at hblocks
          exact ⟨by rw [hblocks]; rfl, herr, Nat.le_of_eq hroom⟩
  | empty herr hnone =>
      simp only [blocks] at hwaits
      split at hwaits
      · cases hwaits
      · next hblocks =>
          cases hwaits
          rw [Bool.not_eq_true] at hblocks
          exact ⟨by rw [hblocks]; rfl, herr, by rw [hnone]; exact Nat.le_refl _⟩
  | refused | sent | received | ended | setErrSend | setErrRecv | flush => cases hwaits

theorem Step.passes (h : q.Step op notice ending q') (hnotice : notice ≠ .broadcast c)
    (henough : q.Enough c n) : q'.Enough c (n + notice.count c) := by
  cases h with
  | refused | full | ended | empty => exact henough
  | sent herr hroom =>
      cases c with
      | send =>
          refine ⟨henough.1, Nat.le_trans ?_ henough.2⟩
          simp only [BoundedQueue.room, BoundedQueue.push_elems, BoundedQueue.push_capacity,
            List.length_append]
          omega
      | recv =>
          refine ⟨henough.1, ?_⟩
          rw [BoundedQueue.push_elems, List.length_append]
          exact Nat.add_le_add_right henough.2 1
  | received hq =>
      cases c with
      | send =>
          refine ⟨henough.1, Nat.le_trans ?_ (Nat.add_le_add_right henough.2 1)⟩
          simp only [BoundedQueue.room, BoundedQueue.drop_elems, BoundedQueue.drop_capacity,
            List.length_drop]
          omega
      | recv =>
          refine ⟨henough.1, Nat.le_trans ?_ henough.2⟩
          rw [BoundedQueue.drop_elems, List.length_drop]
          exact Nat.sub_le _ _
  | setErrSend =>
      cases c with
      | send => exact absurd rfl hnotice
      | recv => exact henough
  | setErrRecv =>
      cases c with
      | send => exact henough
      | recv => exact absurd rfl hnotice
  | flush =>
      cases c with
      | send => exact absurd rfl hnotice
      | recv => exact ⟨henough.1, Nat.zero_le _⟩

theorem Step.flush_empties (h : q.Step .flush notice ending q') : q'.elems = [] := by
  cases h
  rfl

theorem waitsOn_cases (h : waitsOn op = some c) :
    (∃ msg, op = .send msg false ∧ c = .send) ∨ (op = .recv false ∧ c = .recv) := by
  cases op with
  | send msg nonblock =>
      cases nonblock with
      | true => cases h
      | false => exact .inl ⟨msg, rfl, (Option.some.inj h).symm⟩
  | recv nonblock =>
      cases nonblock with
      | true => cases h
      | false => exact .inr ⟨rfl, (Option.some.inj h).symm⟩
  | setErrSend err | setErrRecv err | flush => cases h

theorem Step.takes (h : q.Step op notice ending q') (hop : waitsOn op = some c)
    (henough : q.Enough c (n + 1)) : q'.Enough c n := by
  obtain ⟨msg, rfl, rfl⟩ | ⟨rfl, rfl⟩ := waitsOn_cases hop
  · obtain ⟨herr, hroom⟩ := henough
    cases h with
    | refused hrefused => exact absurd herr hrefused
    | sent _ hfits =>
        refine ⟨herr, ?_⟩
        simp only [BoundedQueue.room, BoundedQueue.push_elems, BoundedQueue.push_capacity,
          List.length_append, List.length_singleton] at hroom ⊢
        omega
    | full _ hnone => exact ⟨herr, hnone ▸ Nat.zero_le n⟩
  · obtain ⟨herr, hlength⟩ := henough
    cases h with
    | received hq =>
        refine ⟨herr, ?_⟩
        rw [BoundedQueue.drop_elems, List.length_drop]
        omega
    | ended hended => exact absurd herr hended
    | empty _ hnone => exact ⟨herr, hnone ▸ Nat.zero_le n⟩

end Step

end MessageQueue

section Fifo

variable {f : AVFifo α} {q : GrowingQueue α}

theorem GrowingQueue.MakesRoom.of_fits {n : Nat} {allocated : Bool} {ret : Int} {wide : BoundedQueue α}
    (h : q.MakesRoom n allocated ret wide) (hroom : n ≤ q.room) : ret = 0 ∧ wide = q.toBoundedQueue := by
  cases h with
  | fits => exact ⟨rfl, rfl⟩
  | grows hfew | full hfew | noMemory hfew => omega

theorem AVFifo.Refines.write_fits (h : f.Refines q) {xs : List α} (hroom : xs.length ≤ q.room)
    (allocated : Bool) :
    (avFifoWrite f xs allocated).2.Refines { q with toBoundedQueue := q.push xs hroom } := by
  obtain ⟨next, hstep, hnext⟩ := @AVFifo.Refines.write Unit α f q h xs allocated
  generalize (avFifoWrite f xs allocated).1 = ret at hstep
  cases hstep with
  | write hmakes hfits =>
      obtain ⟨_, hsame⟩ := hmakes.of_fits hroom
      subst hsame
      exact hnext
  | writeFails hret hmakes =>
      obtain ⟨hzero, _⟩ := hmakes.of_fits hroom
      omega

theorem AVFifo.Refines.read_one (h : f.Refines q) {x : α} {rest : List α} (hq : q.elems = x :: rest) :
    (avFifoRead f 1).2.1 = [some x] ∧
      (avFifoRead f 1).2.2.Refines { q with toBoundedQueue := q.drop 1 } := by
  have hlen : 1 ≤ q.elems.length := by simp [hq]
  have hpeek : fifoPeekCommon f 1 0 = (0, [some x]) := by
    rw [h.peekAt, if_neg (by omega), hq]
    rfl
  rw [avFifoRead, hpeek]
  exact ⟨rfl, h.drain hlen⟩

theorem window_split (buf : Nat → Option α) {n r : Nat} (hr : r < n) {j k : Nat} (hj : j ≤ k) :
    window buf n r j ++ window buf n ((r + j) % n) (k - j) = window buf n r k := by
  rw [window_take buf n r hj, window_drop buf hr hj, List.take_append_drop]

theorem peekRounds_freeFunc {r : Nat} (hr : r < f.nbElems) {fuel toRead : Nat} (hfuel : toRead ≤ fuel)
    (freed : List (Option α)) (ret : Int) : (peekRounds freeFuncWrap f fuel ⟨freed, r, toRead, ret⟩).user =
        freed ++ window f.buffer f.nbElems r toRead ∧
      (peekRounds freeFuncWrap f fuel ⟨freed, r, toRead, ret⟩).toRead = 0 := by
  induction fuel generalizing r toRead freed ret with
  | zero =>
      obtain rfl : toRead = 0 := by omega
      exact ⟨(List.append_nil _).symm, rfl⟩
  | succ fuel ih =>
      rw [peekRounds]
      by_cases hnone : toRead = 0
      · subst hnone
        exact ⟨(List.append_nil _).symm, rfl⟩
      · have hlen : min (f.nbElems - r) toRead ≠ 0 := by omega
        have hle : min (f.nbElems - r) toRead ≤ toRead := Nat.min_le_right _ _
        have hplace : (if r + min (f.nbElems - r) toRead ≥ f.nbElems then 0
            else r + min (f.nbElems - r) toRead) = (r + min (f.nbElems - r) toRead) % f.nbElems := by
          rw [add_mod_of_lt hr (by omega)]
          split <;> split <;> omega
        simp only [hnone, if_false, freeFuncWrap, readElems_eq hr, length_window, hlen, or_false,
          Int.lt_irrefl, hplace]
        have hnext := ih (Nat.mod_lt (r + min (f.nbElems - r) toRead) (by omega))
          (show toRead - min (f.nbElems - r) toRead ≤ fuel by omega)
          (freed ++ window f.buffer f.nbElems r (min (f.nbElems - r) toRead)) 0
        rw [List.append_assoc, window_split f.buffer hr hle] at hnext
        exact hnext

theorem AVFifo.Refines.read_all (h : f.Refines q) :
    (avFifoReadToCb f freeFuncWrap [] (avFifoCanRead f)).2.2.1 = q.elems.map some ∧
      (avFifoReadToCb f freeFuncWrap [] (avFifoCanRead f)).2.2.2.Refines
        { q with toBoundedQueue := q.clear } := by
  have hcan := h.canRead
  have hall : q.drop q.elems.length = q.clear := by
    simp [BoundedQueue.drop, BoundedQueue.clear, BoundedQueue.empty]
  have hdrained := h.drain (Nat.le_refl _)
  rw [hall] at hdrained
  simp only [avFifoReadToCb, Nat.lt_irrefl, if_false, gt_iff_lt]
  cases h.content with
  | inl hholds =>
      have hr := hholds.offsetR
      rw [if_neg (Nat.not_le.mpr hr)]
      obtain ⟨huser, hleft⟩ := peekRounds_freeFunc hr (Nat.le_refl (avFifoCanRead f)) [] 0
      rw [huser, hleft, Nat.sub_zero, hcan, hholds.content]
      exact ⟨rfl, hdrained⟩
  | inr hblank =>
      have hnone : avFifoCanRead f = 0 := hblank.1.canRead
      have hempty : q.elems.length = 0 := hcan.symm.trans hnone
      rw [hempty] at hdrained
      rw [hnone, hblank.2]
      exact ⟨rfl, hdrained⟩

end Fifo

/-- The queue of the code has the messages, the errors and the function of another. -/
structure AVThreadMessageQueue.Refines (mq : AVThreadMessageQueue α) (q : MessageQueue α) : Prop where
  errSend : mq.errSend = q.errSend
  errRecv : mq.errRecv = q.errRecv
  freeFunc : mq.freeFunc = q.freeFunc
  fifo : ∃ limit, mq.fifo.Refines ⟨q.toBoundedQueue, false, limit⟩

section Refines

variable {mq : AVThreadMessageQueue α} {q : MessageQueue α}

theorem AVThreadMessageQueue.Refines.canRead (h : mq.Refines q) : avFifoCanRead mq.fifo = q.elems.length := by
  obtain ⟨limit, hfifo⟩ := h.fifo
  exact hfifo.canRead

theorem AVThreadMessageQueue.Refines.canWrite (h : mq.Refines q) : avFifoCanWrite mq.fifo = q.room := by
  obtain ⟨limit, hfifo⟩ := h.fifo
  exact hfifo.canWrite

theorem AVThreadMessageQueue.Refines.send (h : mq.Refines q) (msg : α) (nonblock : Bool) :
    ∃ q', q.Step (.send msg nonblock) (avThreadMessageQueueSendLocked mq msg nonblock).notice
        (avThreadMessageQueueSendLocked mq msg nonblock).ending q' ∧
      (avThreadMessageQueueSendLocked mq msg nonblock).state.Refines q' := by
  simp only [avThreadMessageQueueSendLocked, h.canWrite, h.errSend]
  by_cases herr : q.errSend = 0
  · by_cases hroom : q.room = 0
    · refine ⟨q, ?_, ?_⟩
      · rw [if_pos ⟨herr, hroom⟩]
        cases nonblock with
        | true => exact .full herr hroom
        | false => exact .full herr hroom
      · rw [if_pos ⟨herr, hroom⟩]
        cases nonblock <;> exact h
    · obtain ⟨limit, hfifo⟩ := h.fifo
      have hfits : [msg].length ≤ q.room := Nat.pos_of_ne_zero hroom
      rw [if_neg fun hand => hroom hand.2, if_neg (not_not.mpr herr)]
      exact ⟨_, .sent herr hfits, rfl, h.errRecv, h.freeFunc, limit, hfifo.write_fits hfits false⟩
  · rw [if_neg fun hand => herr hand.1, if_pos herr]
    exact ⟨q, .refused herr, h⟩

theorem AVThreadMessageQueue.Refines.recv (h : mq.Refines q) (nonblock : Bool) :
    ∃ q', q.Step (.recv nonblock) (avThreadMessageQueueRecvLocked mq nonblock).notice
        (avThreadMessageQueueRecvLocked mq nonblock).ending q' ∧
      (avThreadMessageQueueRecvLocked mq nonblock).state.Refines q' := by
  simp only [avThreadMessageQueueRecvLocked, h.canRead, h.errRecv]
  cases hq : q.elems with
  | nil =>
      by_cases herr : q.errRecv = 0
      · refine ⟨q, ?_, ?_⟩
        · rw [if_pos ⟨herr, List.length_nil⟩]
          cases nonblock with
          | true => exact .empty herr hq
          | false => exact .empty herr hq
        · rw [if_pos ⟨herr, List.length_nil⟩]
          cases nonblock <;> exact h
      · rw [if_neg fun hand => herr hand.1, if_pos List.length_nil]
        exact ⟨q, .ended herr hq, h⟩
  | cons msg rest =>
      obtain ⟨limit, hfifo⟩ := h.fifo
      obtain ⟨hread, hrest⟩ := hfifo.read_one hq
      have hsome : (msg :: rest).length ≠ 0 := Nat.succ_ne_zero _
      rw [if_neg fun hand => hsome hand.2, if_neg hsome, hread]
      exact ⟨_, .received hq, h.errSend, rfl, h.freeFunc, limit, hrest⟩

/-- A flush does what it is for when there is a free_func, or nothing to flush. -/
def Flushes (mq : AVThreadMessageQueue α) : Bool := mq.freeFunc || avFifoCanRead mq.fifo == 0

theorem AVThreadMessageQueue.Refines.flush (h : mq.Refines q) (hflush : Flushes mq = true) :
    ∃ q', q.Step .flush (avThreadMessageFlush mq).notice (avThreadMessageFlush mq).ending q' ∧
      (avThreadMessageFlush mq).state.Refines q' := by
  obtain ⟨limit, hfifo⟩ := h.fifo
  refine ⟨{ q with toBoundedQueue := q.clear }, ?_, ?_⟩
  · have hstep := @MessageQueue.Step.flush α q
    rw [avThreadMessageFlush, h.freeFunc]
    cases hfree : q.freeFunc with
    | true =>
        rw [hfree, if_pos rfl, ← hfifo.read_all.1] at hstep
        exact hstep
    | false =>
        rw [hfree, if_neg Bool.false_ne_true] at hstep
        exact hstep
  · by_cases hfree : mq.freeFunc = true
    · rw [avThreadMessageFlush, if_pos hfree]
      exact ⟨h.errSend, h.errRecv, h.freeFunc, limit, hfifo.read_all.2⟩
    · rw [avThreadMessageFlush, if_neg hfree]
      rw [Bool.not_eq_true] at hfree
      have hnil : q.elems = [] := by
        simp only [Flushes, hfree, Bool.false_or, beq_iff_eq, h.canRead] at hflush
        exact List.length_eq_zero_iff.mp hflush
      have hclear : q.clear = q.toBoundedQueue := by
        cases hq : q.toBoundedQueue with
        | mk elems capacity fits =>
            rw [hq] at hnil
            cases hnil
            rfl
      rw [hclear]
      exact h

theorem AVThreadMessageQueue.Refines.section (h : mq.Refines q) (op : MessageOp α)
    (hflush : op = .flush → Flushes mq = true) :
    ∃ q', q.Step op (messageCode op mq).notice (messageCode op mq).ending q' ∧
      (messageCode op mq).state.Refines q' := by
  cases op with
  | send msg nonblock => exact h.send msg nonblock
  | recv nonblock => exact h.recv nonblock
  | setErrSend err => exact ⟨_, .setErrSend, rfl, h.errRecv, h.freeFunc, h.fifo⟩
  | setErrRecv err => exact ⟨_, .setErrRecv, h.errSend, rfl, h.freeFunc, h.fifo⟩
  | flush => exact h.flush (hflush rfl)

end Refines

end P2PFFmpeg.Util
