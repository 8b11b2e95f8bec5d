import P2PFFmpeg.Util.MessageQueue

namespace P2PFFmpeg.Util

open Library Library.Transition Library.Conditions

variable {α τ : Type}

section Waiting

variable {mq : AVThreadMessageQueue α} {q : MessageQueue α} {op : MessageOp α} {c : MessageCond}
  {n : Nat}

def EnoughFor (c : MessageCond) (mq : AVThreadMessageQueue α) (n : Nat) : Prop :=
  match c with
  | .send => mq.errSend = 0 ∧ avFifoCanWrite mq.fifo ≤ n
  | .recv => mq.errRecv = 0 ∧ avFifoCanRead mq.fifo ≤ n

theorem AVThreadMessageQueue.Refines.enough (h : mq.Refines q) (c : MessageCond) (n : Nat) :
    EnoughFor c mq n ↔ q.Enough c n := by
  cases c with
  | send => rw [EnoughFor, MessageQueue.Enough, h.errSend, h.canWrite]
  | recv => rw [EnoughFor, MessageQueue.Enough, h.errRecv, h.canRead]

theorem flush_untouched (h : ¬ Flushes mq = true) :
    messageCode .flush mq = ⟨mq, .broadcast .send, .returns ⟨0, [], []⟩⟩ := by
  have hfree : ¬ mq.freeFunc = true := fun hfree => h (by rw [Flushes, hfree, Bool.true_or])
  rw [messageCode, avThreadMessageFlush, if_neg hfree]

theorem AVThreadMessageQueue.Refines.section_or (h : mq.Refines q) (op : MessageOp α) :
    (∃ q', q.Step op (messageCode op mq).notice (messageCode op mq).ending q' ∧
      (messageCode op mq).state.Refines q') ∨
      (op = .flush ∧ messageCode op mq = ⟨mq, .broadcast .send, .returns ⟨0, [], []⟩⟩) := by
  by_cases hflush : op = .flush ∧ ¬ Flushes mq = true
  · obtain ⟨rfl, hleft⟩ := hflush
    exact .inr ⟨rfl, flush_untouched hleft⟩
  · refine .inl (h.section op ?_)
    intro hop
    by_contra hleft
    exact hflush ⟨hop, hleft⟩

theorem messageCode_serves : Code.Serves (@messageCode α) (fun mq => ∃ q, mq.Refines q)
    (fun op c => MessageQueue.waitsOn op = some c) EnoughFor where
  keeps := by
    rintro op mq ⟨q, h⟩
    obtain ⟨q', _, hnext⟩ | ⟨_, hleft⟩ := h.section_or op
    · exact ⟨q', hnext⟩
    · rw [hleft]
      exact ⟨q, h⟩
  on := by
    rintro op mq c ⟨q, h⟩ hwaits
    obtain ⟨q', hstep, _⟩ | ⟨_, hleft⟩ := h.section_or op
    · exact (hstep.waits hwaits).1
    · rw [hleft] at hwaits
      cases hwaits
  mono := by
    intro c mq n m hle henough
    cases c with
    | send => exact ⟨henough.1, Nat.le_trans henough.2 hle⟩
    | recv => exact ⟨henough.1, Nat.le_trans henough.2 hle⟩
  waits := by
    rintro op mq c ⟨q, h⟩ hwaits
    obtain ⟨q', hstep, hnext⟩ | ⟨_, hleft⟩ := h.section_or op
    · exact (hnext.enough c 0).mpr (hstep.waits hwaits).2
    · rw [hleft] at hwaits
      cases hwaits
  passes := by
    rintro op mq c n ⟨q, h⟩ hnotice henough
    rw [h.enough] at henough
    obtain ⟨q', hstep, hnext⟩ | ⟨_, hleft⟩ := h.section_or op
    · exact (hnext.enough c _).mpr (hstep.passes hnotice henough)
    · rw [hleft]
      exact (h.enough c n).mpr henough
  takes := by
    rintro op mq c n ⟨q, h⟩ hon _ henough
    rw [h.enough] at henough
    obtain ⟨q', hstep, hnext⟩ | ⟨hop, _⟩ := h.section_or op
    · exact (hnext.enough c n).mpr (hstep.takes hon henough)
    · rw [hop] at hon
      cases hon

theorem newMessageQueue_refines (h : NewMessageQueue mq) : ∃ q : MessageQueue α, mq.Refines q ∧
    q.elems = [] := by
  obtain ⟨nelem, elsize, freeFunc, rfl⟩ := h
  exact ⟨⟨.empty nelem, 0, 0, freeFunc⟩, ⟨rfl, rfl, rfl, _, avFifoAlloc2_refines nelem elsize false⟩, rfl⟩

end Waiting

def sentOf (ev : List (MessageEvent α)) : List α :=
  ev.filterMap fun e => match e with | .sent msg => some msg | _ => none

def takenOf (ev : List (MessageEvent α)) : List (Option α) :=
  ev.filterMap fun e => match e with | .received msg | .freed msg => some msg | _ => none

def messagesReceived (ev : List (MessageEvent α)) : List (Option α) :=
  ev.filterMap fun e => match e with | .received msg => some msg | _ => none

section Events

variable {ev new before after : List (MessageEvent α)}

theorem sentOf_append (ev new : List (MessageEvent α)) : sentOf (ev ++ new) = sentOf ev ++ sentOf new :=
  List.filterMap_append

theorem takenOf_append (ev new : List (MessageEvent α)) :
    takenOf (ev ++ new) = takenOf ev ++ takenOf new := List.filterMap_append

theorem messagesReceived_sublist (ev : List (MessageEvent α)) :
    (messagesReceived ev).Sublist (takenOf ev) := by
  induction ev with
  | nil => exact .slnil
  | cons e ev ih =>
      cases e with
      | received msg =>
          have hboth := ih.cons_cons msg
          exact hboth
      | freed msg =>
          have htaken := ih.cons msg
          exact htaken
      | sent | flushed => exact ih

def FlushesAll (ev : List (MessageEvent α)) : Prop :=
  ∀ before after, ev = before ++ .flushed :: after → takenOf before = (sentOf before).map some

theorem FlushesAll.snoc (h : FlushesAll ev) {e : MessageEvent α}
    (he : e = .flushed → takenOf ev = (sentOf ev).map some) : FlushesAll (ev ++ [e]) := by
  intro before after heq
  rcases List.eq_nil_or_concat after with rfl | ⟨after, last, rfl⟩
  · obtain ⟨rfl, hlast⟩ := List.append_inj' heq rfl
    exact he (List.cons.inj hlast).1
  · have hsame : ev ++ [e] = (before ++ .flushed :: after) ++ [last] := by simpa using heq
    exact h before after (List.append_inj' hsame rfl).1

theorem FlushesAll.unflushed (h : FlushesAll ev) (hnew : .flushed ∉ new) : FlushesAll (ev ++ new) := by
  induction new generalizing ev with
  | nil => rwa [List.append_nil]
  | cons e new ih =>
      rw [List.append_cons]
      refine ih (h.snoc ?_) fun hmem => hnew (List.mem_cons_of_mem _ hmem)
      rintro rfl
      exact absurd List.mem_cons_self hnew

structure Delivered (q : MessageQueue α) (ev : List (MessageEvent α)) : Prop where
  order : (sentOf ev).map some = takenOf ev ++ q.elems.map some
  flushes : FlushesAll ev

variable {q q' : MessageQueue α} {mq : AVThreadMessageQueue α} {op : MessageOp α}

theorem takenOf_freed (msgs : List (Option α)) : takenOf (msgs.map .freed) = msgs := by
  induction msgs with
  | nil => rfl
  | cons msg msgs ih => exact congrArg (msg :: ·) ih

theorem sentOf_freed (msgs : List (Option α)) : sentOf (msgs.map (MessageEvent.freed)) = [] := by
  induction msgs with
  | nil => rfl
  | cons msg msgs ih => exact ih

theorem Delivered.sent (h : Delivered q ev) {msg : α} (hroom : [msg].length ≤ q.room) :
    Delivered { q with toBoundedQueue := q.push [msg] hroom } (ev ++ [.sent msg]) where
  order := by
    have hsent : sentOf [MessageEvent.sent msg] = [msg] := rfl
    have htaken : takenOf [MessageEvent.sent msg] = [] := rfl
    rw [sentOf_append, takenOf_append, hsent, htaken, List.map_append, h.order, List.append_nil,
      BoundedQueue.push_elems, List.map_append, List.append_assoc]
  flushes := h.flushes.unflushed (by simp)

theorem Delivered.received (h : Delivered q ev) {msg : α} {rest : List α} (hq : q.elems = msg :: rest) :
    Delivered { q with toBoundedQueue := q.drop 1 } (ev ++ [.received (some msg)]) where
  order := by
    have hsent : sentOf [MessageEvent.received (some msg)] = [] := rfl
    have htaken : takenOf [MessageEvent.received (some msg)] = [some msg] := rfl
    rw [sentOf_append, takenOf_append, hsent, htaken, List.append_nil, h.order, hq,
      BoundedQueue.drop_elems, hq, List.append_assoc]
    rfl
  flushes := h.flushes.unflushed (by simp)

theorem Delivered.flushed (h : Delivered q ev) (hfree : q.freeFunc = true ∨ q.elems = []) :
    Delivered { q with toBoundedQueue := q.clear }
      (ev ++ ((if q.freeFunc then q.elems.map some else []).map .freed ++ [.flushed])) := by
  have hall : (if q.freeFunc then q.elems.map some else []) = q.elems.map some := by
    obtain hfree | hnil := hfree
    · rw [if_pos hfree]
    · rw [hnil]
      exact ite_self _
  rw [hall, ← List.append_assoc]
  have horder : (sentOf (ev ++ (q.elems.map some).map .freed)).map some =
      takenOf (ev ++ (q.elems.map some).map .freed) := by
    rw [sentOf_append, takenOf_append, takenOf_freed, sentOf_freed, List.append_nil, h.order]
  have hsent : sentOf [(.flushed : MessageEvent α)] = [] := rfl
  have htaken : takenOf [(.flushed : MessageEvent α)] = [] := rfl
  refine ⟨?_, ?_⟩
  · rw [sentOf_append, takenOf_append, hsent, htaken, List.append_nil, horder, List.append_nil,
      BoundedQueue.clear_elems, List.map_nil, List.append_nil]
  · exact (h.flushes.unflushed (by simp)).snoc fun _ => horder.symm

theorem Delivered.step (h : Delivered q ev) {o : MessageOutcome α} (hstep : q.Step op o.notice o.ending q')
    (hfree : op = .flush → q.freeFunc = true ∨ q.elems = []) : Delivered q' (ev ++ messageEvents op o) := by
  generalize hnotice : o.notice = notice at hstep
  generalize hending : o.ending = ending at hstep
  have hnothing : Delivered q (ev ++ []) := by rwa [List.append_nil]
  cases hstep with
  | sent herr hroom =>
      simp only [messageEvents, hending, if_true]
      exact h.sent hroom
  | refused herr =>
      simp only [messageEvents, hending, if_neg herr]
      exact hnothing
  | @full msg nonblock herr hroom =>
      cases nonblock with
      | true => simpa [messageEvents, hending, MessageQueue.blocks, averrorEagain] using h
      | false => simpa [messageEvents, hending, MessageQueue.blocks] using h
  | received hq =>
      simp only [messageEvents, hending]
      exact h.received hq
  | ended herr hnone =>
      simp only [messageEvents, hending]
      exact hnothing
  | @empty nonblock herr hnone =>
      cases nonblock with
      | true => simpa [messageEvents, hending, MessageQueue.blocks] using h
      | false => simpa [messageEvents, hending, MessageQueue.blocks] using h
  | setErrSend =>
      simp only [messageEvents]
      exact ⟨by rw [List.append_nil]; exact h.order, by rw [List.append_nil]; exact h.flushes⟩
  | setErrRecv =>
      simp only [messageEvents]
      exact ⟨by rw [List.append_nil]; exact h.order, by rw [List.append_nil]; exact h.flushes⟩
  | flush =>
      simp only [messageEvents, hending]
      exact h.flushed (hfree rfl)

end Events

section Runs

variable [DecidableEq τ] [DecidableEq α]
  {s : Threads τ MessageCond (AVThreadMessageQueue α) (MessageOp α)} {ev : List (MessageEvent α)}

/-- The section is no flush of messages that nothing frees. -/
def flushesFree (s : Threads τ MessageCond (AVThreadMessageQueue α) (MessageOp α) ×
    List (MessageEvent α)) (l : Label τ (MessageOp α)) : Bool :=
  match s.1.section l with
  | some (_, .flush, _) => Flushes s.1.shared
  | _ => true

theorem messaging_delivered
    (h : ((@messaging α τ _ _).restrict fun s l => flushesFree s l = true).Reachable (s, ev)) :
    ∃ q : MessageQueue α, s.shared.Refines q ∧ Delivered q ev := by
  refine System.Reachable.invariant (fun s => ∃ q : MessageQueue α, s.1.shared.Refines q ∧
    Delivered q s.2) ?_ ?_ h
  · rintro ⟨s, ev⟩ ⟨⟨hnew, _⟩, rfl⟩
    obtain ⟨q, hrefines, hnil⟩ := newMessageQueue_refines hnew
    refine ⟨q, hrefines, ⟨by rw [hnil]; rfl, ?_⟩⟩
    intro before after heq
    exact absurd heq.symm (by simp)
  · rintro ⟨s, ev⟩ l ⟨s', ev'⟩ _ ⟨q, hrefines, hdelivered⟩ hn
    obtain ⟨hfree, hn⟩ := System.restrict_next.mp hn
    obtain ⟨hnext, hev⟩ := System.observed_next.mp hn
    simp only at hrefines hdelivered hnext hev ⊢
    subst hev
    obtain ⟨t, rfl, rfl⟩ | ⟨t, op, ws, ws', hsection, _, rfl, _⟩ := Code.next_cases hnext
    · refine ⟨q, hrefines, ?_⟩
      have hseen : messageCode.observe messageEvents s (.spurious t) = [] := rfl
      rwa [hseen, List.append_nil]
    · have hseen : messageCode.observe messageEvents s l =
          messageEvents op (messageCode op s.shared) := by
        simp only [Code.observe, hsection]
      have hflush : op = .flush → Flushes s.shared = true := by
        rintro rfl
        simpa only [flushesFree, hsection] using hfree
      obtain ⟨q', hstep, hnext⟩ := hrefines.section op hflush
      rw [hseen]
      refine ⟨q', hnext, hdelivered.step hstep ?_⟩
      intro hop
      have hflushes := hflush hop
      simpa [Flushes, hrefines.freeFunc, hrefines.canRead] using hflushes

/-- In every run in which a flush finds a free_func or no messages: the messages
leave in the order they were sent, what is received is some of these, and a flush
takes out all that was sent before it; while a call sleeps that could go on,
enough others have been woken; and a call does what the queue is for, which a
flush does exactly when it finds a free_func or no messages. -/
theorem messages_are_delivered
    (h : ((@messaging α τ _ _).restrict fun s l => flushesFree s l = true).Reachable (s, ev)) :
    ∃ q : MessageQueue α, s.shared.Refines q ∧
      (sentOf ev).map some = takenOf ev ++ q.elems.map some ∧
      (messagesReceived ev).Sublist (takenOf ev) ∧
      (∀ before after, ev = before ++ .flushed :: after →
        takenOf before = (sentOf before).map some ∧
          (sentOf after).map some = takenOf after ++ q.elems.map some) ∧
      (∀ x ∈ s.waiting, MessageQueue.waitsOn x.request = some x.on ∧
        (x.woken = false → q.Enough x.on (pending x.on s.waiting))) ∧
      ∀ op, (∃ q', q.Step op (messageCode op s.shared).notice (messageCode op s.shared).ending q' ∧
          (messageCode op s.shared).state.Refines q') ↔
        (op = .flush → Flushes s.shared = true) := by
  obtain ⟨q, hrefines, horder, hflushes⟩ := messaging_delivered h
  have hawake := messageCode_serves.reachable
    (fun mq hnew => (newMessageQueue_refines hnew).imp fun _ hand => hand.1) h.of_restrict.of_observed
  refine ⟨q, hrefines, horder, messagesReceived_sublist ev, ?_, ?_, ?_⟩
  · rintro before after rfl
    have hbefore := hflushes before after rfl
    refine ⟨hbefore, ?_⟩
    have hsent : sentOf (before ++ .flushed :: after) = sentOf before ++ sentOf after :=
      sentOf_append before (.flushed :: after)
    have htaken : takenOf (before ++ .flushed :: after) = takenOf before ++ takenOf after :=
      takenOf_append before (.flushed :: after)
    rw [hsent, htaken, List.map_append, hbefore, List.append_assoc] at horder
    exact List.append_cancel_left horder
  · intro x hx
    refine ⟨hawake.on x hx, fun hsleeps => ?_⟩
    exact (hrefines.enough x.on _).mp (hawake.enough x hx hsleeps)
  · intro op
    refine ⟨?_, hrefines.section op⟩
    rintro ⟨q', hstep, hnext⟩ rfl
    by_contra hleft
    rw [flush_untouched hleft] at hstep hnext
    have hempty := hnext.canRead
    rw [hstep.flush_empties, List.length_nil] at hempty
    simp [Flushes, hempty] at hleft

/-- With a free_func: two messages, of which one is received and one is flushed,
and one more. -/
theorem messages_are_delivered_flushed : ∃ ev : List (MessageEvent Nat),
    messagesReceived ev = [some 5, some 7] ∧ takenOf ev = [some 5, some 6, some 7] ∧
      (messagesReceived ev).Sublist (takenOf ev) := by
  have hrun : ((messaging.guard flushesFree).run [.enter 0 (.recv false) none,
      .enter 1 (.send 5 false) (some 0), .resume 0 none, .enter 1 (.send 6 true) none,
      .enter 2 .flush none, .enter 1 (.send 7 false) none, .enter 0 (.recv true) none]
      (⟨{ avThreadMessageQueueAlloc 2 4 with freeFunc := true }, []⟩, [])).map
        (fun s : Threads Nat MessageCond (AVThreadMessageQueue Nat) (MessageOp Nat) ×
          List (MessageEvent Nat) => (messagesReceived s.2, takenOf s.2)) =
      some ([some 5, some 7], [some 5, some 6, some 7]) := by
    decide +kernel
  obtain ⟨⟨s, ev⟩, hs, hview⟩ := Option.map_eq_some_iff.mp hrun
  obtain ⟨hreceived, htaken⟩ := Prod.mk.inj hview
  have hinit : (@messaging Nat Nat _ _).init
      (⟨{ avThreadMessageQueueAlloc 2 4 with freeFunc := true }, []⟩, []) :=
    ⟨⟨⟨2, 4, true, rfl⟩, rfl⟩, rfl⟩
  have hreach := System.Reachable.of_guard (C := fun s l => flushesFree s l = true)
    (fun _ _ hcheck => hcheck) hinit hs
  obtain ⟨_, _, _, hsub, _⟩ := messages_are_delivered hreach
  exact ⟨ev, hreceived, htaken, hsub⟩

/-- Without a free_func, a flush leaves the queue as it is, and a message that was
sent before it is received after it. -/
theorem flush_without_free_func_keeps : ∃ (s : Threads Nat MessageCond (AVThreadMessageQueue Nat)
    (MessageOp Nat)) (ev : List (MessageEvent Nat)), messaging.Reachable (s, ev) ∧
      ev = [.sent 5, .flushed, .received (some 5)] := by
  have hrun : (messaging.run [.enter 0 (.send 5 false) none, .enter 0 .flush none,
      .enter 0 (.recv true) none] (⟨avThreadMessageQueueAlloc 2 4, []⟩, [])).map
        (fun s : Threads Nat MessageCond (AVThreadMessageQueue Nat) (MessageOp Nat) ×
          List (MessageEvent Nat) => s.2) = some [.sent 5, .flushed, .received (some 5)] := by
    decide +kernel
  obtain ⟨⟨s, ev⟩, hs, hview⟩ := Option.map_eq_some_iff.mp hrun
  exact ⟨s, ev, .of_run ⟨⟨⟨2, 4, false, rfl⟩, rfl⟩, rfl⟩ hs, hview⟩

end Runs

end P2PFFmpeg.Util
