import P2PFFmpeg.Tools.ThreadSignals

namespace P2PFFmpeg.Tools

open Library Library.Transition Util

variable {α τ : Type}

section Elements

variable {i : Nat}

theorem acceptedOf_append (es fs : List (TqEvent α)) :
    acceptedOf i (es ++ fs) = acceptedOf i es ++ acceptedOf i fs := List.filterMap_append

theorem receivedOf_append (es fs : List (TqEvent α)) :
    receivedOf i (es ++ fs) = receivedOf i es ++ receivedOf i fs := List.filterMap_append

theorem elemsOf_append (es fs : List (FifoElem α)) :
    elemsOf i (es ++ fs) = elemsOf i es ++ elemsOf i fs := List.filterMap_append

theorem elemsOf_eq_nil {es : List (FifoElem α)} (h : ∀ e ∈ es, e.streamIdx ≠ i) : elemsOf i es = [] := by
  apply List.filterMap_eq_nil_iff.mpr
  intro e he
  rw [if_neg (h e he)]

end Elements

def Right (nbStreams : Nat) (before : List (TqEvent α)) : TqEvent α → Prop
  | .accepted i _ | .received i _ => .eof i ∉ before ∧ .receiveFinish i ∉ before
  | .eof i =>
      .eof i ∉ before ∧ .receiveFinish i ∉ before ∧ receivedOf i before = acceptedOf i before
  | .finalEof => ∀ i < nbStreams, .eof i ∈ before ∨ .receiveFinish i ∈ before
  | .receiveFinish _ => True

structure Delivering (nbStreams : Nat) (tq : ThreadQueue α) (ev : List (TqEvent α))
    (es : List (FifoElem α)) : Prop where
  holds : tq.fifo.Holds es
  streams : tq.nbStreams = nbStreams
  told : ∀ i, (tq.finished i).recv = true ↔ .eof i ∈ ev ∨ .receiveFinish i ∈ ev
  live : ∀ i, (tq.finished i).recv = false → acceptedOf i ev = receivedOf i ev ++ elemsOf i es
  done : ∀ i, (tq.finished i).recv = true → receivedOf i ev <+: acceptedOf i ev
  delivered : ∀ i, .receiveFinish i ∉ ev → .eof i ∈ ev → receivedOf i ev = acceptedOf i ev
  right : ∀ before e after, ev = before ++ e :: after → Right nbStreams before e

section Delivering

variable {nbStreams : Nat} {tq tq' : ThreadQueue α} {ev : List (TqEvent α)}
  {es es' : List (FifoElem α)}

theorem Delivering.quiet (h : Delivering nbStreams tq ev es) {x : TqEvent α}
    (hright : Right nbStreams ev x) {i : Nat} (hrecv : (tq.finished i).recv = true) :
    acceptedOf i [x] = [] ∧ receivedOf i [x] = [] := by
  have htold := (h.told i).mp hrecv
  cases x with
  | accepted j y =>
      have hne : j ≠ i := by
        rintro rfl
        exact htold.elim hright.1 hright.2
      simp [acceptedOf, receivedOf, hne]
  | received j y =>
      have hne : j ≠ i := by
        rintro rfl
        exact htold.elim hright.1 hright.2
      simp [acceptedOf, receivedOf, hne]
  | eof | finalEof | receiveFinish => exact ⟨rfl, rfl⟩

theorem Delivering.unseen (h : Delivering nbStreams tq ev es) (hholds : tq'.fifo.Holds es')
    (hstreams : tq'.nbStreams = tq.nbStreams)
    (hrecv : ∀ i, (tq'.finished i).recv = (tq.finished i).recv)
    (hstays : ∀ i, (tq.finished i).recv = false → elemsOf i es' = elemsOf i es) :
    Delivering nbStreams tq' ev es' where
  holds := hholds
  streams := hstreams.trans h.streams
  told := by
    intro i
    rw [hrecv]
    exact h.told i
  live := by
    intro i hlive
    rw [hrecv] at hlive
    rw [hstays i hlive]
    exact h.live i hlive
  done := by
    intro i hdone
    rw [hrecv] at hdone
    exact h.done i hdone
  delivered := h.delivered
  right := h.right

theorem Delivering.snoc (h : Delivering nbStreams tq ev es) {x : TqEvent α}
    (hholds : tq'.fifo.Holds es') (hstreams : tq'.nbStreams = tq.nbStreams)
    (hright : Right nbStreams ev x)
    (htold : ∀ i, (tq'.finished i).recv = true ↔
      (tq.finished i).recv = true ∨ x = .eof i ∨ x = .receiveFinish i)
    (hlive : ∀ i, (tq.finished i).recv = false →
      elemsOf i es ++ acceptedOf i [x] = receivedOf i [x] ++ elemsOf i es') :
    Delivering nbStreams tq' (ev ++ [x]) es' where
  holds := hholds
  streams := hstreams.trans h.streams
  told := by
    intro i
    rw [htold i, h.told i]
    simp only [List.mem_append, List.mem_singleton, eq_comm (a := x)]
    tauto
  live := by
    intro i hi
    have hwas : (tq.finished i).recv = false := by
      by_contra hrecv
      rw [Bool.not_eq_false] at hrecv
      rw [(htold i).mpr (.inl hrecv)] at hi
      cases hi
    rw [acceptedOf_append, receivedOf_append, h.live i hwas, List.append_assoc, hlive i hwas,
      List.append_assoc]
  done := by
    intro i hi
    rw [acceptedOf_append, receivedOf_append]
    by_cases hwas : (tq.finished i).recv = true
    · obtain ⟨haccepted, hreceived⟩ := h.quiet hright hwas
      rw [haccepted, hreceived, List.append_nil, List.append_nil]
      exact h.done i hwas
    · rw [h.live i (Bool.not_eq_true _ ▸ hwas)]
      obtain hrecv | rfl | rfl := (htold i).mp hi
      · exact absurd hrecv hwas
      · simp [acceptedOf, receivedOf]
      · simp [acceptedOf, receivedOf]
  delivered := by
    intro i hfinish heof
    simp only [List.mem_append, List.mem_singleton, not_or] at hfinish heof
    rw [acceptedOf_append, receivedOf_append]
    obtain heof | rfl := heof
    · obtain ⟨haccepted, hreceived⟩ := h.quiet hright ((h.told i).mpr (.inl heof))
      rw [haccepted, hreceived, h.delivered i hfinish.1 heof]
    · rw [hright.2.2]
      rfl
  right := by
    intro before e after hsplit
    rcases List.eq_nil_or_concat after with rfl | ⟨rest, last, rfl⟩
    · obtain ⟨rfl, heq⟩ := List.append_inj' hsplit rfl
      cases heq
      exact hright
    · rw [List.concat_eq_append, ← List.cons_append, ← List.append_assoc] at hsplit
      exact h.right before e rest (List.append_inj' hsplit rfl).1

theorem delivering_start (queueSize : Nat) (h : 0 < queueSize) :
    Delivering nbStreams (tqAlloc nbStreams queueSize : ThreadQueue α) [] [] where
  holds := avFifoAlloc2_holds h 16 false
  streams := rfl
  told := by simp [tqAlloc, Finished.none]
  live := fun _ _ => rfl
  done := fun _ _ => List.nil_prefix
  delivered := fun _ _ _ => rfl
  right := by simp

theorem Delivering.told_of_live (h : Delivering nbStreams tq ev es) {i : Nat}
    (hlive : (tq.finished i).recv = false) : .eof i ∉ ev ∧ .receiveFinish i ∉ ev := by
  have htold := (h.told i).not
  rw [hlive, not_or] at htold
  exact htold.mp (by simp)

theorem Delivering.sent (h : Delivering nbStreams tq ev es) {i : Nat} {x : α} {o : TqOutcome α}
    (hsent : Sent tq es i x o es') :
    Delivering nbStreams o.state (ev ++ (o.ret.map (seen (.send i x))).getD []) es' := by
  cases hsent with
  | waits => simpa using h
  | refused hcode => simpa [seen, TqRet.ofCode, hcode] using h
  | finished hcode _ =>
      have hstays := @Delivering.unseen _ _ _ (tq.sendFinished i) _ _ _ h h.holds rfl (by simp) fun _ _ => rfl
      simpa [seen, TqRet.ofCode, hcode] using hstays
  | accepted hlive hfifo =>
      refine h.snoc hfifo rfl (h.told_of_live hlive) (by simp) ?_
      intro j _
      by_cases hj : i = j <;> simp [elemsOf, acceptedOf, receivedOf, hj]

theorem elemsOf_dropped (h : ∀ e ∈ es, (tq.finished e.streamIdx).recv = true) {i : Nat}
    (hlive : (tq.finished i).recv = false) : elemsOf i es = [] := by
  apply elemsOf_eq_nil
  rintro e he rfl
  rw [h e he] at hlive
  cases hlive

theorem Delivering.receive (h : Delivering nbStreams tq ev es) {r : TqRet α × ThreadQueue α}
    (hr : Received tq es r es') :
    Delivering nbStreams r.2 (ev ++ ((if r.1.code = averrorEagain then .none else some r.1).map
      (seen .receive)).getD []) es' := by
  cases hr with
  | @elem dropped elem _ _ hes hdropped hlive hfifo =>
      rw [if_neg zero_ne_eagain]
      refine h.snoc hfifo rfl (h.told_of_live hlive) (by simp) ?_
      intro j hj
      rw [hes, elemsOf_append, elemsOf_dropped hdropped hj]
      by_cases hij : elem.streamIdx = j <;> simp [elemsOf, acceptedOf, receivedOf, hij]
  | eof hes hfifo _ _ hlive =>
      rw [if_neg eof_ne_eagain]
      obtain ⟨heof, hfinish⟩ := h.told_of_live hlive
      have hall := h.live _ hlive
      rw [elemsOf_dropped hes hlive, List.append_nil] at hall
      refine h.snoc hfifo rfl ⟨heof, hfinish, hall.symm⟩ ?_ ?_
      · intro j
        rw [recvFinished_recv, or_comm, @eq_comm _ j]
        simp
      · intro j hj
        rw [elemsOf_dropped hes hj]
        simp [elemsOf, acceptedOf, receivedOf]
  | final hes hfifo hall =>
      simp only [TqRet.ofCode, eof_ne_eagain, if_false]
      refine h.snoc hfifo rfl ?_ (by simp) ?_
      · intro i hi
        exact (h.told i).mp (hall i (h.streams ▸ hi))
      · intro j hj
        rw [elemsOf_dropped hes hj]
        simp [elemsOf, acceptedOf, receivedOf]
  | again hes hfifo =>
      have hunseen := @Delivering.unseen _ _ _ { tq with fifo := _ } _ _ _ h hfifo rfl (fun _ => rfl)
        fun j hj => (elemsOf_dropped hes hj).symm
      simpa [TqRet.ofCode] using hunseen

theorem Delivering.receiveFinish (h : Delivering nbStreams tq ev es) (i : Nat) :
    Delivering nbStreams (tq.recvFinished i) (ev ++ [.receiveFinish i]) es := by
  refine h.snoc h.holds rfl trivial ?_ ?_
  · intro j
    rw [recvFinished_recv, or_comm, @eq_comm _ j]
    simp
  · intro j _
    simp [acceptedOf, receivedOf]

theorem Delivering.enter (h : Delivering nbStreams tq ev es) (allocated : Bool) (w : Request α) :
    ∃ es', Delivering nbStreams ((tqCode α).enter allocated w tq).state
      (ev ++ (((tqCode α).enter allocated w tq).ret.map (seen w)).getD []) es' := by
  cases w with
  | send i x =>
      obtain ⟨es', hsent⟩ := tqSend_sent h.holds allocated i x
      exact ⟨es', h.sent hsent⟩
  | receive =>
      obtain ⟨es', hreceived⟩ := receiveLocked_received h.holds
      exact ⟨es', h.receive hreceived⟩
  | sendFinish i =>
      have hunseen := @Delivering.unseen _ _ _ (tq.sendFinished i) _ _ _ h h.holds rfl (by simp) fun _ _ => rfl
      refine ⟨es, ?_⟩
      simpa [tqCode, tqSendFinish, seen] using hunseen
  | receiveFinish i => exact ⟨es, h.receiveFinish i⟩

theorem Delivering.resume (h : Delivering nbStreams tq ev es) (allocated : Bool) (w : Request α) :
    ∃ es', Delivering nbStreams ((tqCode α).resume allocated w tq).state
      (ev ++ (((tqCode α).resume allocated w tq).ret.map (seen w)).getD []) es' := by
  cases w with
  | send i x =>
      obtain ⟨es', hsent⟩ := tqSendLoop_sent h.holds allocated i x
      exact ⟨es', h.sent hsent⟩
  -- the other requests have one section
  | receive => exact h.enter allocated .receive
  | sendFinish i => exact h.enter allocated (.sendFinish i)
  | receiveFinish i => exact h.enter allocated (.receiveFinish i)

end Delivering

section Runs

variable [DecidableEq τ] {consumer : τ} {nbStreams queueSize : Nat}

def watched (α : Type) (consumer : τ) (nbStreams queueSize : Nat) :
    System (Monitor.Threads τ (ThreadQueue α) (Request α) × List (TqEvent α))
      (Monitor.Label τ (Request α) Bool) :=
  (sending α consumer nbStreams queueSize).observed ((tqCode α).observe seen)

theorem watched_delivering (hsize : 0 < queueSize)
    {s : Monitor.Threads τ (ThreadQueue α) (Request α) × List (TqEvent α)}
    (h : (watched α consumer nbStreams queueSize).Reachable s) :
    ∃ es, Delivering nbStreams s.1.shared s.2 es := by
  refine System.Reachable.invariant
    (fun s => ∃ es, Delivering nbStreams s.1.shared s.2 es) ?_ ?_ h
  · rintro ⟨s, ev⟩ ⟨hs, hev⟩
    obtain rfl : s = ⟨tqAlloc nbStreams queueSize, fun _ => .none⟩ := hs
    obtain rfl : ev = [] := hev
    exact ⟨[], delivering_start queueSize hsize⟩
  · rintro s l t _ ⟨es, hs⟩ hn
    obtain ⟨hnext, hseen⟩ := System.observed_next.mp hn
    rw [hseen]
    obtain ⟨u, rfl, hwake⟩ | ⟨u, w, allocated, o, hsection, hafter, hrun⟩ :=
      Monitor.Code.next_cases hnext
    · rw [hwake]
      refine ⟨es, ?_⟩
      simpa [Monitor.Code.observe, Monitor.Code.section, Monitor.Threads.wake] using hs
    · rw [hafter]
      simp only [Monitor.Code.observe, hsection, Monitor.Threads.after]
      obtain ⟨_, _, _, rfl⟩ | ⟨_, _, rfl⟩ := hrun
      · exact hs.enter allocated w
      · exact hs.resume allocated w

/-- What the queue promises: the elements of a stream are received in the order
they were accepted, each once, and all of them when the consumer has read to the
end; and every event comes when it may. -/
structure Delivered (nbStreams : Nat) (ev : List (TqEvent α)) : Prop where
  order : ∀ i, receivedOf i ev <+: acceptedOf i ev
  complete : ∀ i, .receiveFinish i ∉ ev → .eof i ∈ ev ∨ (.finalEof ∈ ev ∧ i < nbStreams) →
    receivedOf i ev = acceptedOf i ev
  right : ∀ before e after, ev = before ++ e :: after → Right nbStreams before e

theorem Delivering.promised {tq : ThreadQueue α} {ev : List (TqEvent α)} {es : List (FifoElem α)}
    (h : Delivering nbStreams tq ev es) : Delivered nbStreams ev where
  order := by
    intro i
    cases hrecv : (tq.finished i).recv with
    | true => exact h.done i hrecv
    | false =>
        rw [h.live i hrecv]
        exact List.prefix_append _ _
  complete := by
    rintro i hfinish (heof | ⟨hfinal, hi⟩)
    · exact h.delivered i hfinish heof
    · obtain ⟨before, after, hsplit⟩ := List.append_of_mem hfinal
      refine h.delivered i hfinish ?_
      obtain heof | hcalled := h.right before .finalEof after hsplit i hi
      · rw [hsplit]
        exact List.mem_append_left _ heof
      · rw [hsplit] at hfinish
        exact absurd (List.mem_append_left _ hcalled) hfinish
  right := h.right

theorem tqCode_returns (allocated : Bool) (w : Request α) (tq : ThreadQueue α)
    (h : ¬ (tqCode α).blocked tq w) : ((tqCode α).resume allocated w tq).ret ≠ .none := by
  simp only [tqCode] at h ⊢
  cases w with
  | send i x =>
      simp only [Blocked] at h
      simp only [tqSendLoop]
      rw [if_neg h]
      split
      · simp
      · split <;> simp
  | receive =>
      simp only [Blocked] at h
      simp only [tqReceive]
      rw [if_neg h]
      simp
  | sendFinish | receiveFinish => simp [tqSendFinish, tqReceiveFinish]

/-- For any number of producers and one consumer, in every interleaving of their
lock sections: the elements are delivered, a thread that waits and has not been
woken is blocked, and in a fair run no thread waits for ever while it is not
blocked. -/
theorem thread_queue_delivers (consumer : τ) (nbStreams : Nat) {queueSize : Nat}
    (hsize : 0 < queueSize) :
    (∀ s, (watched α consumer nbStreams queueSize).Reachable s → Delivered nbStreams s.2 ∧
      ∀ t w, s.1.waiting t = some (w, false) → Blocked s.1.shared w) ∧
    ∀ (r : Monitor.FairRun (sending α consumer nbStreams queueSize)) (t : τ) (k : Nat),
      ¬ ∀ n, k ≤ n → ∃ w woken, (r.state n).waiting t = some (w, woken) ∧
        ¬ Blocked (r.state n).shared w := by
  have hstart : ∃ es, (tqAlloc nbStreams queueSize : ThreadQueue α).fifo.Holds es :=
    ⟨[], avFifoAlloc2_holds hsize 16 false⟩
  have hsignals := @tqCode_signals α _ _ consumer nbStreams
  constructor
  · intro s hs
    obtain ⟨es, hdelivering⟩ := watched_delivering hsize hs
    exact ⟨hdelivering.promised, (hsignals.quiet hstart hs.of_observed).blocked⟩
  · exact hsignals.no_endless_wait hstart tqCode_returns

/-- A producer that has to wait for room, and a consumer that reads to the end. -/
theorem thread_queue_delivers_in_turn :
    ∃ s, (watched Nat false 1 1).Reachable s ∧
      s.2 = [.accepted 0 5, .received 0 5, .accepted 0 6, .received 0 6, .eof 0, .finalEof] ∧
      Delivered 1 s.2 := by
  have hrun : ((watched Nat false 1 1).run
      [.enter true (.send 0 5) true, .enter true (.send 0 6) true, .enter false .receive true,
        .resume true true, .enter true (.sendFinish 0) true, .enter false .receive true,
        .enter false .receive true, .enter false .receive true]
      (⟨tqAlloc 1 1, fun _ => .none⟩, [])).map (fun s => s.2) =
      some [.accepted 0 5, .received 0 5, .accepted 0 6, .received 0 6, .eof 0, .finalEof] := by
    decide +kernel
  obtain ⟨s, hs, hseen⟩ := Option.map_eq_some_iff.mp hrun
  have hinit : (watched Nat false 1 1).init (⟨tqAlloc 1 1, fun _ => .none⟩, []) := ⟨rfl, rfl⟩
  have hreach := System.Reachable.of_run hinit hs
  exact ⟨s, hreach, hseen, ((thread_queue_delivers false 1 (by decide)).1 s hreach).1⟩

end Runs

end P2PFFmpeg.Tools
