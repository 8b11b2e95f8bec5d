import P2PFFmpeg.Tools.ThreadQueue

namespace P2PFFmpeg.Tools

open Library Library.Transition Util

variable {α τ : Type}

section Loops

variable {finished finished' : Nat → Finished} {es : List (FifoElem α)}

/-- The elements of finished streams go, and the first other one is read. -/
theorem readLive_cases {fifo : AVFifo (FifoElem α)} (h : fifo.Holds es) {n : Nat} (hn : es.length < n) :
    (∃ dropped elem rest, es = dropped ++ elem :: rest ∧
        (∀ e ∈ dropped, (finished e.streamIdx).recv = true) ∧
        (finished elem.streamIdx).recv = false ∧
        (readLive finished n fifo).1 = some elem ∧ (readLive finished n fifo).2.Holds rest) ∨
      ((∀ e ∈ es, (finished e.streamIdx).recv = true) ∧
        (readLive finished n fifo).1 = .none ∧ (readLive finished n fifo).2.Holds []) := by
  induction n generalizing fifo es with
  | zero => exact absurd hn (Nat.not_lt_zero _)
  | succ n ih =>
      obtain ⟨hfew, hread⟩ | ⟨_, hread, hholds⟩ := h.read 1
      · obtain rfl := List.length_eq_zero_iff.mp (Nat.lt_one_iff.mp hfew)
        simp only [readLive, hread]
        exact .inr ⟨by simp, rfl, h⟩
      · cases es with
        | nil => simp at *
        | cons elem rest =>
            simp only [readLive, hread, ge_iff_le, Int.le_refl, if_true, List.take_succ_cons,
              List.take_zero, List.map_cons, List.map_nil]
            by_cases hrecv : (finished elem.streamIdx).recv = true
            · rw [if_pos hrecv]
              have hless : rest.length < n := by
                simp only [List.length_cons] at hn
                omega
              obtain ⟨dropped, first, rest', rfl, hdropped, hfirst⟩ | ⟨hall, hnone⟩ :=
                ih hholds hless
              · exact .inl ⟨elem :: dropped, first, rest', rfl,
                  List.forall_mem_cons.mpr ⟨hrecv, hdropped⟩, hfirst⟩
              · exact .inr ⟨List.forall_mem_cons.mpr ⟨hrecv, hall⟩, hnone⟩
            · rw [if_neg hrecv]
              exact .inl ⟨[], elem, rest, rfl, by simp, Bool.not_eq_true _ ▸ hrecv, rfl, hholds⟩

/-- Either a stream is found, or all are quiet, and they are counted right. -/
theorem untold_cases (is : List Nat) (nbFinished : Nat) :
    (∃ i ∈ is, finished i ≠ .none ∧ (finished i).recv = false ∧
        untold finished is nbFinished = .inl i) ∨
      (∀ i ∈ is, finished i = .none ∨ (finished i).recv = true) ∧
        ∃ nb ≤ nbFinished + is.length, untold finished is nbFinished = .inr nb ∧
          (nb = nbFinished + is.length ↔ ∀ i ∈ is, (finished i).recv = true) := by
  induction is generalizing nbFinished with
  | nil => exact .inr ⟨by simp, nbFinished, Nat.le_refl _, rfl, by simp⟩
  | cons i is ih =>
      simp only [untold]
      by_cases hnone : finished i = .none
      · rw [if_pos hnone]
        obtain ⟨j, hj, hfound⟩ | ⟨hquiet, nb, hle, heq, _⟩ := ih nbFinished
        · exact .inl ⟨j, List.mem_cons_of_mem i hj, hfound⟩
        · have hrecv : (finished i).recv = false := by rw [hnone]; rfl
          refine .inr ⟨List.forall_mem_cons.mpr ⟨.inl hnone, hquiet⟩, nb, ?_, heq, ?_⟩
          · rw [List.length_cons]
            omega
          · constructor
            · rw [List.length_cons]
              omega
            · intro hall
              rw [hall i List.mem_cons_self] at hrecv
              cases hrecv
      · rw [if_neg hnone]
        by_cases hrecv : (finished i).recv = false
        · rw [if_pos hrecv]
          exact .inl ⟨i, List.mem_cons_self, hnone, hrecv, rfl⟩
        · rw [if_neg hrecv]
          rw [Bool.not_eq_false] at hrecv
          obtain ⟨j, hj, hfound⟩ | ⟨hquiet, nb, hle, heq, hiff⟩ := ih (nbFinished + 1)
          · exact .inl ⟨j, List.mem_cons_of_mem i hj, hfound⟩
          · have hlen : nbFinished + (i :: is).length = nbFinished + 1 + is.length := by
              rw [List.length_cons]
              omega
            refine .inr ⟨List.forall_mem_cons.mpr ⟨.inr hrecv, hquiet⟩, nb, ?_, heq, ?_⟩
            · rw [hlen]
              exact hle
            · rw [hlen, hiff, List.forall_mem_cons]
              exact ⟨fun hall => ⟨hrecv, hall⟩, fun hall => hall.2⟩

end Loops

/-- What a turn of the consumer reads: the first element of a live stream; the
end of a stream, or of all; or nothing yet. -/
inductive Received (tq : ThreadQueue α) (es : List (FifoElem α)) :
    TqRet α × ThreadQueue α → List (FifoElem α) → Prop
  | elem {dropped elem rest fifo} (hes : es = dropped ++ elem :: rest)
      (hdropped : ∀ e ∈ dropped, (tq.finished e.streamIdx).recv = true)
      (hlive : (tq.finished elem.streamIdx).recv = false) (hfifo : fifo.Holds rest) :
      Received tq es (⟨0, some elem.streamIdx, some elem.obj⟩, { tq with fifo := fifo }) rest
  | eof {i fifo} (hes : ∀ e ∈ es, (tq.finished e.streamIdx).recv = true) (hfifo : fifo.Holds [])
      (hi : i < tq.nbStreams) (hfinished : tq.finished i ≠ .none)
      (hlive : (tq.finished i).recv = false) :
      Received tq es (⟨averrorEof, some i, .none⟩, ({ tq with fifo := fifo }).recvFinished i) []
  | final {fifo} (hes : ∀ e ∈ es, (tq.finished e.streamIdx).recv = true) (hfifo : fifo.Holds [])
      (hall : ∀ i < tq.nbStreams, (tq.finished i).recv = true) :
      Received tq es (.ofCode averrorEof, { tq with fifo := fifo }) []
  | again {i fifo} (hes : ∀ e ∈ es, (tq.finished e.streamIdx).recv = true) (hfifo : fifo.Holds [])
      (hquiet : ∀ i < tq.nbStreams, tq.finished i = .none ∨ (tq.finished i).recv = true)
      (hi : i < tq.nbStreams) (hlive : (tq.finished i).recv = false) :
      Received tq es (.ofCode averrorEagain, { tq with fifo := fifo }) []

theorem receiveLocked_received (h : tq.fifo.Holds es) : ∃ es', Received tq es (receiveLocked tq) es' := by
  have hturns : es.length < avFifoCanRead tq.fifo + 1 := by
    rw [h.canRead]
    omega
  simp only [receiveLocked]
  obtain ⟨dropped, elem, rest, hes, hdropped, hlive, hread, hfifo⟩ | ⟨hes, hread, hfifo⟩ :=
    @readLive_cases _ tq.finished es tq.fifo h _ hturns
  · rw [hread]
    exact ⟨rest, .elem hes hdropped hlive hfifo⟩
  · rw [hread]
    refine ⟨[], ?_⟩
    obtain ⟨i, hi, hfinished, hlive, huntold⟩ | ⟨hquiet, nb, _, huntold, hiff⟩ :=
      @untold_cases tq.finished (List.range tq.nbStreams) 0
    · simp only [huntold]
      exact .eof hes hfifo (List.mem_range.mp hi) hfinished hlive
    · simp only [huntold]
      simp only [Nat.zero_add, List.length_range, List.mem_range] at hiff hquiet
      by_cases hall : nb = tq.nbStreams
      · rw [if_pos hall]
        exact .final hes hfifo (hiff.mp hall)
      · rw [if_neg hall]
        have hsome : ∃ i, i < tq.nbStreams ∧ (tq.finished i).recv = false := by
          by_contra hno
          apply hall
          apply hiff.mpr
          intro i hi
          by_contra hrecv
          exact hno ⟨i, hi, Bool.not_eq_true _ ▸ hrecv⟩
        obtain ⟨i, hi, hlive⟩ := hsome
        exact .again hes hfifo hquiet hi hlive

section Flags

variable (tq : ThreadQueue α) (i j : Nat)

@[simp] theorem sendFinished_recv : ((tq.sendFinished i).finished j).recv = (tq.finished j).recv := by
  by_cases h : j = i
  · subst h
    simp [ThreadQueue.sendFinished]
  · simp [ThreadQueue.sendFinished, Function.update_of_ne h]

@[simp] theorem recvFinished_recv :
    ((tq.recvFinished i).finished j).recv = true ↔ j = i ∨ (tq.finished j).recv = true := by
  by_cases h : j = i
  · subst h
    simp [ThreadQueue.recvFinished]
  · simp [ThreadQueue.recvFinished, h]

end Flags

/-- A receive has to try again when every element is of a stream that the
receiver has finished, and no end of a stream is left to be told. -/
theorem blocked_receive {tq : ThreadQueue α} {es : List (FifoElem α)} (h : tq.fifo.Holds es) :
    Blocked tq .receive ↔ (∀ e ∈ es, (tq.finished e.streamIdx).recv = true) ∧
      (∀ i < tq.nbStreams, tq.finished i = .none ∨ (tq.finished i).recv = true) ∧
      ∃ i < tq.nbStreams, (tq.finished i).recv = false := by
  obtain ⟨es', hreceived⟩ := receiveLocked_received h
  simp only [Blocked]
  generalize receiveLocked tq = received at hreceived
  constructor
  · intro hagain
    cases hreceived with
    | again hes _ hquiet hi hlive => exact ⟨hes, hquiet, _, hi, hlive⟩
    | elem => exact absurd hagain zero_ne_eagain
    | eof | final => exact absurd hagain eof_ne_eagain
  · rintro ⟨hes, hquiet, i, hi, hlive⟩
    cases hreceived with
    | again => rfl
    | elem hsplit _ hlive' _ =>
        rw [hsplit] at hes
        rw [hes _ (List.mem_append_right _ List.mem_cons_self)] at hlive'
        cases hlive'
    | eof _ _ hj hfinished hlive' =>
        cases hquiet _ hj with
        | inl hnone => exact absurd hnone hfinished
        | inr hrecv =>
            rw [hrecv] at hlive'
            cases hlive'
    | final _ _ hall =>
        rw [hall i hi] at hlive
        cases hlive

variable {tq : ThreadQueue α} {es : List (FifoElem α)}

theorem blocked_send (h : tq.fifo.Holds es) {i : Nat} {x : α} (hblocked : Blocked tq (.send i x)) :
    (tq.finished i).recv = false ∧ es ≠ [] := by
  refine ⟨hblocked.1, ?_⟩
  rintro rfl
  have hroom := hblocked.2
  have hsize := h.offsetR
  rw [avFifoCanWrite, h.canRead, List.length_nil] at hroom
  omega

theorem tqReceive_silent (h : tq.fifo.Holds es) (hsilent : (tqReceive tq).wakes = false) : es = [] := by
  obtain ⟨es', hreceived⟩ := receiveLocked_received h
  simp only [tqReceive, decide_eq_false_iff_not, ne_eq, Decidable.not_not] at hsilent
  rw [h.canRead] at hsilent
  generalize receiveLocked tq = received at hreceived hsilent
  cases hreceived with
  | elem hes _ _ hfifo =>
      rw [hfifo.canRead, hes] at hsilent
      simp only [List.length_append, List.length_cons] at hsilent
      omega
  | eof _ hfifo => exact List.length_eq_zero_iff.mp (hsilent.trans hfifo.canRead)
  | final _ hfifo => exact List.length_eq_zero_iff.mp (hsilent.trans hfifo.canRead)
  | again _ hfifo => exact List.length_eq_zero_iff.mp (hsilent.trans hfifo.canRead)

/-- A send: it is refused and at most marks its stream, or waits; or its element
is the last. -/
inductive Sent (tq : ThreadQueue α) (es : List (FifoElem α)) (i : Nat) (x : α) :
    TqOutcome α → List (FifoElem α) → Prop
  | waits (hblocked : Blocked tq (.send i x)) : Sent tq es i x ⟨tq, false, .none⟩ es
  | refused {code} (hcode : code < 0) : Sent tq es i x ⟨tq, false, some (.ofCode code)⟩ es
  | finished {code} (hcode : code < 0) (hrecv : (tq.finished i).recv = true) :
      Sent tq es i x ⟨tq.sendFinished i, false, some (.ofCode code)⟩ es
  | accepted {fifo} (hlive : (tq.finished i).recv = false) (hfifo : fifo.Holds (es ++ [⟨x, i⟩])) :
      Sent tq es i x ⟨{ tq with fifo := fifo }, true, some (.ofCode 0)⟩ (es ++ [⟨x, i⟩])

theorem tqSendLoop_sent (h : tq.fifo.Holds es) (allocated : Bool) (i : Nat) (x : α) :
    ∃ es', Sent tq es i x (tqSendLoop allocated i x tq) es' := by
  simp only [tqSendLoop]
  split
  · next hblocked => exact ⟨es, .waits hblocked⟩
  · next hfree =>
      split
      · next hrecv => exact ⟨es, .finished (by decide) hrecv⟩
      · next hrecv =>
          rw [Bool.not_eq_true] at hrecv
          split
          · next hcode => exact ⟨es, .refused hcode⟩
          · have hroom : es.length + [FifoElem.mk x i].length ≤ tq.fifo.nbElems := by
              have hspace : avFifoCanWrite tq.fifo ≠ 0 := fun hfull => hfree ⟨hrecv, hfull⟩
              rw [avFifoCanWrite, h.canRead] at hspace
              rw [List.length_singleton]
              omega
            obtain ⟨hret, hfifo⟩ := h.write_fits hroom true
            rw [hret]
            exact ⟨es ++ [⟨x, i⟩], .accepted hrecv hfifo⟩

theorem tqSend_sent (h : tq.fifo.Holds es) (allocated : Bool) (i : Nat) (x : α) :
    ∃ es', Sent tq es i x (tqSend allocated i x tq) es' := by
  simp only [tqSend]
  split
  · exact ⟨es, .refused (by decide)⟩
  · exact tqSendLoop_sent h allocated i x

theorem Sent.signals {es es' : List (FifoElem α)} {i : Nat} {x : α} {o : TqOutcome α}
    (h : Sent tq es i x o es') (hes : tq.fifo.Holds es) :
    o.state.fifo.Holds es' ∧ (o.ret = .none → Blocked o.state (.send i x)) ∧
      ∀ w, o.wakes = false → Blocked tq w → Blocked o.state w := by
  cases h with
  | waits hblocked => exact ⟨hes, fun _ => hblocked, fun _ _ => id⟩
  | refused => exact ⟨hes, by simp, fun _ _ => id⟩
  | finished _ hrecv =>
      refine ⟨hes, by simp, ?_⟩
      intro w _ hw
      cases w with
      | send j y => exact ⟨by rw [sendFinished_recv]; exact hw.1, hw.2⟩
      | receive =>
          obtain ⟨hdropped, hquiet, j, hj, hlive⟩ := (blocked_receive hes).mp hw
          refine (@blocked_receive _ (tq.sendFinished i) es hes).mpr ⟨?_, ?_, j, hj, ?_⟩
          · simpa using hdropped
          · intro k hk
            by_cases hki : k = i
            · subst hki
              exact .inr (by rw [sendFinished_recv]; exact hrecv)
            · have hsame : (tq.sendFinished i).finished k = tq.finished k :=
                Function.update_of_ne hki _ _
              rw [hsame]
              exact hquiet k hk
          · rw [sendFinished_recv]
            exact hlive
      | sendFinish | receiveFinish => exact hw
  | accepted _ hfifo => exact ⟨hfifo, by simp, by simp⟩

theorem Received.fifo {es es' : List (FifoElem α)} {received : TqRet α × ThreadQueue α}
    (h : Received tq es received es') : received.2.fifo.Holds es' := by
  cases h with
  | elem _ _ _ hfifo => exact hfifo
  | eof _ hfifo | final _ hfifo | again _ hfifo => exact hfifo

theorem tqReceive_waits (h : tq.fifo.Holds es) (hret : (tqReceive tq).ret = .none) :
    Blocked (tqReceive tq).state .receive := by
  obtain ⟨es', hreceived⟩ := receiveLocked_received h
  simp only [tqReceive] at hret ⊢
  generalize receiveLocked tq = received at hreceived hret
  cases hreceived with
  | again _ hfifo hquiet hi hlive =>
      exact (blocked_receive hfifo).mpr ⟨by simp, hquiet, _, hi, hlive⟩
  | elem => simp [zero_ne_eagain] at hret
  | eof | final => simp [TqRet.ofCode, eof_ne_eagain] at hret

section Signals

variable [DecidableEq τ]

theorem tqReceive_alone (h : tq.fifo.Holds es) {consumer t u : τ} {nbStreams : Nat} {w : Request α}
    (hne : t ≠ u) (ht : @may α τ _ consumer nbStreams t .receive = true)
    (hu : may consumer nbStreams u w = true) (hsilent : (tqReceive tq).wakes = false) : ¬ Blocked tq w := by
  intro hblocked
  cases w with
  | send i x => exact (blocked_send h hblocked).2 (tqReceive_silent h hsilent)
  | receive =>
      simp only [may, decide_eq_true_eq] at ht hu
      exact hne (ht.trans hu.symm)
  | sendFinish | receiveFinish => exact hblocked

theorem tqCode_signals (consumer : τ) (nbStreams : Nat) :
    (tqCode α).Signals (may consumer nbStreams) fun tq => ∃ es, tq.fifo.Holds es where
  enter := by
    rintro allocated t w tq _ ⟨es, hes⟩
    cases w with
    | send i x =>
        obtain ⟨es', hsent⟩ := tqSend_sent hes allocated i x
        exact ⟨es', (hsent.signals hes).1⟩
    | receive =>
        obtain ⟨es', hreceived⟩ := receiveLocked_received hes
        exact ⟨es', hreceived.fifo⟩
    | sendFinish | receiveFinish => exact ⟨es, hes⟩
  resume := by
    rintro allocated t w tq _ ⟨es, hes⟩
    cases w with
    | send i x =>
        obtain ⟨es', hsent⟩ := tqSendLoop_sent hes allocated i x
        exact ⟨es', (hsent.signals hes).1⟩
    | receive =>
        obtain ⟨es', hreceived⟩ := receiveLocked_received hes
        exact ⟨es', hreceived.fifo⟩
    | sendFinish | receiveFinish => exact ⟨es, hes⟩
  enterWaits := by
    rintro allocated w tq ⟨es, hes⟩ hret
    cases w with
    | send i x =>
        obtain ⟨es', hsent⟩ := tqSend_sent hes allocated i x
        exact (hsent.signals hes).2.1 hret
    | receive => exact tqReceive_waits hes hret
    | sendFinish | receiveFinish => cases hret
  resumeWaits := by
    rintro allocated w tq ⟨es, hes⟩ hret
    cases w with
    | send i x =>
        obtain ⟨es', hsent⟩ := tqSendLoop_sent hes allocated i x
        exact (hsent.signals hes).2.1 hret
    | receive => exact tqReceive_waits hes hret
    | sendFinish | receiveFinish => cases hret
  enterSilent := by
    rintro allocated t u w w' tq ⟨es, hes⟩ hne hw hw' hsilent hblocked
    cases w with
    | send i x =>
        obtain ⟨es', hsent⟩ := tqSend_sent hes allocated i x
        exact (hsent.signals hes).2.2 w' hsilent hblocked
    | receive => exact absurd hblocked (tqReceive_alone hes hne hw hw' hsilent)
    | sendFinish | receiveFinish => cases hsilent
  resumeSilent := by
    rintro allocated t u w w' tq ⟨es, hes⟩ hne hw hw' hsilent hblocked
    cases w with
    | send i x =>
        obtain ⟨es', hsent⟩ := tqSendLoop_sent hes allocated i x
        exact (hsent.signals hes).2.2 w' hsilent hblocked
    | receive => exact absurd hblocked (tqReceive_alone hes hne hw hw' hsilent)
    | sendFinish | receiveFinish => cases hsilent

end Signals

end P2PFFmpeg.Tools
