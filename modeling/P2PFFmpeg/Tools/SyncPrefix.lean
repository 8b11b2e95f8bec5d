import P2PFFmpeg.Tools.SyncFifos

namespace P2PFFmpeg.Tools

open Library Library.Transition Util

section Receive

variable {limiting : List Bool} {sq sq' : SyncQueue} {packets : Nat → List SyncPacket}

def Held (sq : SyncQueue) (packets : Nat → List SyncPacket) (i : Nat) : Prop :=
  ∀ peek rest, packets i = peek :: rest → ¬ Releasable sq i peek

structure Ended (sq : SyncQueue) (packets : Nat → List SyncPacket) : Prop where
  finished : ∀ i < sq.nbStreams, (sq.streams i).finished = true
  held : ∀ i < sq.nbStreams, Held sq packets i
  eof : ∀ i < sq.nbStreams, (nothingFor sq i).ret = averrorEof

/-- A turn of receive_internal: the first packet of a stream, or nothing; and
nothing at all is said when the queue has ended. -/
inductive Got (sq : SyncQueue) (packets : Nat → List SyncPacket) (streamIdx : Option Nat) :
    SqReceived → Prop
  | released {i peek rest} (hi : i < sq.nbStreams) (hpackets : packets i = peek :: rest)
      (hreleasable : Releasable sq i peek) :
      Got sq packets streamIdx ⟨i, some peek,
        sq.set i { sq.streams i with fifo := avFifoDrain2 (sq.streams i).fifo 1 }⟩
  | nothing {ret} (hret : ret = averrorEof ∨ ret = averrorEagain)
      (hheld : ∀ i < sq.nbStreams, (∀ j ∈ streamIdx, j = i) → Held sq packets i)
      (heof : ret = averrorEof ↔ ∀ i < sq.nbStreams, (∀ j ∈ streamIdx, j = i) →
        (nothingFor sq i).ret = averrorEof) :
      Got sq packets streamIdx ⟨ret, none, sq⟩

theorem nothingFor_ret (sq : SyncQueue) (i : Nat) :
    (nothingFor sq i).ret = averrorEof ∨ (nothingFor sq i).ret = averrorEagain := by
  simp only [nothingFor]
  split
  · exact .inl rfl
  · exact .inr rfl

theorem Stored.receiveAny (h : Stored limiting sq packets) (is : List Nat) (nbEof : Nat) :
    (∃ i ∈ is, ∃ peek rest, packets i = peek :: rest ∧ Releasable sq i peek ∧
      receiveAny sq is nbEof = ⟨i, some peek,
        sq.set i { sq.streams i with fifo := avFifoDrain2 (sq.streams i).fifo 1 }⟩) ∨
    (∀ i ∈ is, Held sq packets i) ∧ ∃ nb ≤ nbEof + is.length,
      receiveAny sq is nbEof =
        ⟨if nb = sq.nbStreams then averrorEof else averrorEagain, none, sq⟩ ∧
      (nb = nbEof + is.length ↔ ∀ i ∈ is, (nothingFor sq i).ret = averrorEof) := by
  induction is generalizing nbEof with
  | nil => exact .inr ⟨by simp, nbEof, le_rfl, rfl, by simp⟩
  | cons i is ih =>
      have hreceived := h.receiveForStream i
      simp only [Tools.receiveAny]
      generalize Tools.receiveForStream sq i = received at hreceived
      cases hreceived with
      | @released peek rest hpackets hreleasable =>
          rw [if_neg (by decide : ¬ ((0 : Int) = averrorEof ∨ (0 : Int) = averrorEagain)),
            if_neg (Int.lt_irrefl 0)]
          exact .inl ⟨i, List.mem_cons_self, peek, rest, hpackets, hreleasable, rfl⟩
      | nothing hheld =>
          rw [if_pos (nothingFor_ret sq i)]
          obtain ⟨j, hj, hfound⟩ | ⟨hall, nb, hle, heq, hiff⟩ :=
            ih (nbEof + if (nothingFor sq i).ret = averrorEof then 1 else 0)
          · exact .inl ⟨j, List.mem_cons_of_mem i hj, hfound⟩
          · refine .inr ⟨List.forall_mem_cons.mpr ⟨hheld, hall⟩, nb, ?_, heq, ?_⟩
            · rw [List.length_cons]
              split at hle <;> omega
            · rw [List.forall_mem_cons, ← hiff, List.length_cons]
              by_cases hend : (nothingFor sq i).ret = averrorEof
              · simp only [hend, if_true, true_and]
                omega
              · simp only [hend, if_false, false_and, iff_false] at hle ⊢
                omega

variable {streamIdx : Option Nat}

theorem Stored.receiveInternal (h : Stored limiting sq packets) (hidx : ∀ i ∈ streamIdx, i < sq.nbStreams) :
    Got sq packets streamIdx (receiveInternal sq streamIdx) := by
  cases streamIdx with
  | some i =>
      have hi : i < sq.nbStreams := hidx i rfl
      have hreceived := h.receiveForStream i
      simp only [Tools.receiveInternal]
      generalize Tools.receiveForStream sq i = received at hreceived
      cases hreceived with
      | released hpackets hreleasable =>
          rw [if_neg (Int.lt_irrefl 0)]
          exact .released hi hpackets hreleasable
      | nothing hheld =>
          have hret := nothingFor_ret sq i
          have hneg : (nothingFor sq i).ret < 0 := by
            obtain hret | hret := hret
            · rw [hret]
              decide
            · rw [hret]
              decide
          rw [if_pos hneg]
          refine .nothing hret ?_ ?_
          · intro j _ hj
            rw [← hj i rfl]
            exact hheld
          · constructor
            · intro heof j _ hj
              rw [← hj i rfl]
              exact heof
            · intro hall
              exact hall i hi fun j hj => (Option.some.inj hj).symm
  | none =>
      simp only [Tools.receiveInternal]
      obtain ⟨i, hi, peek, rest, hpackets, hreleasable, heq⟩ | ⟨hheld, nb, hle, heq, hiff⟩ :=
        h.receiveAny (List.range sq.nbStreams) 0
      · rw [heq]
        exact .released (List.mem_range.mp hi) hpackets hreleasable
      · rw [heq]
        simp only [Nat.zero_add, List.length_range, List.mem_range] at hheld hiff
        refine .nothing ?_ (fun i hi _ => hheld i hi) ?_
        · split
          · exact .inl rfl
          · exact .inr rfl
        · by_cases hall : nb = sq.nbStreams
          · rw [if_pos hall]
            exact ⟨fun _ i hi _ => hiff.mp hall i hi, fun _ => rfl⟩
          · rw [if_neg hall]
            refine ⟨fun heq => absurd heq.symm eof_ne_eagain, ?_⟩
            intro hend
            exact absurd (hiff.mpr fun i hi => hend i hi (by simp)) hall

theorem overflowHeartbeat_quiet (h : (overflowHeartbeat sq streamIdx).1 = false) :
    (overflowHeartbeat sq streamIdx).2 = sq := by
  revert h
  simp only [overflowHeartbeat]
  split
  · exact fun _ => rfl
  · split
    · exact fun _ => rfl
    · simp

theorem Stored.receive (h : Stored limiting sq packets) (hidx : ∀ i ∈ streamIdx, i < sq.nbStreams) :
    ∃ turn, (turn = sq ∨ turn = (overflowHeartbeat sq streamIdx).2) ∧
      Got turn packets streamIdx (sqReceive sq streamIdx) := by
  have hfirst := h.receiveInternal hidx
  simp only [sqReceive]
  by_cases hagain : (Tools.receiveInternal sq streamIdx).ret = averrorEagain
  · rw [if_pos hagain]
    have hstate : (Tools.receiveInternal sq streamIdx).state = sq := by
      generalize Tools.receiveInternal sq streamIdx = received at hfirst hagain
      cases hfirst with
      | released =>
          simp only [averrorEagain] at hagain
          omega
      | nothing => rfl
    rw [hstate]
    have hkept := overflowHeartbeat_kept sq streamIdx
    split
    · refine ⟨_, .inr rfl, (h.kept hkept).receiveInternal ?_⟩
      intro i hi
      rw [hkept.nbStreams]
      exact hidx i hi
    · next hquiet =>
        have hsame := overflowHeartbeat_quiet (Bool.not_eq_true _ ▸ hquiet)
        rw [hsame]
        generalize Tools.receiveInternal sq streamIdx = received at hfirst hstate
        subst hstate
        exact ⟨_, .inl rfl, hfirst⟩
  · rw [if_neg hagain]
    exact ⟨sq, .inl rfl, hfirst⟩

theorem Held.alike (h : Alike sq sq') {i : Nat} (hheld : Held sq packets i) : Held sq' packets i := by
  intro peek rest hpackets hreleasable
  apply hheld peek rest hpackets
  simpa only [Releasable, h.headStream, h.headTs, (h.streams _).tb, h.haveLimiting] using hreleasable

theorem nothingFor_eof : (nothingFor sq i).ret = averrorEof ↔
    sq.finished = true ∨ ((sq.streams i).finished = true ∧ avFifoCanRead (sq.streams i).fifo = 0) := by
  simp only [nothingFor]
  split
  · next h => exact ⟨fun _ => h, fun _ => rfl⟩
  · next h => exact ⟨fun heq => absurd heq.symm eof_ne_eagain, fun hyes => absurd hyes h⟩

theorem Ended.alike (h : Ended sq packets) (g : Alike sq sq') : Ended sq' packets where
  finished := by
    intro i hi
    rw [g.nbStreams] at hi
    exact (g.streams i).finished (h.finished i hi)
  held := by
    intro i hi
    rw [g.nbStreams] at hi
    exact (h.held i hi).alike g
  eof := by
    intro i hi
    rw [g.nbStreams] at hi
    refine nothingFor_eof.mpr ((nothingFor_eof.mp (h.eof i hi)).imp g.still ?_)
    rintro ⟨hfinished, hempty⟩
    rw [(g.streams i).fifo]
    exact ⟨(g.streams i).finished hfinished, hempty⟩

theorem Stored.ended (h : Stored limiting sq packets) {received : SqReceived}
    (hgot : Got sq packets none received) (heof : received.ret = averrorEof) : Ended sq packets := by
  cases hgot with
  | released =>
      simp only [averrorEof] at heof
      omega
  | nothing _ hheld hiff =>
      have hall : ∀ i < sq.nbStreams, (nothingFor sq i).ret = averrorEof :=
        fun i hi => hiff.mp heof i hi (by simp)
      refine ⟨?_, fun i hi => hheld i hi (by simp), hall⟩
      intro i hi
      cases nothingFor_eof.mp (hall i hi) with
      | inl hdone => exact h.finished hdone i hi
      | inr hthis => exact hthis.1

theorem Ended.receive (h : Ended sq packets) (hstored : Stored limiting sq packets)
    (hidx : ∀ i ∈ streamIdx, i < sq.nbStreams) : sqReceive sq streamIdx = ⟨averrorEof, none, sq⟩ := by
  have hfirst := hstored.receiveInternal hidx
  have heq : Tools.receiveInternal sq streamIdx = ⟨averrorEof, none, sq⟩ := by
    generalize Tools.receiveInternal sq streamIdx = received at hfirst
    cases hfirst with
    | released hi hpackets hreleasable => exact absurd hreleasable (h.held _ hi _ _ hpackets)
    | nothing _ _ heof => rw [heof.mpr fun i hi _ => h.eof i hi]
  simp only [sqReceive, heq]
  rw [if_neg eof_ne_eagain]

end Receive

def SqEvent.Ends (e : SqEvent) : Prop := e.call = .receive none ∧ e.ret = averrorEof

def SqCall.Asks : SqCall → Prop
  | .send _ (some _) _ _ | .receive none => True
  | _ => False

structure Recorded (limiting : List Bool) (sq : SyncQueue) (ev : List SqEvent)
    (packets : Nat → List SyncPacket) : Prop where
  stored : Stored limiting sq packets
  order : ∀ i, sentTo i ev = receivedFrom i ev ++ packets i
  ended : (∃ e ∈ ev, e.Ends) → Ended sq packets
  latched : ∀ before e after, ev = before ++ e :: after → (∃ e' ∈ before, e'.Ends) →
    e.call.Asks → e.ret = averrorEof

theorem sentTo_append (i : Nat) (ev ev' : List SqEvent) :
    sentTo i (ev ++ ev') = sentTo i ev ++ sentTo i ev' := List.filterMap_append

theorem receivedFrom_append (i : Nat) (ev ev' : List SqEvent) :
    receivedFrom i (ev ++ ev') = receivedFrom i ev ++ receivedFrom i ev' := List.filterMap_append

section Recorded

variable {limiting : List Bool} {sq sq' : SyncQueue} {ev : List SqEvent}
  {packets packets' : Nat → List SyncPacket}

theorem Recorded.snoc (h : Recorded limiting sq ev packets) {e : SqEvent}
    (hstored : Stored limiting sq' packets')
    (horder : ∀ i, packets i ++ sentTo i [e] = receivedFrom i [e] ++ packets' i)
    (hover : (∃ e' ∈ ev, e'.Ends) ∨ e.Ends → Ended sq' packets')
    (hlatched : (∃ e' ∈ ev, e'.Ends) → e.call.Asks → e.ret = averrorEof) :
    Recorded limiting sq' (ev ++ [e]) packets' where
  stored := hstored
  order := by
    intro i
    rw [sentTo_append, receivedFrom_append, h.order i, List.append_assoc, horder i,
      List.append_assoc]
  ended := by
    rintro ⟨e', he', hends⟩
    apply hover
    cases List.mem_append.mp he' with
    | inl hold => exact .inl ⟨e', hold, hends⟩
    | inr hnew =>
        rw [List.mem_singleton.mp hnew] at hends
        exact .inr hends
  latched := by
    intro before e' after hsplit
    rcases List.eq_nil_or_concat after with rfl | ⟨rest, last, rfl⟩
    · obtain ⟨rfl, heq⟩ := List.append_inj' hsplit rfl
      cases heq
      exact hlatched
    · rw [List.concat_eq_append, ← List.cons_append, ← List.append_assoc] at hsplit
      exact h.latched before e' rest (List.append_inj' hsplit rfl).1

theorem Recorded.alike (h : Recorded limiting sq ev packets) (g : Alike sq sq') {e : SqEvent}
    (hsent : ∀ i, sentTo i [e] = []) (hreceived : ∀ i, receivedFrom i [e] = [])
    (hasks : ¬ e.call.Asks) (hends : ¬ e.Ends) : Recorded limiting sq' (ev ++ [e]) packets := by
  refine h.snoc (h.stored.kept g.toKept) ?_ ?_ (fun _ hyes => absurd hyes hasks)
  · intro i
    rw [hsent, hreceived, List.append_nil, List.nil_append]
  · rintro (hover | hyes)
    · exact (h.ended hover).alike g
    · exact absurd hyes hends

theorem Recorded.send (h : Recorded limiting sq ev packets) {i : Nat} (hi : i < sq.nbStreams)
    (frame : SyncPacket) {allocated fifoAllocated : Bool} {ret : Int}
    (hsend : sqSend sq i (some frame) allocated fifoAllocated = some (ret, sq')) :
    ∃ packets', Recorded limiting sq'
      (ev ++ [⟨.send i (some frame) allocated fifoAllocated, ret, none⟩]) packets' := by
  have hends : ¬ SqEvent.Ends ⟨.send i (some frame) allocated fifoAllocated, ret, none⟩ := by
    rintro ⟨hcall, _⟩
    cases hcall
  by_cases hover : ∃ e ∈ ev, e.Ends
  · -- the stream is finished
    have hended := h.ended hover
    simp only [sqSend, hended.finished i hi, if_true, Option.some.injEq, Prod.mk.injEq] at hsend
    obtain ⟨rfl, rfl⟩ := hsend
    refine ⟨packets, h.snoc h.stored ?_ (fun _ => hended) fun _ _ => rfl⟩
    intro j
    simp [sentTo, receivedFrom, averrorEof]
  · obtain ⟨hneg, hstored⟩ | ⟨rfl, hstored⟩ := h.stored.send hsend
    · refine ⟨packets, h.snoc hstored ?_ ?_ fun hyes => absurd hyes hover⟩
      · intro j
        have hne : ¬ (i = j ∧ ret = 0) := by
          rintro ⟨_, rfl⟩
          exact Int.lt_irrefl 0 hneg
        simp [sentTo, receivedFrom, hne]
      · rintro (hyes | hyes)
        · exact absurd hyes hover
        · exact absurd hyes hends
    · refine ⟨_, h.snoc hstored ?_ ?_ fun hyes => absurd hyes hover⟩
      · intro j
        by_cases hj : i = j
        · subst hj
          simp [sentTo, receivedFrom]
        · simp [sentTo, receivedFrom, hj, Function.update_of_ne (Ne.symm hj)]
      · rintro (hyes | hyes)
        · exact absurd hyes hover
        · exact absurd hyes hends

theorem Recorded.receive (h : Recorded limiting sq ev packets) {streamIdx : Option Nat}
    (hidx : ∀ i ∈ streamIdx, i < sq.nbStreams) : ∃ packets', Recorded limiting (sqReceive sq streamIdx).state
      (ev ++ [⟨.receive streamIdx, (sqReceive sq streamIdx).ret, (sqReceive sq streamIdx).frame⟩])
      packets' := by
  by_cases hover : ∃ e ∈ ev, e.Ends
  · have hended := h.ended hover
    rw [hended.receive h.stored hidx]
    refine ⟨packets, h.snoc h.stored ?_ (fun _ => hended) fun _ _ => rfl⟩
    intro j
    simp [sentTo, receivedFrom]
  · obtain ⟨turn, hturn, hgot⟩ := h.stored.receive hidx
    have hkept : Kept sq turn := by
      obtain rfl | rfl := hturn
      · exact .refl _
      · exact overflowHeartbeat_kept sq streamIdx
    have hstored := h.stored.kept hkept
    have hended : streamIdx = none → (sqReceive sq streamIdx).ret = averrorEof →
        Ended turn packets := by
      rintro rfl heof
      exact hstored.ended hgot heof
    generalize sqReceive sq streamIdx = received at hgot hended
    cases hgot with
    | @released i peek rest hi hpackets hreleasable =>
        refine ⟨_, h.snoc (hstored.released hpackets) ?_ ?_ fun hyes => absurd hyes hover⟩
        · intro j
          by_cases hj : i = j
          · subst hj
            simp [sentTo, receivedFrom, hpackets]
          · simp [sentTo, receivedFrom, hj, Function.update_of_ne (Ne.symm hj)]
        · rintro (hyes | ⟨_, heof⟩)
          · exact absurd hyes hover
          · simp only [averrorEof] at heof
            omega
    | nothing =>
        refine ⟨packets, h.snoc hstored ?_ ?_ fun hyes => absurd hyes hover⟩
        · intro j
          simp [sentTo, receivedFrom]
        · rintro (hyes | ⟨hcall, heof⟩)
          · exact absurd hyes hover
          · cases hcall
            exact hended rfl heof

theorem Recorded.run (h : Recorded limiting sq ev packets) {call : SqCall} {received : SqReceived}
    (hrun : call.run sq = some received) :
    ∃ packets', Recorded limiting received.state (ev ++ [⟨call, received.ret, received.frame⟩])
      packets' := by
  cases call with
  | send i frame allocated fifoAllocated =>
      simp only [SqCall.run] at hrun
      split at hrun
      · next hi =>
          obtain ⟨⟨ret, sq'⟩, hsend, rfl⟩ := Option.map_eq_some_iff.mp hrun
          cases frame with
          | none =>
              cases hsend
              refine ⟨packets, h.alike (finishStream_alike sq i) ?_ ?_ id ?_⟩
              · simp [sentTo]
              · simp [receivedFrom]
              · rintro ⟨hcall, _⟩
                cases hcall
          | some frame => exact h.send hi frame hsend
      · cases hrun
  | limitFrames i frames =>
      simp only [SqCall.run] at hrun
      split at hrun
      · cases hrun
        refine ⟨packets, h.alike (sqLimitFrames_alike sq i frames) ?_ ?_ id ?_⟩
        · simp [sentTo]
        · simp [receivedFrom]
        · rintro ⟨hcall, _⟩
          cases hcall
      · cases hrun
  | receive streamIdx =>
      simp only [SqCall.run] at hrun
      split at hrun
      · next hidx =>
          cases hrun
          exact h.receive hidx
      · cases hrun

end Recorded

theorem syncing_recorded {bufSizeUs : Int} {limiting : List Bool} {s : SyncQueue × List SqEvent}
    (h : ((syncing bufSizeUs limiting).observed sqEvents).Reachable s) :
    ∃ packets, Recorded limiting s.1 s.2 packets := by
  refine System.Reachable.invariant (fun s => ∃ packets, Recorded limiting s.1 s.2 packets) ?_ ?_ h
  · rintro ⟨sq, ev⟩ ⟨hsq, hev⟩
    obtain rfl : sq = sqOpen bufSizeUs limiting := hsq
    obtain rfl : ev = [] := hev
    exact ⟨_, (opened bufSizeUs limiting).stored, fun _ => rfl, by simp, by simp⟩
  · rintro s call t _ ⟨packets, hs⟩ hn
    obtain ⟨hnext, hev⟩ := System.observed_next.mp hn
    obtain ⟨received, hrun, hstate⟩ := Option.map_eq_some_iff.mp hnext
    obtain ⟨packets', hrecorded⟩ := hs.run hrun
    refine ⟨packets', ?_⟩
    rw [hev, ← hstate]
    simpa [sqEvents, hrun] using hrecorded

end P2PFFmpeg.Tools
