import P2PFFmpeg.Sender.Selection

namespace P2PFFmpeg.Sender

open Library Library.Program Library.Transition Library.Concurrent Message Peer

/-- The selected node exists and has the status Selected. -/
def StreamTarget (s : State) : Prop :=
  ∃ p n, s.peer.selectedNode = some p ∧ s.peer.peerConnectionNodeCaches.get? p = some n ∧
    n.status = .selected

/-- The signalling thread has published the streaming state, and the node that
it stands for is not stored yet, or not marked yet. -/
def Window (s : State) : Prop :=
  (s.peer.selectedNode = none ∧ ∃ p, s.todo = [.storeSelected p, .storeStatus p]) ∨
    ∃ p, s.todo = [.storeStatus p]

/-- No state change is reported for the connection of the selected node. -/
def QuietSelection (s : State) : Label → Prop
  | .callback (.stateChange p _) => s.peer.selectedNode ≠ some p
  | _ => True

/-- Besides, get_state_thread_safe is not called inside the window. -/
def ReadsOutsideWindow (s : State) (l : Label) : Prop :=
  QuietSelection s l ∧ ∀ input, l = .thread input → s.thread.ReadsState →
    s.context.currentState = .streaming → ¬ Window s

theorem pending_setStreaming {ops rest : List SenderOp} (h : Pending ops)
    (ho : ops = .setState .streaming :: rest) : ∃ p, rest = [.storeSelected p, .storeStatus p] := by
  obtain ⟨c, msg, plan, hplan, hsuffix⟩ := h
  subst ho
  have hmem := hsuffix.subset List.mem_cons_self
  cases hplan with
  | streamRequest p hacc => exact ⟨p, by simpa [List.suffix_cons_iff] using hsuffix⟩
  | _ => simp at hmem

variable {s : State} {l : Label}

theorem next_streaming {s t : State} (hr : system.Reachable s) (h : threads.next s l = some t)
    (ht : t.context.currentState = .streaming) : s.context.currentState = .streaming ∨
      ∃ p, t.todo = [.storeSelected p, .storeStatus p] := by
  rw [next_currentState h] at ht
  rcases raised_eq s.context.currentState (sets s l) with hold | hnew
  · exact Or.inl (hold ▸ ht)
  · rw [ht] at hnew
    right
    cases l with
    | message env msg => cases hnew
    | callback event => cases hnew
    | thread input =>
        cases hpc : s.thread <;> simp [sets, hpc, MuxPc.sets] at hnew
    | callbackOp env =>
        obtain ⟨op, hop, hset⟩ := Option.bind_eq_some_iff.mp hnew
        rw [pool_reachable hr op (List.mem_of_mem_head? hop)] at hset
        cases hset
    | handlerOp env =>
        obtain ⟨op, hop, hset⟩ := Option.bind_eq_some_iff.mp hnew
        cases op with
        | setState st =>
            cases hset
            obtain ⟨rest, htodo⟩ := List.head?_eq_some_iff.mp hop
            obtain ⟨p, hrest⟩ := pending_setStreaming (pending_reachable hr) htodo
            refine ⟨p, ?_⟩
            rw [next_handlerOp h htodo rfl]
            exact hrest
        | _ => cases hset

theorem streaming_stored (hr : system.Reachable s) (hs : s.context.currentState = .streaming) :
    s.peer.selectedNode ≠ none ∨ ∃ p, s.todo = [.storeSelected p, .storeStatus p] := by
  refine System.Reachable.invariant (fun s => s.context.currentState = .streaming →
    s.peer.selectedNode ≠ none ∨ ∃ p, s.todo = [.storeSelected p, .storeStatus p]) ?_ ?_ hr hs
  · rintro s ⟨streams, roomId, waitTimeout, rfl⟩ hs
    cases hs
  · intro s l t hr ih h ht
    rcases next_selectedNode hr h with hsel | ⟨_, p, _, _, _, hp⟩
    · rcases next_streaming hr h ht with hs | hnew
      · rcases ih hs with hne | ⟨p, htodo⟩
        · rw [hsel]
          exact Or.inl hne
        · rcases next_planned h with hsame | ⟨env, op, rfl, hop⟩ | ⟨_, _, _, hnil, _⟩
          · exact Or.inr ⟨p, by rw [hsame, htodo]⟩
          · rw [htodo] at hop
            obtain ⟨rfl, _⟩ := List.cons.inj hop
            rw [(next_storeSelected h htodo).1]
            exact Or.inl (by simp)
          · rw [htodo] at hnil
            cases hnil
      · exact Or.inr hnew
    · rw [hp]
      exact Or.inl (by simp)

theorem storeStatus_unmarked (hr : system.Reachable s) {p : Ptr} (hp : .storeStatus p ∈ s.todo) :
    ∃ n, s.peer.peerConnectionNodeCaches.get? p = some n ∧ n.status ≠ .selected := by
  refine System.Reachable.invariant (fun s => ∀ p, .storeStatus p ∈ s.todo →
    ∃ n, s.peer.peerConnectionNodeCaches.get? p = some n ∧ n.status ≠ .selected) ?_ ?_ hr p hp
  · rintro s ⟨streams, roomId, waitTimeout, rfl⟩ p hp
    exact absurd hp List.not_mem_nil
  · intro s l t hr ih h p hp
    have hkept : ∀ n, s.peer.peerConnectionNodeCaches.get? p = some n → n.status ≠ .selected →
        ∃ m, t.peer.peerConnectionNodeCaches.get? p = some m ∧ m.status ≠ .selected := by
      intro n hn hne
      obtain ⟨m, hm, _⟩ := (next_frame h).kept p n (not_lost s l p) hn
      refine ⟨m, hm, ?_⟩
      intro hsel
      rcases next_selected hr h hm hsel with ⟨n', hn', hs⟩ | ⟨env, _, htodo⟩
      · rw [hn] at hn'
        cases hn'
        exact hne hs
      · have hlast := pending_storeStatus (pending_reachable hr) (htodo ▸ List.mem_cons_self)
        rw [htodo] at hlast
        simp [acceptedOps, List.suffix_cons_iff] at hlast
        rw [hlast] at hp
        cases hp
    rcases next_planned h with hsame | ⟨env, op, rfl, hop⟩ | ⟨env, msg, rfl, _, hplan⟩
    · obtain ⟨n, hn, hne⟩ := ih p (hsame ▸ hp)
      exact hkept n hn hne
    · obtain ⟨n, hn, hne⟩ := ih p (by rw [hop]; exact List.mem_cons_of_mem _ hp)
      exact hkept n hn hne
    · generalize htodo : t.todo = ops at hp hplan
      cases hplan with
      | streamRequest q hacc =>
          have hq : p = q := by simpa using hp
          subst hq
          obtain ⟨_, _, n, hn, hconnected, _⟩ := hacc
          exact hkept n hn (by rw [hconnected]; decide)
      | _ => simp at hp

/-- While the selected node hears of no state change, it has the status
Selected as soon as it is stored. -/
theorem selected_marked (hr : (system.restrict QuietSelection).Reachable s) {p : Ptr}
    (hs : s.peer.selectedNode = some p) : s.todo = [.storeStatus p] ∨
      ∃ n, s.peer.peerConnectionNodeCaches.get? p = some n ∧ n.status = .selected := by
  refine System.Reachable.invariant (fun s => ∀ p, s.peer.selectedNode = some p →
    s.todo = [.storeStatus p] ∨
      ∃ n, s.peer.peerConnectionNodeCaches.get? p = some n ∧ n.status = .selected) ?_ ?_ hr p hs
  · rintro s ⟨streams, roomId, waitTimeout, rfl⟩ p hp
    cases hp
  · intro s l t hr ih hn p hp
    have hr := hr.of_restrict
    obtain ⟨hquiet, h⟩ := System.restrict_next.mp hn
    rcases next_selectedNode hr h with hsel | ⟨env, q, ops, rfl, htodo, hq⟩
    · rw [hsel] at hp
      rcases ih p hp with htodo | ⟨n, hn, hmarked⟩
      · rcases next_planned h with hsame | ⟨env, op, rfl, hop⟩ | ⟨_, _, _, hnil, _⟩
        · exact Or.inl (by rw [hsame, htodo])
        · rcases next_storeStatus h htodo with ⟨_, n, _, hm⟩ | ⟨hnone, _⟩
          · exact Or.inr ⟨_, hm, rfl⟩
          · obtain ⟨n, hn, _⟩ := storeStatus_unmarked hr (htodo ▸ List.mem_cons_self)
            rw [hn] at hnone
            cases hnone
        · rw [htodo] at hnil
          cases hnil
      · obtain ⟨m, hm, hsame⟩ := (next_frame h).kept p n (not_lost s l p) hn
        refine Or.inr ⟨m, hm, ?_⟩
        rcases hsame.status with hst | hw
        · rw [hst, hmarked]
        · rcases permit_marked hr hw with ⟨_, _, _, _, hst⟩ | ⟨state, rfl, _⟩
          · exact hst
          · exact absurd hp hquiet
    · have hrest := pending_storeSelected (pending_reachable hr) htodo
      obtain ⟨hstored, hops⟩ := next_storeSelected h htodo
      rw [hstored] at hp
      cases hp
      exact Or.inl (by rw [hops, hrest])

theorem streamTarget_iff (hr : (system.restrict QuietSelection).Reachable s)
    (hs : s.context.currentState = .streaming) : StreamTarget s ↔ ¬ Window s := by
  constructor
  · rintro ⟨p, n, hsel, hn, hmarked⟩ (⟨hnone, _⟩ | ⟨q, htodo⟩)
    · rw [hsel] at hnone
      cases hnone
    · rw [stored_selected hr.of_restrict htodo] at hsel
      cases hsel
      have hmem : .storeStatus p ∈ s.todo := by simp [htodo]
      obtain ⟨m, hm, hne⟩ := storeStatus_unmarked hr.of_restrict hmem
      rw [hn] at hm
      cases hm
      exact hne hmarked
  · intro hw
    have hsome : s.peer.selectedNode ≠ none := by
      rcases streaming_stored hr.of_restrict hs with hne | hstore
      · exact hne
      · exact fun hnone => hw (Or.inl ⟨hnone, hstore⟩)
    obtain ⟨p, hp⟩ := Option.ne_none_iff_exists'.mp hsome
    rcases selected_marked hr hp with htodo | ⟨n, hn, hmarked⟩
    · exact absurd (Or.inr ⟨p, htodo⟩) hw
    · exact ⟨p, n, hp, hn, hmarked⟩

theorem edge_to_initReturned {c : P2PRtpMuxContext} {a : MuxPc} (h : MuxEdge c a (.initReturned 0)) :
    a = .readState ∧ c.currentState = .streaming := by
  cases h with
  | connectFailed ret hneg => omega
  | streaming hs => exact ⟨rfl, hs⟩
  | noHeader ret hne => exact absurd rfl hne

theorem edge_to_headerReturned {c : P2PRtpMuxContext} {a : MuxPc} {ret : Int}
    (h : MuxEdge c a (.headerReturned ret)) :
    (a = .initReturned 0 ∧ (c.p2pContext.selectedNode = none ∨ ret = 0)) ∨
      a = .headerReturned ret := by
  cases h with
  | noReceiver hnone => exact Or.inl ⟨rfl, Or.inl hnone⟩
  | header => exact Or.inl ⟨rfl, Or.inr rfl⟩
  | noPacket ret hne => exact Or.inr rfl

theorem selectedNode_kept {s t : State} (hr : system.Reachable s) (h : threads.next s l = some t)
    (hs : s.peer.selectedNode ≠ none) : t.peer.selectedNode ≠ none := by
  rcases next_selectedNode hr h with hsel | ⟨_, _, _, _, _, hp⟩
  · rwa [hsel]
  · rw [hp]
    simp

structure Started (s : State) : Prop where
  init : s.thread = .initReturned 0 → s.peer.selectedNode ≠ none
  header : ∀ ret, s.thread = .headerReturned ret → ret = 0

theorem started_step {s t : State} (hr : (system.restrict ReadsOutsideWindow).Reachable s)
    (hq : (system.restrict QuietSelection).Reachable s) (hi : Started s) (hc : ReadsOutsideWindow s l)
    (h : threads.next s l = some t) : Started t where
  init := by
    intro hpc
    rcases next_pc h with hsame | ⟨⟨input, rfl⟩, hedge⟩
    · rw [hsame] at hpc
      exact selectedNode_kept hr.of_restrict h (hi.init hpc)
    · rw [hpc] at hedge
      obtain ⟨hread, hs⟩ := edge_to_initReturned hedge
      have hw := hc.2 input rfl (by rw [hread]; trivial) hs
      obtain ⟨p, n, hsel, _⟩ := (streamTarget_iff hq hs).mpr hw
      exact selectedNode_kept hr.of_restrict h (by rw [hsel]; simp)
  header := by
    intro ret hpc
    rcases next_pc h with hsame | ⟨⟨input, rfl⟩, hedge⟩
    · exact hi.header ret (hsame ▸ hpc)
    · rw [hpc] at hedge
      rcases edge_to_headerReturned hedge with ⟨hinit, hnone | hret⟩ | hheader
      · exact absurd hnone (hi.init hinit)
      · exact hret
      · exact hi.header ret hheader

theorem started_reachable (h : (system.restrict ReadsOutsideWindow).Reachable s) :
    (system.restrict QuietSelection).Reachable s ∧ Started s := by
  refine System.Reachable.invariant
    (fun s => (system.restrict QuietSelection).Reachable s ∧ Started s) ?_ ?_ h
  · rintro s hs
    refine ⟨.init hs, ?_⟩
    obtain ⟨streams, roomId, waitTimeout, rfl⟩ := hs
    constructor
    · intro hpc
      cases hpc
    · intro ret hpc
      cases hpc
  · rintro s l t hr ⟨hq, hi⟩ hn
    obtain ⟨hc, h⟩ := System.restrict_next.mp hn
    exact ⟨hq.step (System.restrict_next.mpr ⟨hc.1, h⟩), started_step hr hq hi hc h⟩

/-- Where the streaming state has its node, and that a run that never reads the
state inside the window has a receiver to stream to. -/
theorem sender_start_up (s : State) :
    ((system.restrict QuietSelection).Reachable s → s.context.currentState = .streaming →
      (StreamTarget s ↔ ¬ Window s)) ∧
    ((system.restrict ReadsOutsideWindow).Reachable s →
      (∀ input t, (system.restrict ReadsOutsideWindow).next s (.thread input) = some t →
        s.thread.ReadsState → s.context.currentState = .streaming → StreamTarget s) ∧
      ∀ ret, s.thread = .headerReturned ret → ret = 0) := by
  refine ⟨streamTarget_iff, ?_⟩
  intro h
  obtain ⟨hq, hi⟩ := started_reachable h
  refine ⟨?_, hi.header⟩
  intro input t hn hread hs
  obtain ⟨hc, _⟩ := System.restrict_next.mp hn
  exact (streamTarget_iff hq hs).mpr (hc.2 input rfl hread hs)

def MuxInput.succeeding : MuxInput where
  env := .succeeding 1 1
  connect := 0
  timedOut := false
  packet := some 0
  writeFrame := 0

def muxerWaits : List Label := List.replicate 4 (.thread .succeeding)

def quietCheck (s : State) : Label → Bool
  | .callback (.stateChange p _) => s.peer.selectedNode != some p
  | _ => true

theorem quietSelection_of_check (s : State) (l : Label) (h : quietCheck s l = true) : QuietSelection s l := by
  cases l with
  | callback event =>
      cases event with
      | stateChange p state =>
          change s.peer.selectedNode ≠ some p
          simpa [quietCheck] using h
      | event event => trivial
  | _ => trivial

/-- The signalling thread has accepted a request and published the state, and
then the muxer runs on to write_header before the node is stored. -/
def headerTooEarly : List Label :=
  muxerWaits ++ receiverConnects "a" 1 0 ++ (streamRequested "a").take 2 ++
    List.replicate 2 (.thread .succeeding)

/-- The muxer reads the streaming state before the node is stored, and
write_header fails after an initialisation that succeeded. -/
theorem no_receiver_selected :
    ¬ ∀ s, (system.restrict QuietSelection).Reachable s →
      (s.thread.ReadsState → s.context.currentState = .streaming → StreamTarget s) ∧
        s.thread ≠ .headerReturned averrorEinval := by
  intro h
  have hrun : ((system.guard quietCheck).run headerTooEarly State.start).map
      (fun s => s.thread) = some (.headerReturned averrorEinval) := by decide +kernel
  obtain ⟨s, hs, hpc⟩ := Option.map_eq_some_iff.mp hrun
  exact (h s (.of_guard quietSelection_of_check ⟨_, _, _, rfl⟩ hs)).2 hpc

def headerInTime : List Label :=
  muxerWaits ++ receiverConnects "a" 1 0 ++ streamRequested "a" ++
    List.replicate 2 (.thread .succeeding)

def betweenMessages (s : State) : Label → Bool
  | .thread _ => s.todo.isEmpty
  | l => quietCheck s l

theorem readsOutsideWindow_of_check (s : State) (l : Label) (h : betweenMessages s l = true) :
    ReadsOutsideWindow s l := by
  constructor
  · cases l with
    | thread input => trivial
    | _ => exact quietSelection_of_check s _ h
  · rintro input rfl _ _ (⟨_, p, htodo⟩ | ⟨p, htodo⟩)
    · simp [betweenMessages, htodo] at h
    · simp [betweenMessages, htodo] at h

theorem sender_start_up_in_time :
    ∃ s, s.thread = .headerReturned 0 ∧ StreamTarget s ∧ ∀ ret, s.thread = .headerReturned ret → ret = 0 := by
  have hrun : ((system.guard betweenMessages).run headerInTime State.start).map
      (fun s => (s.thread, s.context.currentState, s.todo)) =
        some (.headerReturned 0, .streaming, []) := by decide +kernel
  obtain ⟨s, hs, hview⟩ := Option.map_eq_some_iff.mp hrun
  obtain ⟨hpc, hrest⟩ := Prod.mk.inj hview
  obtain ⟨hstate, htodo⟩ := Prod.mk.inj hrest
  have hin : (system.restrict ReadsOutsideWindow).Reachable s :=
    .of_guard readsOutsideWindow_of_check ⟨_, _, _, rfl⟩ hs
  have hq : (system.restrict QuietSelection).Reachable s :=
    .of_guard (fun u l hc => (readsOutsideWindow_of_check u l hc).1) ⟨_, _, _, rfl⟩ hs
  refine ⟨s, hpc, ((sender_start_up s).1 hq hstate).mpr ?_, ((sender_start_up s).2 hin).2⟩
  rintro (⟨_, p, hp⟩ | ⟨p, hp⟩)
  · rw [htodo] at hp
    cases hp
  · rw [htodo] at hp
    cases hp

end P2PFFmpeg.Sender
