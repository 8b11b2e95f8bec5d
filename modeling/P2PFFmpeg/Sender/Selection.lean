import P2PFFmpeg.Sender.Runs

namespace P2PFFmpeg.Sender

open Library Library.Program Library.Transition Library.Concurrent Message Peer

theorem statusOfRtcState_ne_selected (state : RtcState) : statusOfRtcState state ≠ .selected := by
  cases state <;> decide

def acceptedOps (p : Ptr) : List SenderOp := [.setState .streaming, .storeSelected p, .storeStatus p]

def Pending (ops : List SenderOp) : Prop := ∃ c msg plan, Planned c msg plan ∧ ops <:+ plan

variable {s t : State} {l : Label} {p : Ptr} {ops : List SenderOp}

theorem pending_storeStatus (h : Pending ops) (hp : .storeStatus p ∈ ops) : ops <:+ acceptedOps p := by
  obtain ⟨c, msg, plan, hplan, hsuffix⟩ := h
  have hmem := hsuffix.subset hp
  cases hplan with
  | streamRequest q hacc =>
      have hq : p = q := by simpa using hmem
      subst hq
      exact hsuffix
  | _ => simp at hmem

theorem pending_storeSelected {ops rest : List SenderOp} (h : Pending ops)
    (hp : ops = .storeSelected p :: rest) : rest = [.storeStatus p] := by
  obtain ⟨c, msg, plan, hplan, hsuffix⟩ := h
  subst hp
  have hmem := hsuffix.subset List.mem_cons_self
  cases hplan with
  | streamRequest q hacc =>
      have hq : p = q := by simpa using hmem
      subst hq
      simpa [List.suffix_cons_iff] using hsuffix
  | _ => simp at hmem

theorem pending_before_storeStatus {op : SenderOp} {rest : List SenderOp}
    (h : Pending (op :: .storeStatus p :: rest)) : op = .storeSelected p := by
  have hsuffix := pending_storeStatus h (List.mem_cons_of_mem _ List.mem_cons_self)
  simp [acceptedOps, List.suffix_cons_iff] at hsuffix
  exact hsuffix.1

theorem next_planned (h : threads.next s l = some t) :
    t.todo = s.todo ∨ (∃ env op, l = .handlerOp env ∧ s.todo = op :: t.todo) ∨
      ∃ env msg, l = .message env msg ∧ s.todo = [] ∧ Planned s.peer msg t.todo := by
  rcases next_todo h with ⟨htodo, _⟩ | ⟨env, op, hl, htodo, _⟩ | ⟨env, msg, hl, htodo, hv, _⟩
  · exact Or.inl htodo
  · exact Or.inr (Or.inl ⟨env, op, hl, htodo⟩)
  · obtain ⟨ret, hret⟩ := threads_head hv
    exact Or.inr (Or.inr ⟨env, msg, hl, htodo, senderHead_planned hret⟩)

theorem pending_reachable (h : system.Reachable s) : Pending s.todo := by
  refine System.Reachable.invariant (fun s => Pending s.todo) ?_ ?_ h
  · rintro s ⟨streams, roomId, waitTimeout, rfl⟩
    exact ⟨⟨none, none, .empty, none, []⟩, ⟨none, none, .unknown⟩, [], .nothing,
      List.suffix_refl _⟩
  · intro s l t _ hs hn
    rcases next_planned hn with htodo | ⟨env, op, _, htodo⟩ | ⟨env, msg, _, _, hplan⟩
    · rw [htodo]
      exact hs
    · obtain ⟨c, msg, plan, hplan, hsuffix⟩ := hs
      rw [htodo] at hsuffix
      exact ⟨c, msg, plan, hplan, (List.suffix_cons op t.todo).trans hsuffix⟩
    · exact ⟨s.peer, msg, t.todo, hplan, List.suffix_refl _⟩

theorem next_selectedNode (hr : system.Reachable s) (h : threads.next s l = some t) :
    t.peer.selectedNode = s.peer.selectedNode ∨
      ∃ env p ops, l = .handlerOp env ∧ s.todo = .storeSelected p :: ops ∧
        t.peer.selectedNode = some p := by
  rcases (next_frame h).selectedNode with hs | hs
  · exact Or.inl hs
  · cases l with
    | handlerOp env =>
        cases htodo : s.todo with
        | nil =>
            simp only [permit, htodo] at hs
            exact absurd hs id
        | cons op ops =>
            simp only [permit, htodo, List.head?_cons, Option.map_some, Option.getD_some] at hs
            cases op with
            | storeSelected p => exact Or.inr ⟨env, p, ops, rfl, rfl, hs⟩
            | _ => exact absurd hs id
    | callbackOp env =>
        cases hpool : s.pool with
        | nil =>
            simp only [permit, hpool] at hs
            exact absurd hs id
        | cons op ops =>
            have hop := pool_reachable hr op (by rw [hpool]; exact List.mem_cons_self)
            simp only [permit, hpool, hop, List.head?_cons, Option.map_some, Option.getD_some] at hs
            exact absurd hs id
    | callback event => cases event <;> exact absurd hs id
    | _ => exact absurd hs id

theorem next_storeStatus {env : Env} (h : threads.next s (.handlerOp env) = some t)
    (htodo : s.todo = .storeStatus p :: ops) :
    (t.todo = ops ∧ ∃ n, s.peer.peerConnectionNodeCaches.get? p = some n ∧
      t.peer.peerConnectionNodeCaches.get? p = some { n with status := .selected }) ∨
      (s.peer.peerConnectionNodeCaches.get? p = none ∧ t.peer = s.peer) := by
  cases next_moves h with
  | handlerOp htodo' hr =>
      rw [htodo] at htodo'
      cases htodo'
      have hafter : t.peer = after (markSelected p) s.peer := by
        rw [State.peer, hr.context]
        simp only [threads, runSenderOp, after_onPeer]
        rfl
      rw [markSelected, after_bind, readNode_after] at hafter
      cases hn : s.peer.peerConnectionNodeCaches.get? p with
      | none =>
          rw [readNode_none hn] at hafter
          exact Or.inr ⟨rfl, hafter⟩
      | some n =>
          have hread := readNode_some hn
          rw [hread] at hafter
          left
          constructor
          · rcases hr.control with ⟨_, _, he⟩ | ⟨hv, _⟩
            · rw [he]
            · simp only [threads, runSenderOp, value_onPeer, markSelected, value_bind] at hv
              rw [show value (readNode (some p)) s.context.p2pContext = some n from hread] at hv
              cases hv
          · refine ⟨n, rfl, ?_⟩
            rw [hafter]
            change (s.peer.peerConnectionNodeCaches.modify p _).get? p = _
            rw [Linked.get?_modify, if_pos rfl, hn]
            rfl

theorem permit_marked (hr : system.Reachable s) {status : PeerConnectionStatus}
    (hw : (permit s l).marked p status) :
    (∃ env ops, l = .handlerOp env ∧ s.todo = .storeStatus p :: ops ∧ status = .selected) ∨
      ∃ state, l = .callback (.stateChange p state) ∧ status = statusOfRtcState state := by
  cases l with
  | handlerOp env =>
      cases htodo : s.todo with
      | nil =>
          simp only [permit, htodo] at hw
          exact absurd hw id
      | cons op ops =>
          simp only [permit, htodo, List.head?_cons, Option.map_some, Option.getD_some] at hw
          cases op with
          | storeStatus q =>
              obtain ⟨rfl, hs⟩ := hw
              exact Or.inl ⟨env, ops, rfl, rfl, hs⟩
          | _ => exact absurd hw id
  | callbackOp env =>
      cases hpool : s.pool with
      | nil =>
          simp only [permit, hpool] at hw
          exact absurd hw id
      | cons op ops =>
          have hop := pool_reachable hr op (by rw [hpool]; exact List.mem_cons_self)
          simp only [permit, hpool, hop, List.head?_cons, Option.map_some, Option.getD_some] at hw
          exact absurd hw id
  | callback event =>
      cases event with
      | stateChange node state =>
          obtain ⟨rfl, hs⟩ := hw
          exact Or.inr ⟨state, rfl, hs⟩
      | event event => exact absurd hw id
  | _ => exact absurd hw id

theorem next_selected (hr : system.Reachable s) (h : threads.next s l = some t) {m : PeerConnectionNode}
    (hm : t.peer.peerConnectionNodeCaches.get? p = some m) (hsel : m.status = .selected) :
    (∃ n, s.peer.peerConnectionNodeCaches.get? p = some n ∧ n.status = .selected) ∨
      ∃ env, l = .handlerOp env ∧ s.todo = .storeStatus p :: t.todo := by
  have hmarked : (permit s l).marked p .selected →
      (∃ n, s.peer.peerConnectionNodeCaches.get? p = some n ∧ n.status = .selected) ∨
        ∃ env, l = .handlerOp env ∧ s.todo = .storeStatus p :: t.todo := by
    intro hw
    rcases permit_marked hr hw with ⟨env, ops, rfl, htodo, _⟩ | ⟨state, _, hs⟩
    · rcases next_storeStatus h htodo with ⟨hops, _⟩ | ⟨_, hsame⟩
      · exact Or.inr ⟨env, rfl, by rw [htodo, hops]⟩
      · exact Or.inl ⟨m, hsame ▸ hm, hsel⟩
    · exact absurd hs.symm (statusOfRtcState_ne_selected state)
  rcases (next_frame h).origin p m hm with ⟨n, hn, hsame⟩ | ⟨_, hs | hw, _⟩
  · rcases hsame.status with hs | hw
    · exact Or.inl ⟨n, hn, hs ▸ hsel⟩
    · exact hmarked (hsel ▸ hw)
  · rw [hsel] at hs
    cases hs
  · exact hmarked (hsel ▸ hw)

theorem next_storeSelected {env : Env} (h : threads.next s (.handlerOp env) = some t)
    (htodo : s.todo = .storeSelected p :: ops) : t.peer.selectedNode = some p ∧ t.todo = ops := by
  rw [next_handlerOp h htodo rfl]
  exact ⟨rfl, rfl⟩

theorem stored_selected (hr : system.Reachable s) (htodo : s.todo = .storeStatus p :: ops) :
    s.peer.selectedNode = some p := by
  refine System.Reachable.invariant (fun s => ∀ p ops, s.todo = .storeStatus p :: ops →
    s.peer.selectedNode = some p) ?_ ?_ hr p ops htodo
  · rintro s ⟨streams, roomId, waitTimeout, rfl⟩ p ops htodo
    cases htodo
  · intro s l t hr ih h p ops htodo
    rcases next_planned h with hsame | ⟨env, op, rfl, hop⟩ | ⟨env, msg, rfl, _, hplan⟩
    · rw [hsame] at htodo
      rcases next_selectedNode hr h with hsel | ⟨_, q, _, _, htodo', _⟩
      · rw [hsel, ih p ops htodo]
      · rw [htodo] at htodo'
        cases htodo'
    · rw [htodo] at hop
      have hpend := pending_reachable hr
      rw [hop] at hpend
      rw [pending_before_storeStatus hpend] at hop
      exact (next_storeSelected h hop).1
    · rw [htodo] at hplan
      cases hplan

/-- No stream request is accepted while another node is selected. -/
def AcceptsFirst (s : State) : Label → Prop
  | .message _ msg => ∀ p, Accepts msg s.peer p →
      ∀ q n, q ≠ p → s.peer.peerConnectionNodeCaches.get? q = some n → n.status ≠ .selected
  | _ => True

structure UniqueSelection (s : State) : Prop where
  selected : ∀ p n, s.peer.peerConnectionNodeCaches.get? p = some n → n.status = .selected →
    s.peer.selectedNode = some p
  pending : ∀ p, .storeStatus p ∈ s.todo →
    ∀ q n, s.peer.peerConnectionNodeCaches.get? q = some n → n.status ≠ .selected

theorem unique_initial (streams : List AVStream) (roomId : Option String) (waitTimeout : Int) :
    UniqueSelection (State.initial streams roomId waitTimeout) where
  selected := fun p n hn => by cases hn
  pending := fun p hp => absurd hp List.not_mem_nil

theorem accepts_none_selected {env : Env} {msg : P2PSignalMessage}
    (hc : AcceptsFirst s (.message env msg)) (hacc : Accepts msg s.peer p) {q : Ptr}
    {n : PeerConnectionNode} (hn : s.peer.peerConnectionNodeCaches.get? q = some n) :
    n.status ≠ .selected := by
  by_cases hq : q = p
  · obtain ⟨_, _, m, hm, hconnected, _⟩ := hacc
    rw [hq, hm] at hn
    cases hn
    rw [hconnected]
    decide
  · exact hc p hacc q n hq hn

theorem unique_step (hr : system.Reachable s) (hc : AcceptsFirst s l) (hu : UniqueSelection s)
    (h : threads.next s l = some t) : UniqueSelection t where
  selected := by
    intro p m hm hsel
    rcases next_selected hr h hm hsel with ⟨n, hn, hs⟩ | ⟨env, rfl, htodo⟩
    · rcases next_selectedNode hr h with hsame | ⟨env, q, ops, rfl, htodo, _⟩
      · rw [hsame]
        exact hu.selected p n hn hs
      · -- a node is stored only while no node is selected
        have hrest := pending_storeSelected (pending_reachable hr) htodo
        have hpending : .storeStatus q ∈ s.todo := by simp [htodo, hrest]
        exact absurd hs (hu.pending q hpending p n hn)
    · have hstored := stored_selected hr htodo
      rcases next_selectedNode hr h with hsame | ⟨_, q, _, _, htodo', _⟩
      · rw [hsame, hstored]
      · rw [htodo] at htodo'
        cases htodo'
  pending := by
    intro p hp q m hm hsel
    rcases next_selected hr h hm hsel with ⟨n, hn, hs⟩ | ⟨env, rfl, htodo⟩
    · rcases next_planned h with htodo | ⟨env, op, rfl, htodo⟩ | ⟨env, msg, rfl, _, hplan⟩
      · exact hu.pending p (htodo ▸ hp) q n hn hs
      · exact hu.pending p (by rw [htodo]; exact List.mem_cons_of_mem _ hp) q n hn hs
      · generalize t.todo = ops at hp hplan
        cases hplan with
        | streamRequest p' hacc => exact absurd hs (accepts_none_selected hc hacc hn)
        | _ => simp at hp
    · -- the store of the status is the last operation
      have hlast := pending_storeStatus (pending_reachable hr) (htodo ▸ List.mem_cons_self)
      rw [htodo] at hlast
      simp [acceptedOps, List.suffix_cons_iff] at hlast
      rw [hlast] at hp
      cases hp

theorem unique_reachable (h : (system.restrict AcceptsFirst).Reachable s) : UniqueSelection s := by
  refine System.Reachable.invariant UniqueSelection ?_ ?_ h
  · rintro s ⟨streams, roomId, waitTimeout, rfl⟩
    exact unique_initial streams roomId waitTimeout
  · intro s l t hr hu hn
    obtain ⟨hc, hn⟩ := System.restrict_next.mp hn
    exact unique_step hr.of_restrict hc hu hn

/-- At most one node has the status Selected, and it is the selected node. -/
structure SelectionUnique (s : State) : Prop where
  unique : ∀ p q n m, s.peer.peerConnectionNodeCaches.get? p = some n → n.status = .selected →
    s.peer.peerConnectionNodeCaches.get? q = some m → m.status = .selected → p = q
  selected : ∀ p n, s.peer.peerConnectionNodeCaches.get? p = some n → n.status = .selected →
    s.peer.selectedNode = some p

/-- The selection stays unique in every run whose stream requests are accepted
only while no other node is selected. -/
theorem sender_selection_unique {s : State} (h : (system.restrict AcceptsFirst).Reachable s) :
    SelectionUnique s where
  unique := by
    intro p q n m hn hs hm ht
    have hp := (unique_reachable h).selected p n hn hs
    have hq := (unique_reachable h).selected q m hm ht
    rw [hp] at hq
    exact Option.some.inj hq
  selected := (unique_reachable h).selected

def statuses (s : State) : List (Ptr × PeerConnectionStatus) :=
  s.peer.peerConnectionNodeCaches.cells.map fun c => (c.1, c.2.status)

theorem mem_statuses {status : PeerConnectionStatus} : (p, status) ∈ statuses s ↔
      ∃ n, s.peer.peerConnectionNodeCaches.get? p = some n ∧ n.status = status := by
  simp [statuses, Linked.get?_eq_some_iff]

/-- A sender of one video stream. -/
def State.start : State := .initial [⟨.video, 90000⟩] none 30

def receiverConnects (id : String) (pcId : Int) (p : Ptr) : List Label :=
  [.message (.succeeding 1 pcId) ⟨none, none, .connectRequest (some id)⟩,
    .handlerOp (.succeeding 1 pcId), .handlerOp (.succeeding 1 pcId),
    .callback (.stateChange p .connected), .callbackOp (.succeeding 1 pcId)]

def streamRequested (id : String) : List Label :=
  [.message (.succeeding 1 1) ⟨some id, none, .streamRequest (some "main_stream")⟩,
    .handlerOp (.succeeding 1 1), .handlerOp (.succeeding 1 1), .handlerOp (.succeeding 1 1)]

theorem sender_selection_unique_first :
    ∃ s, statuses s = [(0, .selected)] ∧ s.peer.selectedNode = some 0 ∧ SelectionUnique s := by
  have hrun : ((system.guard fun s _ => (statuses s).all fun c => c.2 != .selected).run
      (receiverConnects "a" 1 0 ++ streamRequested "a") State.start).map
        (fun s => (statuses s, s.peer.selectedNode)) = some ([(0, .selected)], some 0) := by
    decide +kernel
  obtain ⟨s, hs, hview⟩ := Option.map_eq_some_iff.mp hrun
  obtain ⟨hstatuses, hselected⟩ := Prod.mk.inj hview
  refine ⟨s, hstatuses, hselected, sender_selection_unique (.of_guard ?_ ⟨_, _, _, rfl⟩ hs)⟩
  intro u l hnone
  cases l with
  | message env msg =>
      intro p _ q n _ hn hsel
      have hq := List.all_eq_true.mp hnone (q, .selected) (mem_statuses.mpr ⟨n, hn, hsel⟩)
      cases hq
  | _ => trivial

/-- Two receivers that are both connected both get the status Selected. -/
theorem two_receivers_selected :
    ¬ ∀ s, system.Reachable s → s.todo = [] → SelectionUnique s := by
  intro h
  have hrun : (system.run (receiverConnects "a" 1 0 ++ receiverConnects "b" 2 1 ++
      streamRequested "a" ++ streamRequested "b") State.start).map
        (fun s => (statuses s, s.todo)) = some ([(0, .selected), (1, .selected)], []) := by
    decide +kernel
  obtain ⟨s, hs, hview⟩ := Option.map_eq_some_iff.mp hrun
  obtain ⟨hstatuses, htodo⟩ := Prod.mk.inj hview
  have hunique := (h s (.of_run ⟨_, _, _, rfl⟩ hs) htodo).unique
  have h₀ : (0, PeerConnectionStatus.selected) ∈ statuses s := by simp [hstatuses]
  have h₁ : (1, PeerConnectionStatus.selected) ∈ statuses s := by simp [hstatuses]
  obtain ⟨n, hn, hns⟩ := mem_statuses.mp h₀
  obtain ⟨m, hm, hms⟩ := mem_statuses.mp h₁
  exact absurd (hunique 0 1 n m hn hns hm hms) (by decide)

end P2PFFmpeg.Sender
