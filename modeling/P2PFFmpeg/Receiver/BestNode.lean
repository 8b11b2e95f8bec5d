import P2PFFmpeg.Library.Selection
import P2PFFmpeg.Receiver.Runs

/-!
The selection in RECEIVER_STATE_PROBE_COMPLETED counts the nodes that are available, and
then takes the best of all nodes.
-/

namespace P2PFFmpeg.Receiver

open Library Library.Program Library.Concurrent Library.Selection Message Peer

def Available (nodes : Linked PeerConnectionNode) (p : Ptr) : Prop :=
  ∃ n, nodes.get? p = some n ∧ n.status = .connected ∧ n.networkQuality.phase = .complete

instance (nodes : Linked PeerConnectionNode) : DecidablePred (Available nodes) := fun p =>
  decidable_of_iff (((nodes.get? p).any fun n =>
    n.status = .connected ∧ n.networkQuality.phase = .complete) = true) (by simp [Available, Option.any_eq_true])

def nodeScore (nodes : Linked PeerConnectionNode) (p : Ptr) : ℚ :=
  ((nodes.get? p).map fun n => calculateNodeScore n.networkQuality).getD 0

theorem nodeScore_some {nodes : Linked PeerConnectionNode} {p : Ptr} {n : PeerConnectionNode}
    (h : nodes.get? p = some n) : nodeScore nodes p = calculateNodeScore n.networkQuality := by
  rw [nodeScore, h]
  rfl

theorem walkNodes_returns {α : Type} {body : Ptr → PeerConnectionNode → α → PeerM α}
    (I : List Ptr → P2PContext → α → Prop) {ps : List Ptr}
    (hbody : ∀ done p a s, p ∈ ps → I done s a → ∃ n b, s.peerConnectionNodeCaches.get? p = some n ∧
      value (body p n a) s = some b ∧ I (done ++ [p]) (after (body p n a) s) b)
    {done : List Ptr} {a : α} {s : P2PContext} (ha : I done s a) :
    ∃ b, value (walkNodes body ps a) s = some b ∧ I (done ++ ps) (after (walkNodes body ps a) s) b := by
  induction ps generalizing done a s with
  | nil => exact ⟨a, rfl, by rwa [List.append_nil]⟩
  | cons p ps ih =>
      obtain ⟨n, b, hn, hb, hround⟩ := hbody done p a s (List.mem_cons_self ..) ha
      obtain ⟨c, hc, hrest⟩ := ih (fun done q a s hq => hbody done q a s (List.mem_cons_of_mem p hq)) hround
      refine ⟨c, ?_, ?_⟩
      · rw [walkNodes, value_bind, readNode_some hn, Option.bind_some, value_bind, readNode_after, hb]
        exact hc
      · rw [walkNodes, after_bind, readNode_some hn]
        simp only [after_bind, readNode_after, hb]
        rwa [List.append_cons]

section Loops

variable {c : P2PContext}

theorem countNode_walk : ∃ k, value (walk countNode 0) c = some k ∧ after (walk countNode 0) c = c ∧
    (k = 0 ↔ ∀ p, ¬ Available c.peerConnectionNodeCaches p) := by
  have hloop := @walkNodes_returns Nat countNode (fun done s k => s = c ∧
      (k = 0 ↔ ∀ p ∈ done, ¬ Available c.peerConnectionNodeCaches p)) c.peerConnectionNodeCaches.addrs (by
    rintro done p k s hp ⟨rfl, hk⟩
    obtain ⟨n, hn⟩ := Linked.mem_addrs_iff.mp hp
    by_cases havailable : n.status = .connected ∧ n.networkQuality.phase = .complete
    · refine ⟨n, k + 1, hn, ?_, ?_, ?_⟩
      · rw [countNode, if_pos havailable]
        rfl
      · rw [countNode, if_pos havailable]
        rfl
      · constructor
        · intro h
          cases h
        · intro hnone
          exact absurd ⟨n, hn, havailable⟩ (hnone p (List.mem_append_right done (List.mem_singleton_self p)))
    · refine ⟨n, k, hn, ?_, ?_, ?_⟩
      · rw [countNode, if_neg havailable]
        rfl
      · rw [countNode, if_neg havailable]
        rfl
      · have hp' : ¬ Available s.peerConnectionNodeCaches p := by
          rintro ⟨m, hm, hboth⟩
          rw [hn] at hm
          cases hm
          exact havailable hboth
        rw [hk]
        constructor
        · intro hnone q hq
          obtain hq | hq := List.mem_append.mp hq
          · exact hnone q hq
          · rw [List.mem_singleton.mp hq]
            exact hp'
        · exact fun hnone q hq => hnone q (List.mem_append_left [p] hq)) [] 0 c
    ⟨rfl, by simp⟩
  obtain ⟨k, hk, hafter, hcount⟩ := hloop
  refine ⟨k, hk, hafter, hcount.trans ⟨fun hnone p hp => ?_, fun hnone p _ => hnone p⟩⟩
  obtain ⟨n, hn, hboth⟩ := hp
  exact hnone p (Linked.mem_addrs_iff.mpr ⟨n, hn⟩) ⟨n, hn, hboth⟩

theorem calculateNodeScore_recordScore (data : NetworkQualityMetrics) :
    calculateNodeScore (recordScore data) = calculateNodeScore data := by
  rw [recordScore]
  split
  · rfl
  · rfl

theorem selectBestNode_pick : value selectBestNode c =
    some (pick (nodeScore c.peerConnectionNodeCaches) 0 c.peerConnectionNodeCaches.addrs) := by
  have hloop := @walkNodes_returns (Option Ptr × ℚ) scoreNode (fun done s best =>
      best = done.foldl (better (nodeScore c.peerConnectionNodeCaches)) (none, 0) ∧
        s.peerConnectionNodeCaches.addrs = c.peerConnectionNodeCaches.addrs ∧
        ∀ q n, s.peerConnectionNodeCaches.get? q = some n →
          calculateNodeScore n.networkQuality = nodeScore c.peerConnectionNodeCaches q)
      c.peerConnectionNodeCaches.addrs (by
    rintro done p best s hp ⟨hbest, haddrs, hscores⟩
    obtain ⟨n, hn⟩ := Linked.mem_addrs_iff.mp (haddrs ▸ hp)
    have hscore := hscores p n hn
    have hafter : after (scoreNode p n best) s =
        { s with peerConnectionNodeCaches :=
          s.peerConnectionNodeCaches.modify p (setNetworkQuality recordScore) } := by
      rw [scoreNode]
      split
      · rfl
      · rfl
    refine ⟨n, better (nodeScore c.peerConnectionNodeCaches) best p, hn, ?_, ?_, ?_, ?_⟩
    · rw [better, ← hscore, scoreNode]
      split
      · rfl
      · rfl
    · rw [List.foldl_append, hbest]
      rfl
    · rw [hafter]
      exact (Linked.addrs_modify _ _ _).trans haddrs
    · rw [hafter]
      intro q m hm
      rw [Linked.get?_modify] at hm
      split at hm
      · obtain ⟨m', hm', rfl⟩ := Option.map_eq_some_iff.mp hm
        exact (calculateNodeScore_recordScore _).trans (hscores q m' hm')
      · exact hscores q m hm) [] (none, 0) c
    ⟨rfl, rfl, fun q n hn => (nodeScore_some hn).symm⟩
  obtain ⟨best, hvalue, hbest, -⟩ := hloop
  rw [selectBestNode, value_get_bind, value_bind, hvalue, Option.bind_some, value_pure, hbest]
  rfl

end Loops

/-- What the branch is for. -/
structure SelectsBest (s t : State) : Prop where
  best : (∃ p, Available s.peer.peerConnectionNodeCaches p) → ∃ p, t.peer.selectedNode = some p ∧
    Available s.peer.peerConnectionNodeCaches p ∧ ∀ q, Available s.peer.peerConnectionNodeCaches q →
      nodeScore s.peer.peerConnectionNodeCaches q ≤ nodeScore s.peer.peerConnectionNodeCaches p
  none : (¬ ∃ p, Available s.peer.peerConnectionNodeCaches p) →
    t.peer.selectedNode = s.peer.selectedNode ∧ t.context.currentState = .error

/-- Some available node has a score that no other node in front of it has and no other node
behind it beats. -/
def AvailableLeads (nodes : Linked PeerConnectionNode) : Prop :=
  ∃ before p after, nodes.addrs = before ++ p :: after ∧ Available nodes p ∧ 0 < nodeScore nodes p ∧
    (∀ q ∈ before, ¬ Available nodes q → nodeScore nodes q < nodeScore nodes p) ∧
    ∀ q ∈ after, ¬ Available nodes q → nodeScore nodes q ≤ nodeScore nodes p

/-- Three steps of the thread, which take it to the store into selected_node or into the
state. -/
def branch (env : Env) : List Label := List.replicate 3 (.thread env)

section Branch

variable {s : State} {env : Env}

theorem next_thread_returns {th : ConnectThread} (hs : s.crashed = false)
    (h : value (connectStep env s.thread) s.context = some th) :
    ∃ t, system.next s (.thread env) = some t ∧ t.crashed = false ∧ t.thread = th ∧
      t.context = after (connectStep env s.thread) s.context ∧
      t.context.currentState = raised s.context.currentState s.thread.pc.sets ∧
      (t.peer.selectedNode = s.peer.selectedNode ∨ ∃ p, s.thread.pc = .storeSelected p) := by
  have hnext : threads.next s (.thread env) =
      some { s with context := after (connectStep env s.thread) s.context, thread := th } := by
    have hrun : s.exec (threads.thread env s.thread) (fun a u => { u with thread := a }) =
        { s with context := after (connectStep env s.thread) s.context, thread := th } := by
      rw [Process.exec, show threads.thread env s.thread = connectStep env s.thread from rfl]
      simp only [h]
    simp only [Threads.next, hs, Bool.false_eq_true, if_false, hrun]
  refine ⟨_, hnext, hs, rfl, rfl, next_currentState hnext, ?_⟩
  obtain hsame | ⟨-, p, -, hp, -⟩ := next_selectedNode hnext
  · exact .inl hsame
  · exact .inr ⟨p, hp⟩

def Left (pc : ConnectPc) : Prop := (∃ ret, pc = .returned ret) ∨ pc = .clearActive ∨ pc = .exited

theorem error_stays (hs : s.crashed = false) (herror : s.context.currentState = .error)
    (hpc : Left s.thread.pc) (n : Nat) : ∃ t, system.run (List.replicate n (.thread env)) s = some t ∧
      t.peer.selectedNode = s.peer.selectedNode ∧ t.context.currentState = .error := by
  induction n generalizing s with
  | zero => exact ⟨s, rfl, rfl, herror⟩
  | succ n ih =>
      obtain ⟨pc', hvalue, hpc'⟩ : ∃ pc', value (connectStep env s.thread) s.context = some (s.thread.goto pc') ∧
          Left pc' := by
        rcases hpc with ⟨ret, hpc⟩ | hpc | hpc
        · refine ⟨.clearActive, ?_, .inr (.inl rfl)⟩
          simp only [connectStep, value_get_bind, hpc, value_bind_pure]
          rw [doWhen]
          split
          · rfl
          · rfl
        · refine ⟨.exited, ?_, .inr (.inr rfl)⟩
          simp only [connectStep, value_get_bind, hpc]
          rfl
        · refine ⟨.exited, ?_, .inr (.inr rfl)⟩
          simp only [connectStep, value_get_bind, hpc, value_pure]
          rw [ConnectThread.goto, ← hpc]
      obtain ⟨u, hnext, hu, hthread, -, hstate, hselected⟩ := next_thread_returns hs hvalue
      have hsets : s.thread.pc.sets = none := by
        rcases hpc with ⟨ret, hpc⟩ | hpc | hpc <;> rw [hpc] <;> rfl
      have hsame : u.peer.selectedNode = s.peer.selectedNode := by
        refine hselected.resolve_right ?_
        rintro ⟨p, hp⟩
        rw [hp] at hpc
        rcases hpc with ⟨ret, hpc⟩ | hpc | hpc <;> cases hpc
      rw [hsets, herror] at hstate
      obtain ⟨t, hrun, ht, hterror⟩ := ih hu hstate (by rw [hthread]; exact hpc')
      refine ⟨t, ?_, ht.trans hsame, hterror⟩
      rw [List.replicate_succ, Transition.System.run, hnext, Option.bind_some]
      exact hrun

theorem setError_stays (hs : s.crashed = false) {ret : Int} (hpc : s.thread.pc = .setError ret) (n : Nat) :
    ∃ t, system.run (List.replicate (n + 1) (.thread env)) s = some t ∧
      t.peer.selectedNode = s.peer.selectedNode ∧ t.context.currentState = .error := by
  have hvalue : value (connectStep env s.thread) s.context = some (s.thread.goto (.returned ret)) := by
    simp only [connectStep, value_get_bind, hpc]
    rfl
  obtain ⟨u, hnext, hu, hthread, -, hstate, hselected⟩ := next_thread_returns hs hvalue
  have hsame : u.peer.selectedNode = s.peer.selectedNode := by
    refine hselected.resolve_right ?_
    rintro ⟨p, hp⟩
    rw [hpc] at hp
    cases hp
  have herror : u.context.currentState = .error := by
    rw [hstate, hpc]
    exact (raised_eq_top _ _).mpr (.inr rfl)
  obtain ⟨t, hrun, ht, hterror⟩ := @error_stays u env hu herror (by rw [hthread]; exact .inl ⟨ret, rfl⟩) n
  refine ⟨t, ?_, ht.trans hsame, hterror⟩
  rw [List.replicate_succ, Transition.System.run, hnext, Option.bind_some]
  exact hrun

theorem branch_runs (hs : s.crashed = false) (hpc : s.thread.pc = .countAvailable) :
    ∃ t, system.run (branch env) s = some t ∧
      ((∀ p, ¬ Available s.peer.peerConnectionNodeCaches p) ∧ t.peer.selectedNode = s.peer.selectedNode ∧
          t.context.currentState = .error ∨
        (∃ p, Available s.peer.peerConnectionNodeCaches p) ∧
          match pick (nodeScore s.peer.peerConnectionNodeCaches) 0 s.peer.peerConnectionNodeCaches.addrs with
          | some p => t.peer.selectedNode = some p
          | none => t.peer.selectedNode = s.peer.selectedNode) := by
  obtain ⟨k, hk, hwalk, hnone⟩ := @countNode_walk s.peer
  have hvalue : value (connectStep env s.thread) s.context =
      some (s.thread.goto (if k = 0 then .setError averrorEinval else .selectBest)) := by
    simp only [connectStep, value_get_bind, hpc, value_bind_pure, value_onPeer]
    rw [show s.context.p2pContext = s.peer from rfl, hk]
    rfl
  obtain ⟨u, hnext, hu, hthread, hcontext, hstate, hselected⟩ := next_thread_returns hs hvalue
  have hsame : u.peer.selectedNode = s.peer.selectedNode := by
    refine hselected.resolve_right ?_
    rintro ⟨p, hp⟩
    rw [hpc] at hp
    cases hp
  have hpeer : u.peer = s.peer := by
    rw [State.peer, hcontext]
    simp only [connectStep, after_get_bind, hpc, after_bind_pure, after_onPeer]
    exact hwalk
  by_cases hzero : k = 0
  · rw [if_pos hzero] at hthread
    obtain ⟨t, hrun, ht, herror⟩ := @setError_stays u env hu averrorEinval (by rw [hthread]; rfl) 1
    refine ⟨t, ?_, .inl ⟨hnone.mp hzero, ht.trans hsame, herror⟩⟩
    rw [branch, List.replicate_succ, Transition.System.run, hnext, Option.bind_some]
    exact hrun
  · rw [if_neg hzero] at hthread
    have havailable : ∃ p, Available s.peer.peerConnectionNodeCaches p := by
      by_contra hno
      exact hzero (hnone.mpr fun p hp => hno ⟨p, hp⟩)
    have hpick : value (connectStep env u.thread) u.context = some (u.thread.goto
        ((pick (nodeScore s.peer.peerConnectionNodeCaches) 0 s.peer.peerConnectionNodeCaches.addrs).elim
          (.setError averrorEinval) .storeSelected)) := by
      simp only [connectStep, value_get_bind, show u.thread.pc = .selectBest by rw [hthread]; rfl,
        value_bind_pure, value_onPeer]
      rw [show u.context.p2pContext = s.peer from hpeer, selectBestNode_pick]
      cases pick (nodeScore s.peer.peerConnectionNodeCaches) 0 s.peer.peerConnectionNodeCaches.addrs with
      | none => rfl
      | some p => rfl
    obtain ⟨v, hnext', hv, hthread', -, -, hselected'⟩ := next_thread_returns hu hpick
    have hsame' : v.peer.selectedNode = u.peer.selectedNode := by
      refine hselected'.resolve_right ?_
      rintro ⟨p, hp⟩
      rw [hthread] at hp
      cases hp
    cases hbest : pick (nodeScore s.peer.peerConnectionNodeCaches) 0 s.peer.peerConnectionNodeCaches.addrs with
    | none =>
        rw [hbest] at hthread'
        obtain ⟨t, hrun, ht, -⟩ := @setError_stays v env hv averrorEinval (by rw [hthread']; rfl) 0
        refine ⟨t, ?_, .inr ⟨havailable, ht.trans (hsame'.trans hsame)⟩⟩
        rw [branch, List.replicate_succ, Transition.System.run, hnext, Option.bind_some, List.replicate_succ,
          Transition.System.run, hnext', Option.bind_some]
        exact hrun
    | some p =>
        rw [hbest] at hthread'
        have hpc' : v.thread.pc = .storeSelected p := by rw [hthread']; rfl
        have hstore : value (connectStep env v.thread) v.context = some (v.thread.goto (.storeStatus p)) := by
          simp only [connectStep, value_get_bind, hpc']
          rfl
        obtain ⟨t, hnext'', -, -, -, -, -⟩ := next_thread_returns hv hstore
        refine ⟨t, ?_, .inr ⟨havailable, next_storeSelected hnext'' hpc'⟩⟩
        rw [branch, List.replicate_succ, Transition.System.run, hnext, Option.bind_some, List.replicate_succ,
          Transition.System.run, hnext', Option.bind_some, List.replicate_succ, Transition.System.run, hnext'',
          Option.bind_some]
        rfl

theorem clipDouble_nonneg (value : ℚ) {maxVal : ℚ} (h : 0 ≤ maxVal) : 0 ≤ clipDouble value 0 maxVal := by
  rw [clipDouble]
  split
  · exact le_refl 0
  · next hvalue =>
      split
      · exact h
      · exact not_lt.mp hvalue

theorem nodeScore_nonneg (nodes : Linked PeerConnectionNode) (p : Ptr) : 0 ≤ nodeScore nodes p := by
  rw [nodeScore]
  cases nodes.get? p with
  | none => exact le_refl 0
  | some n =>
      rw [Option.map_some, Option.getD_some, calculateNodeScore]
      split
      · exact le_refl 0
      · have hmax : (0 : ℚ) ≤ 25 := by decide
        exact add_nonneg (add_nonneg (add_nonneg (clipDouble_nonneg _ hmax) (clipDouble_nonneg _ hmax))
          (clipDouble_nonneg _ hmax)) (clipDouble_nonneg _ hmax)

/-- The branch selects the best of the available nodes if and only if there is none, one of
them leads all nodes, or no node has a score and one of them is selected already. -/
theorem best_node_selected_iff (s : State) (env : Env) (hs : s.crashed = false)
    (hpc : s.thread.pc = .countAvailable) :
    ∃ t, system.run (branch env) s = some t ∧
      (SelectsBest s t ↔ (∀ p, ¬ Available s.peer.peerConnectionNodeCaches p) ∨
        AvailableLeads s.peer.peerConnectionNodeCaches ∨
        (∀ p ∈ s.peer.peerConnectionNodeCaches.addrs, nodeScore s.peer.peerConnectionNodeCaches p = 0) ∧
          ∃ p, s.peer.selectedNode = some p ∧ Available s.peer.peerConnectionNodeCaches p) := by
  obtain ⟨t, hrun, hbranch⟩ := @branch_runs s env hs hpc
  refine ⟨t, hrun, ?_⟩
  rw [AvailableLeads, ← pick_mem_iff]
  generalize hnodes : s.peer.peerConnectionNodeCaches = nodes at *
  obtain ⟨hnone, hselected, herror⟩ | ⟨⟨q, hq⟩, hselected⟩ := hbranch
  · refine ⟨fun _ => .inl hnone, fun _ => ⟨fun ⟨p, hp⟩ => ?_, fun _ => ⟨hselected, herror⟩⟩⟩
    rw [hnodes] at hp
    exact absurd hp (hnone p)
  · have hin : ∀ p, Available nodes p → p ∈ nodes.addrs := by
      rintro p ⟨n, hn, -⟩
      exact Linked.mem_addrs_iff.mpr ⟨n, hn⟩
    constructor
    · intro hbest
      obtain ⟨p, hp, havailable, -⟩ := hbest.best ⟨q, hnodes ▸ hq⟩
      rw [hnodes] at havailable
      refine .inr ?_
      cases hpick : pick (nodeScore nodes) 0 nodes.addrs with
      | none =>
          rw [hpick] at hselected
          refine .inr ⟨fun r hr => ?_, p, hselected.symm.trans hp, havailable⟩
          exact le_antisymm (pick_eq_none_iff.mp hpick r hr) (nodeScore_nonneg nodes r)
      | some r =>
          rw [hpick] at hselected
          obtain rfl : p = r := Option.some.inj (hp.symm.trans hselected)
          exact .inl ⟨p, rfl, havailable⟩
    · intro h
      refine ⟨fun _ => ?_, fun hno => absurd ⟨q, hnodes ▸ hq⟩ hno⟩
      rw [hnodes]
      obtain hnone | ⟨p, hpick, havailable⟩ | ⟨hzero, p, hp, havailable⟩ := h
      · exact absurd hq (hnone q)
      · rw [hpick] at hselected
        refine ⟨p, hselected, havailable, fun r hr => ?_⟩
        exact (pick_eq_some_iff.mp hpick).2.le (hin r hr)
      · have hpick : pick (nodeScore nodes) 0 nodes.addrs = none :=
          pick_eq_none_iff.mpr fun r hr => le_of_eq (hzero r hr)
        rw [hpick] at hselected
        refine ⟨p, hselected.trans hp, havailable, fun r hr => ?_⟩
        rw [hzero r (hin r hr)]
        exact nodeScore_nonneg nodes p

end Branch

def selecting (nodes : Linked PeerConnectionNode) : State :=
  { State.initial 60 with
    context :=
      { (State.initial 60).context with
        p2pContext := ⟨none, none, nodes, none, []⟩
        currentState := .probeCompleted }
    thread := ⟨.countAvailable, 0, 0⟩ }

def probedNode (id : String) (status : PeerConnectionStatus) (rttSum : ℚ) : PeerConnectionNode where
  remoteId := some id
  pcId := 1
  status := status
  trackCaches := .empty
  videoTrack := none
  audioTrack := none
  probeTrack := none
  networkQuality :=
    { NetworkQualityMetrics.zero with
      packetsReceived := 10
      rttSum := rttSum
      rttCount := 10
      phase := .complete
      expectedPackets := 10 }

def threeNodes : Linked PeerConnectionNode :=
  ((Linked.empty.link (probedNode "a" .closed 3000)).link (probedNode "b" .connected 2000)).link
    (probedNode "c" .connected 100)

/-- The faster of the two nodes that are connected is selected. -/
theorem best_node_selected_three : ∃ t,
    system.run (branch (.succeeding 0 1)) (selecting threeNodes) = some t ∧ t.peer.selectedNode = some 2 := by
  obtain ⟨t, hrun, hbest⟩ := best_node_selected_iff (selecting threeNodes) (.succeeding 0 1) rfl rfl
  have havailable : Available threeNodes 2 := by decide
  have hslower : nodeScore threeNodes 0 < nodeScore threeNodes 2 ∧
      nodeScore threeNodes 1 < nodeScore threeNodes 2 := by
    decide +kernel
  have hleads : AvailableLeads threeNodes := by
    refine ⟨[0, 1], 2, [], rfl, havailable, by decide +kernel, ?_, by simp⟩
    intro q hq _
    rcases List.mem_pair.mp hq with rfl | rfl
    · exact hslower.1
    · exact hslower.2
  have hselects := hbest.mpr (.inr (.inl hleads))
  obtain ⟨p, hp, ⟨n, hn, -⟩, hmost⟩ := hselects.best ⟨2, havailable⟩
  have haddrs : p ∈ [0, 1, 2] := (Linked.mem_addrs_iff (l := threeNodes)).mpr ⟨n, hn⟩
  have hle : nodeScore threeNodes 2 ≤ nodeScore threeNodes p := hmost 2 havailable
  simp only [List.mem_cons, List.not_mem_nil, or_false] at haddrs
  rcases haddrs with rfl | rfl | rfl
  · exact absurd hslower.1 (not_lt.mpr hle)
  · exact absurd hslower.2 (not_lt.mpr hle)
  · exact ⟨t, hrun, hp⟩

/-- A node that was closed after it was probed is taken before an available one. -/
theorem closed_node_selected : ∃ t, system.run (branch (.succeeding 0 1)) (selecting
      ((Linked.empty.link (probedNode "a" .closed 100)).link (probedNode "b" .connected 200))) = some t ∧
    ¬ SelectsBest (selecting
      ((Linked.empty.link (probedNode "a" .closed 100)).link (probedNode "b" .connected 200))) t := by
  have hrun : (system.run (branch (.succeeding 0 1)) (selecting
      ((Linked.empty.link (probedNode "a" .closed 100)).link (probedNode "b" .connected 200)))).map
        (fun t => t.peer.selectedNode) = some (some 0) := by decide +kernel
  obtain ⟨t, ht, hselected⟩ := Option.map_eq_some_iff.mp hrun
  refine ⟨t, ht, fun hselects => ?_⟩
  have havailable : Available ((Linked.empty.link (probedNode "a" .closed 100)).link
      (probedNode "b" .connected 200)) 1 := by decide
  obtain ⟨p, hp, hin, -⟩ := hselects.best ⟨1, havailable⟩
  obtain rfl : p = 0 := Option.some.inj (hp.symm.trans hselected)
  exact absurd hin (by decide)

end P2PFFmpeg.Receiver
