import P2PFFmpeg.Receiver.Discipline
import P2PFFmpeg.Sender.StartUp

namespace P2PFFmpeg

open Library Library.Program Library.Transition Library.Concurrent Message Peer

/-- The selected node, if there is one, is linked. -/
def SelectionLinked (c : P2PContext) : Prop :=
  ∀ p, c.selectedNode = some p → p ∈ c.peerConnectionNodeCaches.addrs

namespace Receiver

def Wanted (s : State) (p : Ptr) : Prop :=
  s.peer.selectedNode = some p ∨ s.thread.pc = .storeSelected p

/-- No message makes the receiver unlink the node that is selected, or about to be. -/
def KeepsSelection (s : State) : Label → Prop
  | .message env msg => ∀ p, Unlinks env msg s.peer p → ¬ Wanted s p
  | _ => True

variable {msg : P2PSignalMessage} {p : Ptr} {env : Env}

theorem edge_to_storeSelected {d : P2PRtpDemuxContext} {a b : ConnectPc} (h : ConnectEdge d a b)
    (hb : b = .storeSelected p) : p ∈ d.p2pContext.peerConnectionNodeCaches.addrs := by
  cases h with
  | dispatch => cases hs : d.currentState <;> rw [hs] at hb <;> cases hb
  | best q hq =>
      cases hb
      exact hq
  | _ => cases hb

theorem wanted_linked {s : State} (h : (system.restrict KeepsSelection).Reachable s) (hp : Wanted s p) :
    p ∈ s.peer.peerConnectionNodeCaches.addrs := by
  refine System.Reachable.invariant
    (fun s => ∀ p, Wanted s p → p ∈ s.peer.peerConnectionNodeCaches.addrs) ?_ ?_ h p hp
  · rintro s ⟨waitTimeout, rfl⟩ p (hp | hp)
    · cases hp
    · cases hp
  · intro s l t _ ih hn p hp
    obtain ⟨hc, h⟩ := System.restrict_next.mp hn
    replace h : threads.next s l = some t := h
    have hkept : Wanted s p → p ∈ t.peer.peerConnectionNodeCaches.addrs := by
      intro hw
      apply (next_frame h).linked _ (ih p hw)
      apply not_lost
      rintro env msg rfl hunlinks
      exact hc p hunlinks hw
    rcases hp with hsel | hpc
    · rcases next_selectedNode h with hsame | ⟨_, q, _, hq, hstored⟩
      · exact hkept (Or.inl (hsame ▸ hsel))
      · rw [hsel] at hstored
        cases hstored
        exact hkept (Or.inr hq)
    · rcases next_pc h with ⟨_, hsame⟩ | ⟨⟨env, rfl⟩, hedge⟩
      · exact hkept (Or.inr (hsame ▸ hpc))
      · -- the best node was linked when it was chosen, and the thread unlinks none
        apply (next_frame h).linked _ (edge_to_storeSelected hedge hpc)
        exact id

theorem unlinks_created {c : P2PContext} (h : Unlinks env msg c p) : ∃ id targetId, msg.senderId = some id ∧
      msg.body = .connectRequest targetId ∧
      value (findOrCreateNode env targetId (some id)) c = some (.ok none) ∧
      after (findOrCreateNode env targetId (some id)) c = after (createPeerConnection env (some id)) c := by
  obtain ⟨targetId, hb, hcreates, hstrdup, htarget, hsender⟩ := h
  cases hid : msg.senderId with
  | none =>
      rw [hid] at hsender
      cases hsender
  | some id =>
      rw [hid] at hsender
      have hne : some id ≠ targetId := by
        rintro rfl
        rw [htarget] at hsender
        cases hsender
      have hv : value (createPeerConnection env (some id)) c = some 0 := by
        rw [createPeerConnection_value]
        simp [Int.not_le.mpr hcreates.1, hcreates.2]
      have hnone := find_createPeerConnection htarget hv
      rw [if_neg (fun h => hne h.2)] at hnone
      obtain ⟨hvalue, hafter, _⟩ := findOrCreateNode_missing env (some id) htarget
      rw [hv, Option.map_some, hnone] at hvalue
      exact ⟨id, targetId, rfl, hb, hvalue, hafter⟩

theorem unlinks_gone {c : P2PContext} (h : Unlinks env msg c p) :
    p ∉ (after (receiverHead env msg) c).peerConnectionNodeCaches.addrs := by
  obtain ⟨id, targetId, hid, hb, hvalue, hafter⟩ := unlinks_created h
  obtain ⟨_, _, hcreates, hstrdup, _, hsender⟩ := h
  rw [hid] at hsender
  have hnodes : (after (receiverHead env msg) c) = after (createPeerConnection env (some id)) c := by
    simp only [receiverHead, hb, hid, receiverConnectRequest]
    rw [after_bind, hvalue, hafter]
    rfl
  obtain ⟨n, hlist⟩ := createPeerConnection_nodes hcreates hstrdup
  rw [hnodes, hlist, Linked.addrs_link, List.mem_append, not_or]
  constructor
  · rw [← Linked.get?_eq_none_iff, Linked.get?_unlink hsender, if_pos rfl]
  · have hlt := Linked.lt_fresh (Linked.find?_mem hsender)
    rw [List.mem_singleton]
    exact Nat.ne_of_lt hlt

theorem unlinks_crash {s t : State} (h : threads.next s (.message env msg) = some t)
    (hp : Unlinks env msg s.peer p) : t.crashed = true := by
  obtain ⟨id, targetId, hid, hb, hvalue, _⟩ := unlinks_created hp
  have hnone : value (receiverHead env msg) s.peer = none := by
    simp only [receiverHead, hb, hid, receiverConnectRequest]
    rw [value_bind, hvalue]
    rfl
  cases next_scheduled h with
  | crashed _ he => rw [he]
  | message ops _ hv _ =>
      obtain ⟨ret, hret⟩ := threads_head hv
      rw [show value (receiverHead env msg) s.context.p2pContext = none from hnone] at hret
      cases hret

theorem unlinks_selected {s t : State} (h : threads.next s (.message env msg) = some t)
    (hp : Unlinks env msg s.peer p) (hs : s.peer.selectedNode = some p) : ¬ SelectionLinked t.peer := by
  intro hl
  have hsel : t.peer.selectedNode = some p := by
    rcases next_selectedNode h with hsame | ⟨_, _, hl', _⟩
    · rw [hsame, hs]
    · cases hl'
  have hgone := unlinks_gone hp
  cases next_moves h with
  | message _ hr =>
      apply hgone
      have hpeer : t.peer = after (receiverHead env msg) s.peer := by
        rw [State.peer, hr.context]
        simp only [threads, after_bind_pure, after_onPeer]
        rfl
      rw [← hpeer]
      exact hl p hsel

end Receiver

namespace Sender

theorem selection_linked {s : State} (h : system.Reachable s) : SelectionLinked s.peer := by
  refine System.Reachable.invariant (fun s => SelectionLinked s.peer) ?_ ?_ h
  · rintro s ⟨streams, roomId, waitTimeout, rfl⟩ p hp
    cases hp
  · intro s l t hr ih hn p hp
    have hlinked : p ∈ s.peer.peerConnectionNodeCaches.addrs := by
      rcases next_selectedNode hr hn with hsame | ⟨env, q, ops, rfl, htodo, hstored⟩
      · exact ih p (hsame ▸ hp)
      · rw [hp] at hstored
        cases hstored
        have hrest := pending_storeSelected (pending_reachable hr) htodo
        have hmem : .storeStatus p ∈ s.todo := by simp [htodo, hrest]
        obtain ⟨n, hn, _⟩ := storeStatus_unmarked hr hmem
        exact Linked.mem_addrs_iff.mpr ⟨n, hn⟩
    exact (next_frame hn).linked (not_lost s l p) hlinked

end Sender

/-- The selected node stays linked in every run of the receiver in which no
message makes it unlink a node that is selected or about to be, a message that
does leaves the selection dangling, and in the sender it stays linked always. -/
theorem selected_node_linked (r : Receiver.State) (s : Sender.State) :
    ((Receiver.system.restrict Receiver.KeepsSelection).Reachable r → SelectionLinked r.peer) ∧
    (∀ t env msg p, Receiver.system.next r (.message env msg) = some t →
      Receiver.Unlinks env msg r.peer p → r.peer.selectedNode = some p →
      ¬ SelectionLinked t.peer) ∧
    (Sender.system.Reachable s → SelectionLinked s.peer) := by
  refine ⟨?_, ?_, ?_⟩
  · intro h p hp
    exact Receiver.wanted_linked h (Or.inl hp)
  · intro t env msg p h hp hs
    exact Receiver.unlinks_selected h hp hs
  · intro h
    exact Sender.selection_linked h

def messagesFirst (s : Receiver.State) : Receiver.Label → Bool
  | .message _ _ => s.thread.pc == .start && s.peer.selectedNode == none
  | _ => true

theorem selected_node_linked_probed :
    ∃ s : Receiver.State, s.peer.selectedNode = some 0 ∧ SelectionLinked s.peer := by
  have hrun : ((Receiver.system.guard messagesFirst).run
      (Receiver.senderConnects "s" 1 0 ++ Receiver.nodeProbed 0) (Receiver.State.initial 60)).map
        (fun s => s.peer.selectedNode) = some (some 0) := by decide +kernel
  obtain ⟨s, hs, hsel⟩ := Option.map_eq_some_iff.mp hrun
  refine ⟨s, hsel, (selected_node_linked s (Sender.State.initial [] none 60)).1 (.of_guard ?_ ⟨60, rfl⟩ hs)⟩
  intro u l hl
  cases l with
  | message env msg =>
      obtain ⟨hpc, hnone⟩ := Bool.and_eq_true_iff.mp hl
      rintro p _ (hp | hp)
      · rw [beq_iff_eq.mp hnone] at hp
        cases hp
      · rw [beq_iff_eq.mp hpc] at hp
        cases hp
  | _ => trivial

/-- A CONNECT_REQUEST from the selected node for a target that is not known
frees the selected node. -/
theorem selected_node_freed :
    ¬ ∀ s, Receiver.system.Reachable s → SelectionLinked s.peer := by
  intro h
  have hrun : (Receiver.system.run (Receiver.senderConnects "s" 1 0 ++ Receiver.nodeProbed 0 ++
      [.message (.succeeding 0 2) ⟨some "s", none, .connectRequest (some "x")⟩])
        (Receiver.State.initial 60)).map
        (fun s => (s.peer.selectedNode, s.peer.peerConnectionNodeCaches.addrs)) =
          some (some 0, [1]) := by decide +kernel
  obtain ⟨s, hs, hview⟩ := Option.map_eq_some_iff.mp hrun
  obtain ⟨hsel, haddrs⟩ := Prod.mk.inj hview
  have hlinked := h s (.of_run ⟨60, rfl⟩ hs) 0 hsel
  rw [haddrs] at hlinked
  exact absurd hlinked (by decide)

end P2PFFmpeg
