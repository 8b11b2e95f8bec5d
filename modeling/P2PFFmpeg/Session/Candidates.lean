import P2PFFmpeg.Library.Handover
import P2PFFmpeg.Peer.Candidates
import P2PFFmpeg.Session.LinkedSelection
import P2PFFmpeg.Session.Network

namespace P2PFFmpeg

open Library Library.Program Library.Transition Library.Concurrent Library.Handover Message Peer

def pair (senderId receiverId : String) :
    Network.Star Unit P2PSignalMessage Sender.State Receiver.State Sender.Label Receiver.Label
      Env where
  hub := Sender.system
  leaf := Receiver.system
  down s t _ := addressed receiverId (sentMessages s.peer t.peer)
  up s t := addressed senderId (sentMessages s.peer t.peer)
  hubTakes env msg := .message env (arrived msg)
  leafTakes env msg := .message env (arrived msg)

abbrev Pair := Network.Net Unit P2PSignalMessage Sender.State Receiver.State

abbrev PairLabel := Network.Label Unit Sender.Label Receiver.Label Env

/-- A candidate that a peer gathers for its connection to the other one. -/
inductive Gathered
  | sender (candidate mid : String)
  | receiver (candidate mid : String)

def Gathered.bySender : Gathered → Option (String × String)
  | .sender candidate mid => some (candidate, mid)
  | .receiver _ _ => none

def Gathered.byReceiver : Gathered → Option (String × String)
  | .sender _ _ => none
  | .receiver candidate mid => some (candidate, mid)

def isNodeOf (id : String) (c : P2PContext) (node : Ptr) : Bool :=
  (c.peerConnectionNodeCaches.get? node).any fun n => n.remoteId == some id

def gatheredFor (id : String) (c : P2PContext) (node : Ptr) (candidate mid : String) :
    List (String × String) :=
  if isNodeOf id c node then [(candidate, mid)] else []

def startedGathering (c : P2PContext) (node : Ptr) : Bool :=
  (c.peerConnectionNodeCaches.get? node).any fun n => c.calls.any fun
    | .setLocalDescription pcId _ => pcId == n.pcId
    | _ => false

def notNegotiating (msg : P2PSignalMessage) : Bool :=
  msg.type != .offer && msg.type != .answer && msg.type != .candidate

def Sender.mayHappen (s : Sender.State) : Sender.Label → Bool
  | .message _ msg => notNegotiating msg
  | .callback (.event (.localCandidate _ node _ _)) => startedGathering s.peer node
  | _ => true

def Receiver.mayHappen (s : Receiver.State) : Receiver.Label → Bool
  | .message _ msg => notNegotiating msg
  | .callback (.event (.localCandidate _ node _ _)) => startedGathering s.peer node
  | _ => true

def Sender.gathered (id : String) (s : Sender.State) : Sender.Label → List (String × String)
  | .callback (.event (.localCandidate _ node candidate mid)) =>
      gatheredFor id s.peer node candidate mid
  | _ => []

def Receiver.gathered (id : String) (s : Receiver.State) : Receiver.Label → List (String × String)
  | .callback (.event (.localCandidate _ node candidate mid)) =>
      gatheredFor id s.peer node candidate mid
  | _ => []

def mayHappen (s : Pair) : PairLabel → Bool
  | .hub l => Sender.mayHappen s.hub l
  | .leaf _ l => Receiver.mayHappen (s.leaf ()) l
  | _ => true

def gathering (senderId receiverId : String) (s : Pair) : PairLabel → List Gathered
  | .hub l => (Sender.gathered receiverId s.hub l).map fun x => .sender x.1 x.2
  | .leaf _ l => (Receiver.gathered senderId (s.leaf ()) l).map fun x => .receiver x.1 x.2
  | _ => []

/-- The runs of two peers, with the candidates they have gathered so far. -/
def negotiation (senderId receiverId : String) : System (Pair × List Gathered) PairLabel :=
  ((pair senderId receiverId).system.guard mayHappen).observed (gathering senderId receiverId)

def candidateFrom (id : String) (msg : P2PSignalMessage) : Option (String × String) :=
  match msg.body with
  | .candidate (some candidate) (some mid) =>
      if msg.senderId = some id then some (candidate, mid) else none
  | _ => none

variable {msg : P2PSignalMessage} {id : String}

theorem candidateFrom_some {x : String × String} (h : candidateFrom id msg = some x) :
    msg.senderId = some id ∧ msg.body = .candidate (some x.1) (some x.2) := by
  unfold candidateFrom at h
  split at h
  · next hb =>
      split at h
      · next hid =>
          cases h
          exact ⟨hid, hb⟩
      · cases h
  · cases h

theorem candidateFrom_none (h : msg.type ≠ .candidate) : candidateFrom id msg = none := by
  cases hx : candidateFrom id msg with
  | none => rfl
  | some x =>
      refine absurd ?_ h
      rw [P2PSignalMessage.type, (candidateFrom_some hx).2]
      rfl

theorem description_not_candidate {role : String} {description : Option String}
    (h : msg.body = descriptionBody role description) : msg.type ≠ .candidate := by
  rcases description_type h with ht | ht
  · rw [ht]
    decide
  · rw [ht]
    decide

def signalling (id role : String) : Protocol P2PSignalMessage (String × String) where
  header msg := msg.senderId = some id ∧ ∃ sdp, msg.body = descriptionBody role (some sdp)
  item := candidateFrom id
  apart := by
    rintro msg ⟨_, sdp, hb⟩
    exact candidateFrom_none (description_not_candidate hb)

def DescriptionSent (role id otherId : String) (c : P2PContext) : Prop :=
  ∃ sdp, .sendMessage ⟨some id, some otherId, descriptionBody role (some sdp)⟩ ∈ c.calls

def FollowsDescription (role id otherId : String) (env : Env) (c : P2PContext) (node : Ptr) : Prop :=
  isNodeOf otherId c node = true →
    env.allocMessage = true ∧ c.localId = some id ∧ DescriptionSent role id otherId c

def Sender.CandidatesFollow (id otherId : String) (s : Sender.State) : Sender.Label → Prop
  | .callback (.event (.localCandidate env node _ _)) =>
      FollowsDescription "offer" id otherId env s.peer node
  | _ => True

def Receiver.CandidatesFollow (id otherId : String) (s : Receiver.State) : Receiver.Label → Prop
  | .callback (.event (.localCandidate env node _ _)) =>
      FollowsDescription "answer" id otherId env s.peer node
  | _ => True

/-- Candidates follow the descriptions they belong to, and the receiver can open
a connection for an offer that it takes up. -/
def CandidatesFollow (senderId receiverId : String) (s : Pair × List Gathered) : PairLabel → Prop
  | .hub l => Sender.CandidatesFollow senderId receiverId s.1.hub l
  | .leaf _ l => Receiver.CandidatesFollow receiverId senderId (s.1.leaf ()) l
  | .toLeaf _ env => ∀ msg msgs, s.1.down () = msg :: msgs →
      (signalling senderId "offer").header msg → nodeOf senderId (s.1.leaf ()).peer = none →
        env.creates ∧ env.strdup = true
  | .toHub _ _ => True

section Sending

variable {role id otherId : String} {c d : P2PContext}

theorem description_sent {w : Permit} (hf : Frame w c d) (h : DescriptionSent role id otherId d) :
    DescriptionSent role id otherId c ∨
      ∃ msg ∈ addressed otherId (sentMessages c d), (signalling id role).header msg := by
  obtain ⟨sdp, hm⟩ := h
  obtain ⟨new, hnew, _⟩ := hf.calls
  rw [hnew] at hm
  rcases List.mem_append.mp hm with hm | hm
  · exact Or.inl ⟨sdp, hm⟩
  · right
    refine ⟨⟨some id, some otherId, descriptionBody role (some sdp)⟩, ?_, rfl, sdp, rfl⟩
    rw [mem_addressed, sentMessages_append hnew]
    exact ⟨List.mem_filterMap.mpr ⟨_, hm, rfl⟩, rfl⟩

inductive Puts (role id otherId : String) (c d : P2PContext) : List (String × String) → Prop
  | candidate {x : String × String} {msg : P2PSignalMessage} :
      addressed otherId (sentMessages c d) = [msg] → candidateFrom id msg = some x →
      DescriptionSent role id otherId c → Puts role id otherId c d [x]
  | nothing : (∀ msg ∈ addressed otherId (sentMessages c d), msg.type ≠ .candidate) →
      Puts role id otherId c d []

def Genuine (id : String) (channel : List P2PSignalMessage) : Prop :=
  ∀ msg ∈ channel, msg.type = .candidate → ∃ x, candidateFrom id msg = some x

theorem Puts.genuine {xs : List (String × String)} {channel : List P2PSignalMessage}
    (h : Puts role id otherId c d xs) (hg : Genuine id channel) :
    Genuine id (channel ++ addressed otherId (sentMessages c d)) := by
  intro msg hm htype
  rcases List.mem_append.mp hm with hm | hm
  · exact hg msg hm htype
  · cases h with
    | candidate hsent hx _ =>
        rw [hsent] at hm
        cases List.mem_singleton.mp hm
        exact ⟨_, hx⟩
    | nothing hnone => exact absurd htype (hnone msg hm)

theorem Puts.delivered {w : Permit} {xs put taken : List (String × String)} {ready : Prop}
    {channel : List P2PSignalMessage} (h : Puts role id otherId c d xs) (hf : Frame w c d)
    (hd : Delivered (signalling id role) put taken (DescriptionSent role id otherId c) ready channel) :
    Delivered (signalling id role) (put ++ xs) taken (DescriptionSent role id otherId d) ready
      (channel ++ addressed otherId (sentMessages c d)) := by
  cases h with
  | candidate hsent hx hopened =>
      rw [hsent]
      exact hd.send_item hopened hx
  | nothing hnone =>
      rw [List.append_nil]
      refine hd.send ?_ (description_sent hf)
      intro msg hm
      exact candidateFrom_none (hnone msg hm)

theorem puts_candidate {env : Env} {node : Ptr} {candidate mid : String}
    (hs : startedGathering c node = true) (hf : FollowsDescription role id otherId env c node)
    (hd : d = after (onPcLocalCandidateCallback env node candidate mid) c) :
    Puts role id otherId c d (gatheredFor otherId c node candidate mid) := by
  obtain ⟨n, hn, _⟩ := (Option.any_eq_true _ _).mp hs
  rw [onPcLocalCandidateCallback_after hn] at hd
  by_cases hid : n.remoteId = some otherId
  · have hnode : isNodeOf otherId c node = true := by simp [isNodeOf, hn, hid]
    obtain ⟨halloc, hlocal, hsent⟩ := hf hnode
    have hmsgs : addressed otherId (sentMessages c d) =
        [candidateMessage c.localId n.remoteId candidate mid] := by
      rw [halloc, if_neg (by decide)] at hd
      rw [sentMessages_append (congrArg P2PContext.calls hd)]
      simp [addressed, RtcCall.message?, candidateMessage, hid]
    rw [gatheredFor, if_pos hnode]
    exact .candidate hmsgs (by simp [candidateFrom, candidateMessage, hlocal]) hsent
  · have hnode : ¬ isNodeOf otherId c node = true := by simp [isNodeOf, hn, hid]
    rw [gatheredFor, if_neg hnode]
    apply Puts.nothing
    intro msg hm
    obtain ⟨hm, hto⟩ := mem_addressed.mp hm
    split at hd
    · rw [sentMessages_same (congrArg P2PContext.calls hd)] at hm
      exact absurd hm List.not_mem_nil
    · rw [sentMessages_append (congrArg P2PContext.calls hd)] at hm
      cases List.mem_singleton.mp hm
      exact absurd hto hid

end Sending

namespace Sender

variable {s t : State} {l : Label}

variable {msg : P2PSignalMessage} {env : Env}

theorem message_peer {env : Env} {msg : P2PSignalMessage} (h : threads.next s (.message env msg) = some t) :
    t.peer = after (senderHead env s.context.streams msg) s.peer := by
  cases next_moves h with
  | message _ hr =>
      rw [State.peer, hr.context]
      simp only [threads, after_get_bind, after_bind_pure, after_onPeer]
      rfl

theorem event_peer {event : PcEvent} (h : threads.next s (.callback (.event event)) = some t) :
    t.peer = after event.handle s.peer := by
  cases next_moves h with
  | callback hr =>
      rw [State.peer, hr.context]
      simp only [threads, Callback.run, after_bind_pure, after_onPeer]
      rfl

theorem sends_candidate (h : threads.next s l = some t) {msg : P2PSignalMessage}
    (hm : msg ∈ sentMessages s.peer t.peer) (ht : msg.type = .candidate) :
    ∃ env node candidate mid, l = .callback (.event (.localCandidate env node candidate mid)) := by
  cases sends h hm with
  | candidate _ => exact ⟨_, _, _, _, rfl⟩
  | streamReady streamId _ heq =>
      rw [heq] at ht
      cases ht
  | description node n role _ _ heq =>
      exact absurd ht (description_not_candidate (congrArg P2PSignalMessage.body heq))
  | joinRoom hjoin =>
      rw [hjoin] at ht
      cases ht

theorem puts {id otherId : String} (h : threads.next s l = some t)
    (hl : ∀ env node candidate mid, l = .callback (.event (.localCandidate env node candidate mid)) →
      startedGathering s.peer node = true ∧ FollowsDescription "offer" id otherId env s.peer node) :
    Puts "offer" id otherId s.peer t.peer (gathered otherId s l) := by
  by_cases hc : ∃ env node candidate mid,
      l = .callback (.event (.localCandidate env node candidate mid))
  · obtain ⟨env, node, candidate, mid, rfl⟩ := hc
    obtain ⟨hs, hf⟩ := hl env node candidate mid rfl
    exact puts_candidate hs hf (event_peer h)
  · have hnone : gathered otherId s l = [] := by
      unfold gathered
      split
      · next env node candidate mid => exact absurd ⟨env, node, candidate, mid, rfl⟩ hc
      · rfl
    rw [hnone]
    apply Puts.nothing
    intro msg hm ht
    exact hc (sends_candidate h (mem_addressed.mp hm).1 ht)

end Sender

namespace Receiver

variable {s t : State} {l : Label}

theorem message_peer (h : threads.next s (.message env msg) = some t) :
    t.peer = after (receiverHead env msg) s.peer := by
  cases next_moves h with
  | message _ hr =>
      rw [State.peer, hr.context]
      simp only [threads, after_bind_pure, after_onPeer]
      rfl

theorem event_peer {event : PcEvent} (h : threads.next s (.callback (.event event)) = some t) :
    t.peer = after event.handle s.peer := by
  cases next_moves h with
  | callback hr =>
      rw [State.peer, hr.context]
      simp only [threads, Callback.run, after_bind_pure, after_onPeer]
      rfl

theorem sends_candidate (h : threads.next s l = some t) (hm : msg ∈ sentMessages s.peer t.peer)
    (ht : msg.type = .candidate) :
    ∃ env node candidate mid, l = .callback (.event (.localCandidate env node candidate mid)) := by
  cases sends h hm with
  | candidate _ => exact ⟨_, _, _, _, rfl⟩
  | description node n role _ _ heq =>
      exact absurd ht (description_not_candidate (congrArg P2PSignalMessage.body heq))
  | request hrequest =>
      rw [ht] at hrequest
      rcases hrequest with hp | hp
      · cases hp
      · cases hp

theorem puts {id otherId : String} (h : threads.next s l = some t)
    (hl : ∀ env node candidate mid, l = .callback (.event (.localCandidate env node candidate mid)) →
      startedGathering s.peer node = true ∧ FollowsDescription "answer" id otherId env s.peer node) :
    Puts "answer" id otherId s.peer t.peer (gathered otherId s l) := by
  by_cases hc : ∃ env node candidate mid,
      l = .callback (.event (.localCandidate env node candidate mid))
  · obtain ⟨env, node, candidate, mid, rfl⟩ := hc
    obtain ⟨hs, hf⟩ := hl env node candidate mid rfl
    exact puts_candidate hs hf (event_peer h)
  · have hnone : gathered otherId s l = [] := by
      unfold gathered
      split
      · next env node candidate mid => exact absurd ⟨env, node, candidate, mid, rfl⟩ hc
      · rfl
    rw [hnone]
    apply Puts.nothing
    intro msg hm ht
    exact hc (sends_candidate h (mem_addressed.mp hm).1 ht)

theorem keeps_nodes (h : threads.next s l = some t) (ht : t.crashed = false) (p : Ptr) :
    ¬ (permit s l).lost p := by
  apply not_lost
  rintro env msg rfl hunlinks
  rw [unlinks_crash h hunlinks] at ht
  cases ht

theorem permit_added {pcId : Int} {candidate mid : String} (h : (permit s l).added pcId candidate mid) :
    ∃ env msg, l = .message env msg ∧ msg.type = .candidate := by
  cases l with
  | message env msg =>
      refine ⟨env, msg, rfl, ?_⟩
      rw [P2PSignalMessage.type, show msg.body = .candidate (some candidate) (some mid) from h]
      rfl
  | callback event => cases event <;> exact h.elim
  | _ => exact h.elim

/-- An offer of a known peer, or of one for which a connection can be opened,
becomes the remote description of its connection. -/
theorem receiverOffer_described {id sdp : String} {c : P2PContext}
    (h : nodeOf id c = none → env.creates ∧ env.strdup = true) :
    Described id (after (receiverOffer env (some id) (some sdp)) c) := by
  have hfound : ∃ p, value (findOrCreateNode env (some id) (some id)) c = some (.ok (some p)) ∧
      findPeerConnectionNodeByRemoteId
        (after (findOrCreateNode env (some id) (some id)) c).peerConnectionNodeCaches (some id) =
          some p := by
    cases hf : findPeerConnectionNodeByRemoteId c.peerConnectionNodeCaches (some id) with
    | some p =>
        obtain ⟨hv, hafter, _⟩ := findOrCreateNode_found env (some id) hf
        exact ⟨p, hv, by rw [hafter, hf]⟩
    | none =>
        obtain ⟨hcreates, hstrdup⟩ := h (by rw [nodeOf, hf]; rfl)
        have hv : value (createPeerConnection env (some id)) c = some 0 := by
          rw [createPeerConnection_value]
          simp [Int.not_le.mpr hcreates.1, hcreates.2]
        have hnew := find_createPeerConnection hf hv
        rw [if_pos ⟨hstrdup, rfl⟩] at hnew
        obtain ⟨hvalue, hafter, _⟩ := findOrCreateNode_missing env (some id) hf
        rw [hv, Option.map_some, hnew] at hvalue
        exact ⟨_, hvalue, by rw [hafter, hnew]⟩
  obtain ⟨p, hv, hp⟩ := hfound
  obtain ⟨n, hn, hget⟩ := nodeOf_of_find hp
  -- what follows the call keeps the nodes and only makes further calls
  have hrest : Keeps (Frame { Permit.nothing with closed := fun _ => True }) (do
      let _ ← initPeerConnection env n.pcId
      setLocalDescription p "answer"
      pure (0, [ReceiverOp.sendDescription p "answer", .setState .signaling]) : PeerM ReceiverPlan) := by
    apply keeps_bind (frame_initPeerConnection env n.pcId fun _ => trivial)
    intro _
    exact keeps_bind (frame_setLocalDescription p "answer") (fun _ => keeps_pure _)
  rw [receiverOffer, after_bind, hv]
  simp only
  rw [after_bind, readNode_some hget, readNode_after]
  refine described_frame (hrest _) (fun _ hf => hf) ?_
  exact ⟨n, hn, .setRemoteDescription n.pcId sdp "offer",
    List.mem_append_right _ (List.mem_singleton.mpr rfl), by simp [RtcCall.describes]⟩

theorem receiverHead_answers {c : P2PContext} {plan : ReceiverPlan} {node : Ptr} {role : String}
    (h : value (receiverHead env msg) c = some plan) (hm : .sendDescription node role ∈ plan.2) :
    msg.type = .offer := by
  cases hb : msg.body with
  | offer description =>
      rw [P2PSignalMessage.type, hb]
      rfl
  | connectRequest targetId =>
      simp only [receiverHead, hb] at h
      rcases receiverConnectRequest_plan h with hp | hp
      · simp [hp] at hm
      · simp [hp] at hm
  | streamReady streamId =>
      simp only [receiverHead, hb] at h
      rcases receiverStreamReady_plan h with hp | ⟨hp, _⟩
      · simp [hp] at hm
      · simp [hp] at hm
  | roomJoined roomId role localId | answer description | candidate candidate mid =>
      simp only [receiverHead, hb] at h
      obtain ⟨_, _, h⟩ := value_bind_some h
      cases h
      simp at hm
  | _ =>
      simp only [receiverHead, hb] at h
      cases h
      simp at hm

theorem pool_reachable {s : State} (h : system.Reachable s) :
    ∀ op ∈ s.pool, op = .setState .datachannelReady := by
  refine System.Reachable.invariant (fun s => ∀ op ∈ s.pool, op = .setState .datachannelReady) ?_ ?_ h
  · rintro s ⟨waitTimeout, rfl⟩ op hop
    exact absurd hop List.not_mem_nil
  · intro s l t _ hs hn op hop
    rcases next_pool hn op hop with hp | ⟨event, ops, _, hv, hop⟩
    · exact hs op hp
    · exact callback_ops hv op hop

theorem sends_answer (hr : system.Reachable s) (h : threads.next s l = some t)
    (hm : msg ∈ sentMessages s.peer t.peer) (ht : msg.type = .answer) :
    ∃ node role, .sendDescription node role ∈ s.todo := by
  cases sends h hm with
  | description node n role hop _ _ =>
      rcases hop with hop | hop
      · exact ⟨node, role, hop⟩
      · cases pool_reachable hr _ hop
  | candidate hb =>
      rw [P2PSignalMessage.type, hb] at ht
      cases ht
  | request hrequest =>
      rw [ht] at hrequest
      rcases hrequest with hp | hp
      · cases hp
      · cases hp

end Receiver

section Solicited

variable {senderId receiverId : String}

structure Solicited (receiverId : String) (s : Pair) : Prop where
  offered : ∀ msg ∈ s.down (), msg.type = .offer → ∃ n, nodeOf receiverId s.hub.peer = some n
  answering : ∀ node role, .sendDescription node role ∈ (s.leaf ()).todo →
    ∃ n, nodeOf receiverId s.hub.peer = some n
  answered : ∀ msg ∈ s.up (), msg.type = .answer → ∃ n, nodeOf receiverId s.hub.peer = some n

theorem notNegotiating_type {msg : P2PSignalMessage} (h : notNegotiating msg = true) :
    msg.type ≠ .offer ∧ msg.type ≠ .answer ∧ msg.type ≠ .candidate := by
  simpa [notNegotiating, and_assoc] using h

theorem node_kept {s t : Sender.State} {l : Sender.Label} (h : Sender.threads.next s l = some t)
    (hn : ∃ n, nodeOf receiverId s.peer = some n) : ∃ n, nodeOf receiverId t.peer = some n := by
  obtain ⟨n, hn⟩ := hn
  obtain ⟨m, hm, _⟩ := nodeOf_frame (Sender.next_frame h) (Sender.not_lost s l) hn
  exact ⟨m, hm⟩

theorem Sender.offers_node {s t : State} {l : Label} (h : threads.next s l = some t)
    {msg : P2PSignalMessage} (hm : msg ∈ addressed receiverId (sentMessages s.peer t.peer))
    (ht : msg.type = .offer) : ∃ n, nodeOf receiverId s.peer = some n := by
  obtain ⟨hm, hto⟩ := mem_addressed.mp hm
  cases sends h hm with
  | description node n role _ hn heq =>
      rw [heq] at hto
      exact nodeOf_of_linked hn hto
  | streamReady streamId _ heq =>
      rw [heq] at ht
      cases ht
  | candidate hb =>
      rw [P2PSignalMessage.type, hb] at ht
      cases ht
  | joinRoom hjoin =>
      rw [hjoin] at ht
      cases ht

theorem solicited_hub {s t : Pair} {a : Sender.Label} (h : Solicited receiverId s)
    (hstep : Network.HubStep (pair senderId receiverId) s t a)
    (hup : ∀ msg ∈ t.up (), msg ∈ s.up ()) : Solicited receiverId t where
  offered := by
    intro msg hm ht
    apply node_kept hstep.next
    rw [hstep.down ()] at hm
    rcases List.mem_append.mp hm with hm | hm
    · exact h.offered msg hm ht
    · exact Sender.offers_node hstep.next hm ht
  answering := by
    intro node role hm
    rw [hstep.leaf] at hm
    exact node_kept hstep.next (h.answering node role hm)
  answered := fun msg hm ht => node_kept hstep.next (h.answered msg (hup msg hm) ht)

theorem solicited_leaf {s t : Pair} {b : Receiver.Label} (h : Solicited receiverId s)
    (hr : Receiver.system.Reachable (s.leaf ()))
    (hstep : Network.LeafStep (pair senderId receiverId) s t () b)
    (hdown : ∀ msg ∈ t.down (), msg ∈ s.down ()) (hb : ∀ env msg, b = .message env msg → msg.type = .offer →
      ∃ n, nodeOf receiverId s.hub.peer = some n) : Solicited receiverId t where
  offered := by
    intro msg hm ht
    rw [hstep.hub]
    exact h.offered msg (hdown msg hm) ht
  answering := by
    intro node role hm
    rw [hstep.hub]
    rcases next_todo hstep.next with ⟨hsame, _⟩ | ⟨_, _, _, htodo, _⟩ | ⟨env, msg, hl, _, hv, _⟩
    · rw [hsame] at hm
      exact h.answering node role hm
    · exact h.answering node role (by rw [htodo]; exact List.mem_cons_of_mem _ hm)
    · obtain ⟨_, hv⟩ := Receiver.threads_head hv
      exact hb env msg hl (Receiver.receiverHead_answers hv hm)
  answered := by
    intro msg hm ht
    rw [hstep.hub]
    rw [hstep.up] at hm
    rcases List.mem_append.mp hm with hm | hm
    · exact h.answered msg hm ht
    · obtain ⟨node, role, hop⟩ := Receiver.sends_answer hr hstep.next (mem_addressed.mp hm).1 ht
      exact h.answering node role hop

end Solicited

section Directions

variable {role id otherId : String} {put : List (String × String)} {c c' d d' : P2PContext}
  {msg : P2PSignalMessage} {channel : List P2PSignalMessage}

structure Direction (role id otherId : String) (put : List (String × String)) (c d : P2PContext)
    (channel : List P2PSignalMessage) : Prop where
  hears : HearsOnly id d
  genuine : Genuine id channel
  delivered : Delivered (signalling id role) put (addedFrom id d) (DescriptionSent role id otherId c)
    (Described id d) channel

inductive Takes (role id : String) (msg : P2PSignalMessage) (d d' : P2PContext) : Prop
  | candidate (x : String × String) : candidateFrom id msg = some x →
      (Described id d → HearsOnly id d' ∧ addedFrom id d' = addedFrom id d ++ [x] ∧ Described id d') →
      Takes role id msg d d'
  | other : msg.type ≠ .candidate → Unheard id d d' →
      ((signalling id role).header msg → Described id d') → Takes role id msg d d'

theorem Direction.puts {w : Permit} {xs : List (String × String)}
    (h : Direction role id otherId put c d channel) (hp : Puts role id otherId c c' xs)
    (hf : Frame w c c') : Direction role id otherId (put ++ xs) c' d
      (channel ++ addressed otherId (sentMessages c c')) where
  hears := h.hears
  genuine := hp.genuine h.genuine
  delivered := hp.delivered hf h.delivered

theorem Direction.unheard (h : Direction role id otherId put c d channel) (hu : Unheard id d d') :
    Direction role id otherId put c d' channel where
  hears := hu.hears
  genuine := h.genuine
  delivered := by
    rw [hu.added]
    exact h.delivered.mono hu.described

theorem Direction.takes (h : Direction role id otherId put c d (msg :: channel))
    (ht : Takes role id msg d d') : Direction role id otherId put c d' channel := by
  have hgenuine : Genuine id channel := fun m hm => h.genuine m (List.mem_cons_of_mem _ hm)
  cases ht with
  | candidate x hx htaken =>
      obtain ⟨hhears, hadded, hdescribed⟩ := htaken (h.delivered.ready_of_item hx)
      refine ⟨hhears, hgenuine, ?_⟩
      rw [hadded]
      exact h.delivered.take_item hx fun _ => hdescribed
  | other htype hu hheader =>
      refine ⟨hu.hears, hgenuine, ?_⟩
      rw [hu.added]
      exact h.delivered.take (candidateFrom_none htype) hu.described hheader

end Directions

theorem arrived_candidate {x : String × String} (msg : P2PSignalMessage) (h : candidateFrom id msg = some x) :
    arrived msg = ⟨some id, msg.receiverId, .candidate (some x.1) (some x.2)⟩ := by
  obtain ⟨hid, hb⟩ := candidateFrom_some h
  rw [arrived, hb, hid]
  rfl

theorem arrived_not_candidate (h : msg.type ≠ .candidate) : (arrived msg).type ≠ .candidate := by
  intro ht
  rw [arrived_type (by rw [ht]; decide)] at ht
  exact h ht

namespace Sender

variable {id : String} {s t : State} {l : Label} {env : Env} {msg : P2PSignalMessage}

theorem permit_added {pcId : Int} {candidate mid : String} (h : (permit s l).added pcId candidate mid) :
    ∃ env msg, l = .message env msg ∧ msg.type = .candidate := by
  have hop : ∀ env, ∀ ops : List SenderOp,
      ¬ ((ops.head?.map (SenderOp.permit env)).getD Permit.nothing).added pcId candidate mid := by
    intro env ops
    cases ops with
    | nil => exact fun hf => hf
    | cons op ops => cases op <;> exact fun hf => hf
  cases l with
  | message env msg =>
      refine ⟨env, msg, rfl, ?_⟩
      rw [P2PSignalMessage.type, show msg.body = .candidate (some candidate) (some mid) from h]
      rfl
  | handlerOp env => exact absurd h (hop env _)
  | callbackOp env => exact absurd h (hop env _)
  | callback event => cases event <;> exact h.elim
  | thread input => exact h.elim

theorem unheard (h : threads.next s l = some t) (hh : HearsOnly id s.peer)
    (hl : ∀ env msg, l = .message env msg → msg.type ≠ .candidate) : Unheard id s.peer t.peer := by
  refine unheard_frame (next_frame h) (not_lost s l) ?_ hh
  intro pcId candidate mid hadded
  obtain ⟨env, msg, rfl, ht⟩ := permit_added hadded
  exact hl env msg rfl ht

theorem takes (h : threads.next s (.message env (arrived msg)) = some t) (hh : HearsOnly id s.peer)
    (hg : msg.type = .candidate → ∃ x, candidateFrom id msg = some x)
    (hn : msg.type = .answer → ∃ n, nodeOf id s.peer = some n) : Takes "answer" id msg s.peer t.peer := by
  by_cases ht : msg.type = .candidate
  · obtain ⟨x, hx⟩ := hg ht
    refine .candidate x hx fun hd => ?_
    obtain ⟨d, hafter, htaken⟩ := handleCandidate_added hd hh x.1 x.2
    have hpeer : t.peer = d := by
      rw [message_peer h, arrived_candidate msg hx]
      simp only [senderHead, after_bind_pure]
      exact hafter
    rw [hpeer]
    exact htaken
  · refine .other ht (unheard h hh ?_) ?_
    · rintro _ _ ⟨⟩
      exact arrived_not_candidate ht
    · rintro ⟨hid, sdp, hb⟩
      have harrived : arrived msg = ⟨some id, msg.receiverId, .answer (some sdp)⟩ := by
        rw [arrived, hb, hid]
        rfl
      rw [message_peer h, harrived]
      simp only [senderHead, after_bind_pure]
      apply handleAnswer_described
      apply hn
      rw [P2PSignalMessage.type, hb]
      rfl

end Sender

namespace Receiver

variable {id : String} {s t : State} {l : Label} {env : Env} {msg : P2PSignalMessage}

theorem unheard (h : threads.next s l = some t) (ht : t.crashed = false) (hh : HearsOnly id s.peer)
    (hl : ∀ env msg, l = .message env msg → msg.type ≠ .candidate) : Unheard id s.peer t.peer := by
  refine unheard_frame (next_frame h) (keeps_nodes h ht) ?_ hh
  intro pcId candidate mid hadded
  obtain ⟨env, msg, rfl, htype⟩ := permit_added hadded
  exact hl env msg rfl htype

theorem takes (h : threads.next s (.message env (arrived msg)) = some t) (ht : t.crashed = false)
    (hh : HearsOnly id s.peer) (hg : msg.type = .candidate → ∃ x, candidateFrom id msg = some x)
    (ho : (signalling id "offer").header msg → nodeOf id s.peer = none →
      env.creates ∧ env.strdup = true) : Takes "offer" id msg s.peer t.peer := by
  by_cases htype : msg.type = .candidate
  · obtain ⟨x, hx⟩ := hg htype
    refine .candidate x hx fun hd => ?_
    obtain ⟨d, hafter, htaken⟩ := handleCandidate_added hd hh x.1 x.2
    have hpeer : t.peer = d := by
      rw [message_peer h, arrived_candidate msg hx]
      simp only [receiverHead, after_bind_pure]
      exact hafter
    rw [hpeer]
    exact htaken
  · refine .other htype (unheard h ht hh ?_) ?_
    · rintro _ _ ⟨⟩
      exact arrived_not_candidate htype
    · intro hheader
      have hopens := ho hheader
      obtain ⟨hid, sdp, hb⟩ := hheader
      have harrived : arrived msg = ⟨some id, msg.receiverId, .offer (some sdp)⟩ := by
        rw [arrived, hb, hid]
        rfl
      rw [message_peer h, harrived]
      exact receiverOffer_described hopens

end Receiver

section Negotiated

variable {senderId receiverId : String}

structure Negotiated (senderId receiverId : String) (s : Pair × List Gathered) : Prop where
  solicited : Solicited receiverId s.1
  down : (s.1.leaf ()).crashed = false → Direction "offer" senderId receiverId
    (s.2.filterMap Gathered.bySender) s.1.hub.peer (s.1.leaf ()).peer (s.1.down ())
  up : Direction "answer" receiverId senderId (s.2.filterMap Gathered.byReceiver)
    (s.1.leaf ()).peer s.1.hub.peer (s.1.up ())

theorem bySender_hub (log : List Gathered) (xs : List (String × String)) :
    (log ++ xs.map fun x => Gathered.sender x.1 x.2).filterMap Gathered.bySender =
      log.filterMap Gathered.bySender ++ xs := by
  simp [List.filterMap_map, Function.comp_def, Gathered.bySender]

theorem byReceiver_hub (log : List Gathered) (xs : List (String × String)) :
    (log ++ xs.map fun x => Gathered.sender x.1 x.2).filterMap Gathered.byReceiver =
      log.filterMap Gathered.byReceiver := by
  simp [List.filterMap_map, Function.comp_def, Gathered.byReceiver]

theorem bySender_leaf (log : List Gathered) (xs : List (String × String)) :
    (log ++ xs.map fun x => Gathered.receiver x.1 x.2).filterMap Gathered.bySender =
      log.filterMap Gathered.bySender := by
  simp [List.filterMap_map, Function.comp_def, Gathered.bySender]

theorem byReceiver_leaf (log : List Gathered) (xs : List (String × String)) :
    (log ++ xs.map fun x => Gathered.receiver x.1 x.2).filterMap Gathered.byReceiver =
      log.filterMap Gathered.byReceiver ++ xs := by
  simp [List.filterMap_map, Function.comp_def, Gathered.byReceiver]

theorem negotiated_init {s : Pair × List Gathered} (h : (negotiation senderId receiverId).init s) :
    Negotiated senderId receiverId s := by
  obtain ⟨⟨⟨streams, roomId, waitTimeout, hhub⟩, hleaf, hdown, hup⟩, hlog⟩ := h
  obtain ⟨receiverTimeout, hleaf⟩ := hleaf ()
  have hnil : ∀ id, Genuine id [] := fun id msg hm => absurd hm List.not_mem_nil
  refine ⟨⟨?_, ?_, ?_⟩, fun _ => ⟨?_, ?_, ?_⟩, ⟨?_, ?_, ?_⟩⟩
  · simp [hdown]
  · simp [hleaf, Receiver.State.initial]
  · simp [hup]
  · rw [hleaf]
    intro pcId candidate mid hm
    exact absurd hm List.not_mem_nil
  · rw [hdown]
    exact hnil senderId
  · rw [hlog, hleaf, hhub, hdown]
    exact delivered_nil fun ⟨sdp, hm⟩ => absurd hm List.not_mem_nil
  · rw [hhub]
    intro pcId candidate mid hm
    exact absurd hm List.not_mem_nil
  · rw [hup]
    exact hnil receiverId
  · rw [hlog, hleaf, hhub, hup]
    exact delivered_nil fun ⟨sdp, hm⟩ => absurd hm List.not_mem_nil

section Moves

variable {s t : Pair × List Gathered}

theorem negotiated_hub {a : Sender.Label} (h : Negotiated senderId receiverId s)
    (hstep : Network.HubStep (pair senderId receiverId) s.1 t.1 a) (hup : t.1.up = s.1.up)
    (hlog : t.2 = s.2 ++ gathering senderId receiverId s.1 (.hub a))
    (hmay : Sender.mayHappen s.1.hub a = true) (hc : Sender.CandidatesFollow senderId receiverId s.1.hub a) :
    Negotiated senderId receiverId t := by
  have hputs := Sender.puts hstep.next (by
    rintro env node candidate mid rfl
    exact ⟨hmay, hc⟩)
  have hunheard := Sender.unheard hstep.next h.up.hears (by
    rintro env msg rfl
    exact (notNegotiating_type hmay).2.2)
  refine ⟨solicited_hub h.solicited hstep (by rw [hup]; exact fun _ hm => hm), ?_, ?_⟩
  · intro hrun
    rw [hstep.leaf] at hrun ⊢
    rw [hlog, gathering, bySender_hub, hstep.down ()]
    exact (h.down hrun).puts hputs (Sender.next_frame hstep.next)
  · rw [hlog, gathering, byReceiver_hub, hstep.leaf, hup]
    exact h.up.unheard hunheard

theorem negotiated_toHub {env : Env} {msg : P2PSignalMessage} (h : Negotiated senderId receiverId s)
    (hup : s.1.up () = msg :: t.1.up ())
    (hstep : Network.HubStep (pair senderId receiverId) s.1 t.1 (.message env (arrived msg)))
    (hlog : t.2 = s.2) : Negotiated senderId receiverId t := by
  have hnext : Sender.threads.next s.1.hub (.message env (arrived msg)) = some t.1.hub := hstep.next
  have hmem : ∀ m ∈ t.1.up (), m ∈ s.1.up () := by
    intro m hm
    rw [hup]
    exact List.mem_cons_of_mem _ hm
  have hhead : msg ∈ s.1.up () := by
    rw [hup]
    exact List.mem_cons_self
  have hputs : Puts "offer" senderId receiverId s.1.hub.peer t.1.hub.peer [] :=
    Sender.puts hnext (by rintro _ _ _ _ ⟨⟩)
  have htakes := Sender.takes hnext h.up.hears (h.up.genuine msg hhead)
    (h.solicited.answered msg hhead)
  refine ⟨solicited_hub h.solicited hstep hmem, ?_, ?_⟩
  · intro hrun
    rw [hstep.leaf] at hrun ⊢
    have hdown := (h.down hrun).puts hputs (Sender.next_frame hnext)
    rw [List.append_nil] at hdown
    rw [hlog, hstep.down ()]
    exact hdown
  · rw [hlog, hstep.leaf]
    have hdirection := h.up
    rw [hup] at hdirection
    exact hdirection.takes htakes

theorem negotiated_leaf {b : Receiver.Label} (h : Negotiated senderId receiverId s)
    (hr : Receiver.system.Reachable (s.1.leaf ()))
    (hstep : Network.LeafStep (pair senderId receiverId) s.1 t.1 () b) (hdown : t.1.down = s.1.down)
    (hlog : t.2 = s.2 ++ gathering senderId receiverId s.1 (.leaf () b))
    (hmay : Receiver.mayHappen (s.1.leaf ()) b = true)
    (hc : Receiver.CandidatesFollow receiverId senderId (s.1.leaf ()) b) :
    Negotiated senderId receiverId t := by
  have hputs := Receiver.puts hstep.next (by
    rintro env node candidate mid rfl
    exact ⟨hmay, hc⟩)
  refine ⟨solicited_leaf h.solicited hr hstep (by rw [hdown]; exact fun _ hm => hm) ?_, ?_, ?_⟩
  · rintro env msg rfl htype
    exact absurd htype (notNegotiating_type hmay).1
  · intro hrun
    have hdirection := h.down (next_running hstep.next)
    have hunheard := Receiver.unheard hstep.next hrun hdirection.hears (by
      rintro env msg rfl
      exact (notNegotiating_type hmay).2.2)
    rw [hlog, gathering, bySender_leaf, hstep.hub, hdown]
    exact hdirection.unheard hunheard
  · rw [hlog, gathering, byReceiver_leaf, hstep.hub, hstep.up]
    exact h.up.puts hputs (Receiver.next_frame hstep.next)

theorem negotiated_toLeaf {env : Env} {msg : P2PSignalMessage}
    (h : Negotiated senderId receiverId s) (hr : Receiver.system.Reachable (s.1.leaf ()))
    (hdown : s.1.down () = msg :: t.1.down ())
    (hstep : Network.LeafStep (pair senderId receiverId) s.1 t.1 () (.message env (arrived msg)))
    (hlog : t.2 = s.2)
    (hc : (signalling senderId "offer").header msg → nodeOf senderId (s.1.leaf ()).peer = none →
      env.creates ∧ env.strdup = true) : Negotiated senderId receiverId t := by
  have hnext : Receiver.threads.next (s.1.leaf ()) (.message env (arrived msg)) = some (t.1.leaf ()) :=
    hstep.next
  have hmem : ∀ m ∈ t.1.down (), m ∈ s.1.down () := by
    intro m hm
    rw [hdown]
    exact List.mem_cons_of_mem _ hm
  have hhead : msg ∈ s.1.down () := by
    rw [hdown]
    exact List.mem_cons_self
  have hputs : Puts "answer" receiverId senderId (s.1.leaf ()).peer (t.1.leaf ()).peer [] :=
    Receiver.puts hnext (by rintro _ _ _ _ ⟨⟩)
  refine ⟨solicited_leaf h.solicited hr hstep hmem ?_, ?_, ?_⟩
  · rintro _ _ ⟨⟩ htype
    rw [arrived_type (by rw [htype]; decide)] at htype
    exact h.solicited.offered msg hhead htype
  · intro hrun
    have hdirection := h.down (next_running hnext)
    have htakes := Receiver.takes hnext hrun hdirection.hears (hdirection.genuine msg hhead) hc
    rw [hlog, hstep.hub]
    rw [hdown] at hdirection
    exact hdirection.takes htakes
  · have hdirection := h.up.puts hputs (Receiver.next_frame hnext)
    rw [List.append_nil] at hdirection
    rw [hlog, hstep.hub, hstep.up]
    exact hdirection

theorem negotiated_step {l : PairLabel} (hr : (negotiation senderId receiverId).Reachable s)
    (h : Negotiated senderId receiverId s) (hc : CandidatesFollow senderId receiverId s l)
    (hn : (negotiation senderId receiverId).next s l = some t) : Negotiated senderId receiverId t := by
  obtain ⟨hn, hlog⟩ := System.observed_next.mp hn
  obtain ⟨hmay, hnext⟩ := System.guard_next.mp hn
  have hleaf := (Network.reachable_parts hr.of_observed.unguard).2 ()
  cases Network.next_moves hnext with
  | hub hstep hup => exact negotiated_hub h hstep hup hlog hmay hc
  | toHub msg hup _ hstep =>
      exact negotiated_toHub h hup hstep (by rw [hlog]; exact List.append_nil _)
  | leaf hstep hdown => exact negotiated_leaf h hleaf hstep hdown hlog hmay hc
  | toLeaf msg hdown _ hstep =>
      refine negotiated_toLeaf h hleaf hdown hstep (by rw [hlog]; exact List.append_nil _) ?_
      exact hc msg _ hdown

end Moves

/-- No candidate is lost in a run in which candidates follow the descriptions
they belong to: what a peer has gathered was added to the connection of the other
one, behind its remote description, or is still under way, in this order. -/
theorem no_candidate_lost {s : Pair × List Gathered}
    (h : ((negotiation senderId receiverId).restrict
      (CandidatesFollow senderId receiverId)).Reachable s) :
    ((s.1.leaf ()).crashed = false → s.2.filterMap Gathered.bySender =
      addedFrom senderId (s.1.leaf ()).peer ++ (s.1.down ()).filterMap (candidateFrom senderId)) ∧
    s.2.filterMap Gathered.byReceiver =
      addedFrom receiverId s.1.hub.peer ++ (s.1.up ()).filterMap (candidateFrom receiverId) := by
  have hnegotiated : Negotiated senderId receiverId s := by
    refine System.Reachable.invariant (Negotiated senderId receiverId) ?_ ?_ h
    · intro u hu
      exact negotiated_init hu
    · intro u l v hr ih hn
      obtain ⟨hc, hn⟩ := System.restrict_next.mp hn
      exact negotiated_step hr.of_restrict ih hc hn
  constructor
  · intro hrun
    exact (hnegotiated.down hrun).delivered.complete
  · exact hnegotiated.up.delivered.complete

end Negotiated

/-- A sender of one video stream and a receiver, before either has joined. -/
def Pair.start : Pair where
  hub := Sender.State.start
  leaf := fun _ => .initial 60
  down := fun _ => []
  up := fun _ => []

theorem pair_init (senderId receiverId : String) : (negotiation senderId receiverId).init (Pair.start, []) :=
  ⟨⟨⟨_, _, _, rfl⟩, fun _ => ⟨60, rfl⟩, fun _ => rfl, fun _ => rfl⟩, rfl⟩

def receiverAnnounced : List PairLabel :=
  [.hub (.message (.succeeding 1 1) ⟨none, none, .roomJoined none none (some "sender")⟩),
    .hub (.handlerOp (.succeeding 1 1)),
    .leaf () (.message (.succeeding 0 1) ⟨none, none, .roomJoined none none (some "receiver")⟩),
    .leaf () (.handlerOp (.succeeding 0 1)),
    .hub (.message (.succeeding 1 1) ⟨none, none, .connectRequest (some "receiver")⟩)]

def senderGathers : PairLabel := .hub (.callback (.event (.localCandidate (.succeeding 1 1) 0 "host" "0")))

def receiverGathers : PairLabel :=
  .leaf () (.callback (.event (.localCandidate (.succeeding 0 1) 0 "relay" "0")))

def candidatesInTime : List PairLabel :=
  receiverAnnounced ++ [.hub (.handlerOp (.succeeding 1 1)), senderGathers, .toLeaf () (.succeeding 0 1),
    .leaf () (.handlerOp (.succeeding 0 1)), .leaf () (.handlerOp (.succeeding 0 1)), receiverGathers,
    .toLeaf () (.succeeding 0 1), .hub (.handlerOp (.succeeding 1 1)), .toHub () (.succeeding 1 1),
    .toHub () (.succeeding 1 1)]

def candidateTooEarly : List PairLabel :=
  receiverAnnounced ++ [senderGathers, .hub (.handlerOp (.succeeding 1 1)), .toLeaf () (.succeeding 0 1),
    .toLeaf () (.succeeding 0 1)]

def sentDescription (role id otherId : String) (c : P2PContext) : Bool :=
  (c.calls.filterMap RtcCall.message?).contains
    ⟨some id, some otherId, descriptionBody role (some "sdp")⟩

theorem descriptionSent_of {role id otherId : String} {c : P2PContext}
    (h : sentDescription role id otherId c = true) : DescriptionSent role id otherId c := by
  obtain ⟨call, hcall, hmsg⟩ := List.mem_filterMap.mp (List.contains_iff_mem.mp h)
  cases call with
  | sendMessage msg =>
      cases hmsg
      exact ⟨"sdp", hcall⟩
  | _ => cases hmsg

def followsDescription (role id otherId : String) (env : Env) (c : P2PContext) : Bool :=
  env.allocMessage && c.localId == some id && sentDescription role id otherId c

theorem followsDescription_of {role id otherId : String} {env : Env} {c : P2PContext} (node : Ptr)
    (h : followsDescription role id otherId env c = true) :
    FollowsDescription role id otherId env c node := by
  simp only [followsDescription, Bool.and_eq_true, beq_iff_eq] at h
  exact fun _ => ⟨h.1.1, h.1.2, descriptionSent_of h.2⟩

def candidatesFollow (s : Pair × List Gathered) : PairLabel → Bool
  | .hub (.callback (.event (.localCandidate env _ _ _))) =>
      followsDescription "offer" "sender" "receiver" env s.1.hub.peer
  | .leaf _ (.callback (.event (.localCandidate env _ _ _))) =>
      followsDescription "answer" "receiver" "sender" env (s.1.leaf ()).peer
  | .toLeaf _ env => decide env.creates && env.strdup
  | _ => true

theorem candidatesFollow_of {s : Pair × List Gathered} {l : PairLabel}
    (h : candidatesFollow s l = true) : CandidatesFollow "sender" "receiver" s l := by
  cases l with
  | hub a =>
      cases a with
      | callback callback =>
          cases callback with
          | stateChange node state => trivial
          | event event =>
              cases event with
              | localCandidate env node candidate mid => exact followsDescription_of node h
              | _ => trivial
      | _ => trivial
  | leaf i b =>
      cases b with
      | callback callback =>
          cases callback with
          | event event =>
              cases event with
              | localCandidate env node candidate mid => exact followsDescription_of node h
              | _ => trivial
          | _ => trivial
      | _ => trivial
  | toLeaf i env =>
      obtain ⟨hcreates, hstrdup⟩ := Bool.and_eq_true_iff.mp h
      exact fun _ _ _ _ _ => ⟨of_decide_eq_true hcreates, hstrdup⟩
  | toHub i env => trivial

theorem no_candidate_lost_in_time :
    ∃ s : Pair × List Gathered, addedFrom "sender" (s.1.leaf ()).peer = [("host", "0")] ∧
      addedFrom "receiver" s.1.hub.peer = [("relay", "0")] ∧
      s.2.filterMap Gathered.bySender = addedFrom "sender" (s.1.leaf ()).peer ++
        (s.1.down ()).filterMap (candidateFrom "sender") := by
  have hrun : (((negotiation "sender" "receiver").guard candidatesFollow).run candidatesInTime
      (Pair.start, [])).map (fun s => ((s.1.leaf ()).crashed,
        addedFrom "sender" (s.1.leaf ()).peer, addedFrom "receiver" s.1.hub.peer)) =
      some (false, [("host", "0")], [("relay", "0")]) := by
    decide +kernel
  obtain ⟨s, hs, hview⟩ := Option.map_eq_some_iff.mp hrun
  simp only [Prod.mk.injEq] at hview
  obtain ⟨hrunning, hsender, hreceiver⟩ := hview
  have hreachable := System.Reachable.of_guard (fun _ _ => candidatesFollow_of) (pair_init _ _) hs
  exact ⟨s, hsender, hreceiver, (no_candidate_lost hreachable).1 hrunning⟩

/-- A candidate that overtakes the offer it belongs to is dropped. -/
theorem early_candidate_lost :
    ¬ ∀ s, (negotiation "sender" "receiver").Reachable s → (s.1.leaf ()).crashed = false →
      s.2.filterMap Gathered.bySender = addedFrom "sender" (s.1.leaf ()).peer ++
        (s.1.down ()).filterMap (candidateFrom "sender") := by
  intro h
  have hrun : ((negotiation "sender" "receiver").run candidateTooEarly (Pair.start, [])).map
      (fun s => ((s.1.leaf ()).crashed, s.2.filterMap Gathered.bySender,
        addedFrom "sender" (s.1.leaf ()).peer, s.1.down ())) =
      some (false, [("host", "0")], [], []) := by
    decide +kernel
  obtain ⟨s, hs, hview⟩ := Option.map_eq_some_iff.mp hrun
  simp only [Prod.mk.injEq] at hview
  obtain ⟨hrunning, hgathered, hadded, hdown⟩ := hview
  have hlost := h s (.of_run (pair_init _ _) hs) hrunning
  rw [hgathered, hadded, hdown] at hlost
  cases hlost

end P2PFFmpeg
