import P2PFFmpeg.Library.Network
import P2PFFmpeg.Receiver.Discipline
import P2PFFmpeg.Sender.StartUp
import P2PFFmpeg.Signal.Codec

namespace P2PFFmpeg

open Library Library.Program Library.Transition Library.Concurrent Message Peer

def RtcCall.message? : RtcCall → Option P2PSignalMessage
  | .sendMessage msg => some msg
  | _ => none

def sentMessages (c d : P2PContext) : List P2PSignalMessage :=
  (d.calls.drop c.calls.length).filterMap RtcCall.message?

def addressed (id : String) (msgs : List P2PSignalMessage) : List P2PSignalMessage :=
  msgs.filter fun msg => msg.receiverId == some id

/-- A message as it is read from the JSON text that it was written to. -/
def arrived (msg : P2PSignalMessage) : P2PSignalMessage :=
  { msg with body := Codec.received msg.body }

/-- The sender and its receivers, each known by its id, over FIFO channels. A
message from the signalling server is a step of the peer that gets it. -/
def session (senderId : String) :
    Network.Star String P2PSignalMessage Sender.State Receiver.State Sender.Label Receiver.Label
      Env where
  hub := Sender.system
  leaf := Receiver.system
  down s t id := addressed id (sentMessages s.peer t.peer)
  up s t := addressed senderId (sentMessages s.peer t.peer)
  hubTakes env msg := .message env (arrived msg)
  leafTakes env msg := .message env (arrived msg)

abbrev Session := Network.Net String P2PSignalMessage Sender.State Receiver.State

abbrev SessionLabel := Network.Label String Sender.Label Receiver.Label Env

def fromServer (allowed : P2PSignalMessage → Bool) : SessionLabel → Bool
  | .hub (.message _ msg) => allowed msg
  | .leaf _ (.message _ msg) => allowed msg
  | _ => true

variable {msg : P2PSignalMessage}

theorem mem_sentMessages {w : Permit} {c d : P2PContext} (h : Frame w c d) (hm : msg ∈ sentMessages c d) :
    w.sent msg := by
  obtain ⟨new, hnew, hsent⟩ := h.calls
  rw [sentMessages, hnew, List.drop_left] at hm
  obtain ⟨call, hcall, hmsg⟩ := List.mem_filterMap.mp hm
  cases call with
  | sendMessage m =>
      cases hmsg
      exact hsent _ hcall
  | _ => cases hmsg

theorem mem_addressed {id : String} {msgs : List P2PSignalMessage} :
    msg ∈ addressed id msgs ↔ msg ∈ msgs ∧ msg.receiverId = some id := by
  simp [addressed]

theorem arrived_type (h : (arrived msg).type ≠ .error) : (arrived msg).type = msg.type := by
  by_cases hb : msg.body = .unknown
  · exact absurd (by simp [arrived, P2PSignalMessage.type, Codec.received, hb, Body.type]) h
  · exact Codec.received_type hb

theorem hub_takes {senderId : String} {s t : Session} {env : Env}
    (h : Network.HubStep (session senderId) s t ((session senderId).hubTakes env msg)) :
    Sender.threads.next s.hub (.message env (arrived msg)) = some t.hub := h.next

theorem sentMessages_append {c d : P2PContext} {calls : List RtcCall}
    (h : d.calls = c.calls ++ calls) : sentMessages c d = calls.filterMap RtcCall.message? := by
  rw [sentMessages, h, List.drop_left]

theorem sentMessages_same {c d : P2PContext} (h : d.calls = c.calls) : sentMessages c d = [] :=
  @sentMessages_append c d [] (by rw [h, List.append_nil])

theorem sendDescription_sends {env : Env} {node : Ptr} {role : String} {c : P2PContext}
    (h : msg ∈ sentMessages c (after (sendDescription env node role) c)) :
    ∃ n, c.peerConnectionNodeCaches.get? node = some n ∧
      msg = ⟨c.localId, n.remoteId, descriptionBody role env.localDescription⟩ := by
  rw [sendDescription, after_bind, readNode_after] at h
  cases hn : c.peerConnectionNodeCaches.get? node with
  | none =>
      rw [readNode_none hn, sentMessages_same rfl] at h
      exact absurd h List.not_mem_nil
  | some n =>
      rw [readNode_some hn] at h
      simp only [after_get_bind] at h
      split at h
      · rw [after_throw, sentMessages_same rfl] at h
        exact absurd h List.not_mem_nil
      · rw [sendSignalMessage, after_bind_pure, sentMessages_append rfl] at h
        exact ⟨n, rfl, List.mem_singleton.mp h⟩

theorem description_type {role : String} {description : Option String}
    (h : msg.body = descriptionBody role description) : msg.type = .offer ∨ msg.type = .answer := by
  rw [P2PSignalMessage.type, h, descriptionBody]
  split
  · exact Or.inl rfl
  · exact Or.inr rfl

namespace Sender

inductive Sends (s : State) (msg : P2PSignalMessage) : Label → Prop
  | streamReady {env request p} (streamId) : Accepts request s.peer p →
      msg = ⟨s.peer.localId, request.senderId, .streamReady streamId⟩ →
      Sends s msg (.message env request)
  | description {env : Env} {l} (node n role) :
      .sendDescription node role ∈ s.todo ∨ .sendDescription node role ∈ s.pool →
      s.peer.peerConnectionNodeCaches.get? node = some n →
      msg = ⟨s.peer.localId, n.remoteId, descriptionBody role env.localDescription⟩ →
      Sends s msg l
  | candidate {env node candidate mid} : msg.body = .candidate (some candidate) (some mid) →
      Sends s msg (.callback (.event (.localCandidate env node candidate mid)))
  | joinRoom {input} : msg.type = .joinRoom → Sends s msg (.thread input)

theorem sends {s t : State} {l : Label} (h : threads.next s l = some t) {msg : P2PSignalMessage}
    (hm : msg ∈ sentMessages s.peer t.peer) : Sends s msg l := by
  have hsent := mem_sentMessages (next_frame h) hm
  have hop : ∀ (env : Env) (op : SenderOp), (op.permit env).sent msg →
      t.context = after (runSenderOp env op) s.context →
      ∃ node n role, op = .sendDescription node role ∧
        s.peer.peerConnectionNodeCaches.get? node = some n ∧
        msg = ⟨s.peer.localId, n.remoteId, descriptionBody role env.localDescription⟩ := by
    intro env op hop hcontext
    cases op with
    | sendDescription node role =>
        rw [State.peer, State.peer, hcontext, runSenderOp, after_onPeer, after_bind_pure] at hm
        obtain ⟨n, hn, heq⟩ := sendDescription_sends hm
        exact ⟨node, n, role, rfl, hn, heq⟩
    | _ => exact hop.elim
  cases next_moves h with
  | @message env request _ _ =>
      obtain ⟨p, streamId, hacc, heq⟩ := hsent
      exact .streamReady streamId hacc heq
  | @handlerOp env op ops htodo hr =>
      simp only [permit, htodo, List.head?_cons, Option.map_some, Option.getD_some] at hsent
      obtain ⟨node, n, role, rfl, hn, heq⟩ := hop env op hsent hr.context
      exact .description node n role (Or.inl (by rw [htodo]; exact List.mem_cons_self)) hn heq
  | @callbackOp env op ops hpool hr =>
      simp only [permit, hpool, List.head?_cons, Option.map_some, Option.getD_some] at hsent
      obtain ⟨node, n, role, rfl, hn, heq⟩ := hop env op hsent hr.context
      exact .description node n role (Or.inr (by rw [hpool]; exact List.mem_cons_self)) hn heq
  | @callback event _ =>
      cases event with
      | stateChange node state => exact hsent.elim
      | event event =>
          cases event with
          | localCandidate env node candidate mid => exact .candidate hsent
          | _ => exact hsent.elim
  | thread _ => exact .joinRoom hsent

end Sender

namespace Receiver

inductive Sends (s : State) (msg : P2PSignalMessage) : Label → Prop
  | description {env : Env} {l} (node n role) :
      .sendDescription node role ∈ s.todo ∨ .sendDescription node role ∈ s.pool →
      s.peer.peerConnectionNodeCaches.get? node = some n →
      msg = ⟨s.peer.localId, n.remoteId, descriptionBody role env.localDescription⟩ →
      Sends s msg l
  | candidate {env node candidate mid} : msg.body = .candidate (some candidate) (some mid) →
      Sends s msg (.callback (.event (.localCandidate env node candidate mid)))
  | request {env} : msg.type = .probeRequest ∨ msg.type = .streamRequest →
      Sends s msg (.thread env)

theorem sends {s t : State} {l : Label} (h : threads.next s l = some t) {msg : P2PSignalMessage}
    (hm : msg ∈ sentMessages s.peer t.peer) : Sends s msg l := by
  have hsent := mem_sentMessages (next_frame h) hm
  have hop : ∀ (env : Env) (op : ReceiverOp), t.context = after (runReceiverOp env op) s.context →
      ∃ node n role, op = .sendDescription node role ∧
        s.peer.peerConnectionNodeCaches.get? node = some n ∧
        msg = ⟨s.peer.localId, n.remoteId, descriptionBody role env.localDescription⟩ := by
    intro env op hcontext
    cases op with
    | sendDescription node role =>
        rw [State.peer, State.peer, hcontext, runReceiverOp, after_onPeer, after_bind_pure] at hm
        obtain ⟨n, hn, heq⟩ := sendDescription_sends hm
        exact ⟨node, n, role, rfl, hn, heq⟩
    | setState st =>
        have hpeer : t.peer = s.peer := by
          rw [State.peer, hcontext]
          exact setReceiverState_p2pContext _ _ _
        rw [hpeer, sentMessages_same rfl] at hm
        exact absurd hm List.not_mem_nil
  cases next_moves h with
  | message _ _ => exact hsent.elim
  | @handlerOp env op ops htodo hr =>
      obtain ⟨node, n, role, rfl, hn, heq⟩ := hop env op hr.context
      exact .description node n role (Or.inl (by rw [htodo]; exact List.mem_cons_self)) hn heq
  | @callbackOp env op ops hpool hr =>
      obtain ⟨node, n, role, rfl, hn, heq⟩ := hop env op hr.context
      exact .description node n role (Or.inr (by rw [hpool]; exact List.mem_cons_self)) hn heq
  | @callback event _ =>
      cases event with
      | joinRoom now => exact hsent.elim
      | stateChange env node state => exact hsent.elim
      | event event =>
          cases event with
          | localCandidate env node candidate mid => exact .candidate hsent
          | _ => exact hsent.elim
  | thread _ => exact .request hsent

end Receiver

end P2PFFmpeg
