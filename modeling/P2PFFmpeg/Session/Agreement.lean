import P2PFFmpeg.Session.LinkedSelection
import P2PFFmpeg.Session.Network

namespace P2PFFmpeg

open Library Library.Program Library.Transition Library.Concurrent Message Peer

namespace Sender

variable {msg : P2PSignalMessage} {s t : State} {l : Label} {p : Ptr}

theorem accepted_plan (env : Env) (streams : List AVStream) {c : P2PContext} (h : Accepts msg c p) :
    value (senderHead env streams msg) c = some (0, acceptedOps p) := by
  obtain ⟨htype, hfind, n, hn, hstatus, htracks⟩ := h
  obtain ⟨streamId, hb⟩ : ∃ streamId, msg.body = .streamRequest streamId := by
    cases hb : msg.body with
    | streamRequest streamId => exact ⟨streamId, rfl⟩
    | _ =>
        rw [P2PSignalMessage.type, hb] at htype
        cases htype
  have hready : ∀ t, value (sendStreamReady env msg.senderId) t = some () := by
    intro t
    rw [sendStreamReady, value_get_bind]
    split
    · rfl
    · rfl
  simp only [senderHead, hb, senderStreamRequest, value_get_bind, hfind]
  rw [value_bind, readNode_some hn, Option.bind_some, if_neg (not_not_intro hstatus),
    if_neg (by simp [htracks]), value_bind, hready, Option.bind_some]
  rfl

/-- The sender is in the branch of an accepted request, or has left it with the
streaming state and a selected node, or with a later state. -/
def Committed (s : State) : Prop :=
  (∃ p, s.todo = acceptedOps p) ∨
    (.streaming ≤ s.context.currentState ∧
      (s.peer.selectedNode ≠ none ∨ ∃ p, s.todo = [.storeSelected p, .storeStatus p]))

theorem committed_of_accepts {env : Env} (h : threads.next s (.message env msg) = some t)
    (hacc : Accepts msg s.peer p) : Committed t := by
  left
  refine ⟨p, ?_⟩
  cases next_moves h with
  | message _ hr =>
      have hv : value (threads.head env msg) s.context = some (acceptedOps p) := by
        simp only [threads, value_get_bind, value_bind_pure, value_onPeer]
        exact congrArg (Option.map Prod.snd) (accepted_plan env s.context.streams hacc)
      rcases hr.control with ⟨ops, hops, he⟩ | ⟨hnone, _⟩
      · rw [hv] at hops
        cases hops
        rw [he]
      · rw [hv] at hnone
        cases hnone

theorem committed_step (hr : system.Reachable s) (hc : Committed s) (h : threads.next s l = some t) :
    Committed t := by
  rcases hc with ⟨p, hp⟩ | ⟨hle, hsel⟩
  · rcases next_planned h with hsame | ⟨env, op, rfl, hop⟩ | ⟨_, _, _, hnil, _⟩
    · exact Or.inl ⟨p, by rw [hsame, hp]⟩
    · rw [hp] at hop
      obtain ⟨rfl, hrest⟩ := List.cons.inj hop
      right
      constructor
      · rw [next_currentState h, sets, hp]
        exact le_max_right _ _
      · exact Or.inr ⟨p, hrest.symm⟩
    · rw [hp] at hnil
      cases hnil
  · right
    refine ⟨le_trans hle (next_le h), ?_⟩
    rcases hsel with hne | ⟨p, hp⟩
    · exact Or.inl (selectedNode_kept hr h hne)
    · rcases next_planned h with hsame | ⟨env, op, rfl, hop⟩ | ⟨_, _, _, hnil, _⟩
      · exact Or.inr ⟨p, by rw [hsame, hp]⟩
      · rw [hp] at hop
        obtain ⟨rfl, _⟩ := List.cons.inj hop
        left
        rw [(next_storeSelected h hp).1]
        simp
      · rw [hp] at hnil
        cases hnil

theorem next_selects (hr : system.Reachable s) (h : threads.next s l = some t)
    (hp : t.peer.selectedNode = some p ∨ .storeSelected p ∈ t.todo) :
    (s.peer.selectedNode = some p ∨ .storeSelected p ∈ s.todo) ∨
      ∃ env msg, l = .message env msg ∧ Accepts msg s.peer p := by
  rcases hp with hsel | hmem
  · left
    rcases next_selectedNode hr h with hsame | ⟨env, q, ops, _, htodo, hq⟩
    · exact Or.inl (hsame ▸ hsel)
    · rw [hsel] at hq
      cases hq
      exact Or.inr (by rw [htodo]; exact List.mem_cons_self)
  · rcases next_planned h with hsame | ⟨env, op, _, htodo⟩ | ⟨env, msg, hl, _, hplan⟩
    · exact Or.inl (Or.inr (hsame ▸ hmem))
    · exact Or.inl (Or.inr (by rw [htodo]; exact List.mem_cons_of_mem _ hmem))
    · generalize t.todo = ops at hmem hplan
      cases hplan with
      | streamRequest q hacc =>
          have hq : p = q := by simpa using hmem
          subst hq
          exact Or.inr ⟨env, msg, hl, hacc⟩
      | _ => simp at hmem

theorem next_error (hr : system.Reachable s) (h : threads.next s l = some t)
    (ht : t.context.currentState = .error ∨ .setState .error ∈ t.todo) :
    (s.context.currentState = .error ∨ .setState .error ∈ s.todo) ∨
      ∃ env msg, l = .message env msg ∧ msg.type = .error := by
  rcases ht with hst | hmem
  · left
    rw [next_currentState h] at hst
    rcases raised_eq s.context.currentState (sets s l) with hold | hnew
    · exact Or.inl (hold ▸ hst)
    · rw [hst] at hnew
      cases l with
      | message env msg => cases hnew
      | callback event => cases hnew
      | thread input => cases hpc : s.thread <;> simp [sets, hpc, MuxPc.sets] at hnew
      | callbackOp env =>
          obtain ⟨op, hop, hset⟩ := Option.bind_eq_some_iff.mp hnew
          rw [pool_reachable hr op (List.mem_of_mem_head? hop)] at hset
          cases hset
      | handlerOp env =>
          obtain ⟨op, hop, hset⟩ := Option.bind_eq_some_iff.mp hnew
          cases op with
          | setState st =>
              cases hset
              exact Or.inr (List.mem_of_mem_head? hop)
          | _ => cases hset
  · rcases next_planned h with hsame | ⟨env, op, _, htodo⟩ | ⟨env, msg, hl, _, hplan⟩
    · exact Or.inl (Or.inr (hsame ▸ hmem))
    · exact Or.inl (Or.inr (by rw [htodo]; exact List.mem_cons_of_mem _ hmem))
    · generalize t.todo = ops at hmem hplan
      cases hplan with
      | error htype => exact Or.inr ⟨env, msg, hl, htype⟩
      | _ => simp at hmem

/-- Only the acceptance of a request sends a stream ready message, to the sender
of the request. -/
theorem sends_streamReady (h : threads.next s l = some t) (hm : msg ∈ sentMessages s.peer t.peer)
    (ht : msg.type = .streamReady) : ∃ env request p, l = .message env request ∧ Accepts request s.peer p ∧
      msg.receiverId = request.senderId := by
  cases sends h hm with
  | streamReady streamId hacc heq =>
      rw [heq]
      exact ⟨_, _, _, rfl, hacc, rfl⟩
  | description node n role _ _ heq =>
      rcases description_type (congrArg P2PSignalMessage.body heq) with hd | hd
      · rw [hd] at ht
        cases ht
      · rw [hd] at ht
        cases ht
  | candidate hb =>
      rw [P2PSignalMessage.type, hb] at ht
      cases ht
  | joinRoom hjoin =>
      rw [hjoin] at ht
      cases ht

end Sender

def notStream (msg : P2PSignalMessage) : Bool :=
  msg.type != .streamRequest && msg.type != .streamReady

variable (senderId : String)

/-- The runs of a session in which stream requests and stream ready messages come
from the peers. -/
def agreement : System Session SessionLabel :=
  (session senderId).system.guard fun _ l => fromServer notStream l

def AcceptsRequest (s : Session) (l : SessionLabel) (r : String) : Prop :=
  ∃ i env msg msgs p, l = .toHub i env ∧ s.up i = msg :: msgs ∧ msg.senderId = some r ∧
    Sender.Accepts (arrived msg) s.hub.peer p

/-- The sender takes up a message of the error type. -/
def TakesError (s : Session) : SessionLabel → Prop
  | .hub (.message _ msg) => msg.type = .error
  | .toHub i _ => ∃ msg msgs, s.up i = msg :: msgs ∧ (arrived msg).type = .error
  | _ => False

/-- The selected node is the one of the peer with the given id. -/
def SelectsPeer (c : P2PContext) (id : String) : Prop :=
  ∃ p n, c.selectedNode = some p ∧ c.peerConnectionNodeCaches.get? p = some n ∧
    n.remoteId = some id

/-- A receiver streams, or is about to be told that it may. -/
def Told (s : Session) (r : String) : Prop :=
  (∃ msg ∈ s.down r, msg.type = .streamReady) ∨
    (∃ msg, (s.leaf r).message = some msg ∧ msg.type = .streamReady) ∨
    (s.leaf r).context.currentState = .streaming

section Steps

variable {senderId} {s t : Session} {l : SessionLabel} {r : String}

theorem agreement_parts (h : (agreement senderId).Reachable s) :
    Sender.system.Reachable s.hub ∧ ∀ r, Receiver.system.Reachable (s.leaf r) :=
  Network.reachable_parts h.unguard

theorem told_of_hub {a : Sender.Label} (hstep : Network.HubStep (session senderId) s t a)
    (ht : Told t r) : Told s r ∨
      ∃ env request p, a = .message env request ∧ Sender.Accepts request s.hub.peer p ∧
        request.senderId = some r := by
  rcases ht with ⟨msg, hm, htype⟩ | hm | hst
  · rw [hstep.down r] at hm
    rcases List.mem_append.mp hm with hm | hm
    · exact Or.inl (Or.inl ⟨msg, hm, htype⟩)
    · obtain ⟨hsent, hreceiver⟩ := mem_addressed.mp hm
      obtain ⟨env, request, p, ha, hacc, hto⟩ := Sender.sends_streamReady hstep.next hsent htype
      exact Or.inr ⟨env, request, p, ha, hacc, hto ▸ hreceiver⟩
  · rw [hstep.leaf] at hm
    exact Or.inl (Or.inr (Or.inl hm))
  · rw [hstep.leaf] at hst
    exact Or.inl (Or.inr (Or.inr hst))

theorem told_of_leaf {i : String} {b : Receiver.Label} (hr : Receiver.system.Reachable (s.leaf i))
    (hstep : Network.LeafStep (session senderId) s t i b) (hdown : ∀ msg ∈ t.down r, msg ∈ s.down r)
    (hb : ∀ env msg, b = .message env msg → msg.type = .streamReady → Told s i)
    (ht : Told t r) : Told s r := by
  by_cases hri : r = i
  · subst hri
    rcases ht with ⟨msg, hm, htype⟩ | ⟨msg, hm, htype⟩ | hst
    · exact Or.inl ⟨msg, hdown msg hm, htype⟩
    · rcases next_todo hstep.next with ⟨_, hsame⟩ | ⟨_, _, _, _, hsame⟩ | ⟨env, m, hl, _, _, hnew⟩
      · exact Or.inr (Or.inl ⟨msg, hsame ▸ hm, htype⟩)
      · exact Or.inr (Or.inl ⟨msg, hsame ▸ hm, htype⟩)
      · rw [hnew] at hm
        cases hm
        exact hb env msg hl htype
    · by_cases hs : (s.leaf r).context.currentState = .streaming
      · exact Or.inr (Or.inr hs)
      · obtain ⟨⟨msg, _, hm, htype, _⟩, _⟩ :=
          Receiver.next_streaming (Receiver.discipline_reachable hr) hstep.next hs hst
        exact Or.inr (Or.inl ⟨msg, hm, htype⟩)
  · rcases ht with ⟨msg, hm, htype⟩ | hm | hst
    · exact Or.inl ⟨msg, hdown msg hm, htype⟩
    · rw [(hstep.others r hri).1] at hm
      exact Or.inr (Or.inl hm)
    · rw [(hstep.others r hri).1] at hst
      exact Or.inr (Or.inr hst)

theorem notStream_type {msg : P2PSignalMessage} (h : notStream msg = true) :
    msg.type ≠ .streamRequest ∧ msg.type ≠ .streamReady := by
  simpa [notStream] using h

theorem told_step (hr : (agreement senderId).Reachable s)
    (hn : (agreement senderId).next s l = some t) (ht : Told t r) : Told s r ∨ AcceptsRequest s l r := by
  obtain ⟨hserver, hnext⟩ := System.guard_next.mp hn
  have hleaf := (agreement_parts hr).2
  cases Network.next_moves hnext with
  | hub hstep hup =>
      rcases told_of_hub hstep ht with hs | ⟨env, request, p, rfl, hacc, _⟩
      · exact Or.inl hs
      · exact absurd hacc.1 (notStream_type hserver).1
  | @toHub i env msg hup _ hstep =>
      rcases told_of_hub hstep ht with hs | ⟨_, request, p, ha, hacc, hid⟩
      · exact Or.inl hs
      · cases ha
        exact Or.inr ⟨i, env, msg, _, p, rfl, hup, hid, hacc⟩
  | @leaf i b hstep hdown =>
      left
      refine told_of_leaf (hleaf i) hstep ?_ ?_ ht
      · intro msg hm
        rwa [hdown] at hm
      · rintro env msg rfl htype
        exact absurd htype (notStream_type hserver).2
  | @toLeaf i env msg hdown hothers hstep =>
      left
      refine told_of_leaf (hleaf i) hstep ?_ ?_ ht
      · intro m hm
        by_cases hri : r = i
        · rw [hri] at hm ⊢
          rw [hdown]
          exact List.mem_cons_of_mem _ hm
        · rwa [hothers r hri] at hm
      · intro _ m hb htype
        cases hb
        have harrived : (arrived msg).type = msg.type := arrived_type (by rw [htype]; decide)
        exact Or.inl ⟨msg, by rw [hdown]; exact List.mem_cons_self, harrived ▸ htype⟩

theorem committed_session (hr : (agreement senderId).Reachable s)
    (hn : (agreement senderId).next s l = some t)
    (h : Sender.Committed s.hub ∨ AcceptsRequest s l r) : Sender.Committed t.hub := by
  have hhub := (agreement_parts hr).1
  cases Network.next_moves (System.guard_next.mp hn).2 with
  | hub hstep _ =>
      rcases h with hc | ⟨_, _, _, _, _, hl, _⟩
      · exact Sender.committed_step hhub hc hstep.next
      · cases hl
  | toHub msg hup _ hstep =>
      rcases h with hc | ⟨_, _, m, ms, p, hl, hup', _, hacc⟩
      · exact Sender.committed_step hhub hc (hub_takes hstep)
      · cases hl
        rw [hup] at hup'
        obtain ⟨rfl, _⟩ := List.cons.inj hup'
        exact Sender.committed_of_accepts hstep.next hacc
  | leaf hstep _ | toLeaf _ _ _ hstep =>
      rw [hstep.hub]
      rcases h with hc | ⟨_, _, _, _, _, hl, _⟩
      · exact hc
      · cases hl

end Steps

noncomputable def accepting (A : String → Prop) : System Session SessionLabel :=
  (agreement senderId).restrict fun s l => ∀ r, AcceptsRequest s l r → A r

variable {senderId}

theorem told_accepted {A : String → Prop} {s : Session} (h : (accepting senderId A).Reachable s)
    {r : String} (ht : Told s r) : A r ∧ Sender.Committed s.hub := by
  refine System.Reachable.invariant (fun s => ∀ r, Told s r → A r ∧ Sender.Committed s.hub)
    ?_ ?_ h r ht
  · rintro s ⟨_, hleaf, hdown, _⟩ r (⟨msg, hm, _⟩ | ⟨msg, hm, _⟩ | hst)
    · rw [hdown r] at hm
      cases hm
    · obtain ⟨waitTimeout, hw⟩ := hleaf r
      rw [hw] at hm
      cases hm
    · obtain ⟨waitTimeout, hw⟩ := hleaf r
      rw [hw] at hst
      cases hst
  · intro s l t hr ih hn r ht
    have hr := hr.of_restrict
    obtain ⟨hA, hn⟩ := System.restrict_next.mp hn
    rcases told_step hr hn ht with hs | hacc
    · exact ⟨(ih r hs).1, committed_session (r := r) hr hn (Or.inl (ih r hs).2)⟩
    · exact ⟨hA r hacc, committed_session hr hn (Or.inr hacc)⟩

/-- The node that the sender has selected, or is about to select, is the one of
a receiver whose request it accepted. -/
theorem selects_accepted {A : String → Prop} {s : Session} (h : (accepting senderId A).Reachable s)
    {p : Ptr} (hp : s.hub.peer.selectedNode = some p ∨ .storeSelected p ∈ s.hub.todo) :
    ∃ r n, A r ∧ s.hub.peer.peerConnectionNodeCaches.get? p = some n ∧ n.remoteId = some r := by
  refine System.Reachable.invariant (fun s => ∀ p,
    (s.hub.peer.selectedNode = some p ∨ .storeSelected p ∈ s.hub.todo) →
      ∃ r n, A r ∧ s.hub.peer.peerConnectionNodeCaches.get? p = some n ∧ n.remoteId = some r)
    ?_ ?_ h p hp
  · rintro s ⟨⟨streams, roomId, waitTimeout, hs⟩, _⟩ p hp
    rw [hs] at hp
    rcases hp with hsel | hmem
    · cases hsel
    · exact absurd hmem List.not_mem_nil
  · intro s l t hr ih hn p hp
    have hr := hr.of_restrict
    obtain ⟨hA, hn⟩ := System.restrict_next.mp hn
    obtain ⟨hserver, hnext⟩ := System.guard_next.mp hn
    have hhub := (agreement_parts hr).1
    have hkept : ∀ a, Sender.threads.next s.hub a = some t.hub →
        (∃ r n, A r ∧ s.hub.peer.peerConnectionNodeCaches.get? p = some n ∧ n.remoteId = some r) →
        ∃ r n, A r ∧ t.hub.peer.peerConnectionNodeCaches.get? p = some n ∧ n.remoteId = some r := by
      rintro a ha ⟨r, n, hr, hget, hid⟩
      obtain ⟨m, hm, hsame⟩ := (Sender.next_frame ha).kept p n (Sender.not_lost _ _ p) hget
      exact ⟨r, m, hr, hm, hsame.remoteId.trans hid⟩
    cases Network.next_moves hnext with
    | hub hstep _ =>
        rcases Sender.next_selects hhub hstep.next hp with hold | ⟨env, msg, rfl, hacc⟩
        · exact hkept _ hstep.next (ih p hold)
        · exact absurd hacc.1 (notStream_type hserver).1
    | toHub msg hup _ hstep =>
        apply hkept _ (hub_takes hstep)
        rcases Sender.next_selects hhub (hub_takes hstep) hp with hold | ⟨_, m, ha, hacc⟩
        · exact ih p hold
        · cases ha
          obtain ⟨n, hget, hid, hne⟩ := find_get hacc.2.1
          obtain ⟨r, hr⟩ := Option.ne_none_iff_exists'.mp hne
          exact ⟨r, n, hA r ⟨_, _, msg, _, p, rfl, hup, hr, hacc⟩, hget, hid.trans hr⟩
    | leaf hstep _ | toLeaf _ _ _ hstep =>
        rw [hstep.hub] at hp ⊢
        exact ih p hp

theorem error_taken {s₀ s : Session} {ls : List SessionLabel} (h₀ : (agreement senderId).init s₀)
    (hr : (agreement senderId).Run s₀ ls s) (hs : s.hub.context.currentState = .error) :
    ∃ u l v, (agreement senderId).Passes s₀ ls s u l v ∧ TakesError u l := by
  have hstart : ¬ (s₀.hub.context.currentState = .error ∨ .setState .error ∈ s₀.hub.todo) := by
    obtain ⟨⟨streams, roomId, waitTimeout, hs₀⟩, _⟩ := h₀
    rw [hs₀]
    rintro (hst | hmem)
    · cases hst
    · exact absurd hmem List.not_mem_nil
  obtain ⟨u, l, v, hpass, hu, hv⟩ := hr.switch
    (fun s => s.hub.context.currentState = .error ∨ .setState .error ∈ s.hub.todo) hstart (Or.inl hs)
  refine ⟨u, l, v, hpass, ?_⟩
  obtain ⟨before, _, _, hrun, hn, _⟩ := hpass
  have hhub := (agreement_parts ⟨s₀, before, h₀, hrun⟩).1
  cases Network.next_moves (System.guard_next.mp hn).2 with
  | hub hstep _ =>
      rcases Sender.next_error hhub hstep.next hv with hold | ⟨env, msg, rfl, htype⟩
      · exact absurd hold hu
      · exact htype
  | toHub msg hup _ hstep =>
      rcases Sender.next_error hhub (hub_takes hstep) hv with hold | ⟨_, m, hm, htype⟩
      · exact absurd hold hu
      · cases hm
        exact ⟨msg, _, hup, htype⟩
  | leaf hstep _ | toLeaf _ _ _ hstep =>
      rw [hstep.hub] at hv
      exact absurd hv hu

variable (senderId) in
/-- In the run the sender has accepted a stream request of the receiver. -/
def Accepted (s₀ : Session) (ls : List SessionLabel) (s : Session) (r : String) : Prop :=
  ∃ u l v, (agreement senderId).Passes s₀ ls s u l v ∧ AcceptsRequest u l r

/-- Where a receiver streams and the sender is between two messages, the sender
has accepted its request, streams unless an error message has reached it, and
has selected a receiver whose request it accepted. If it accepted requests of
only one receiver, this one is selected and no other streams. -/
theorem sender_receiver_agreement {s₀ s : Session} {ls : List SessionLabel} {r : String}
    (h₀ : (agreement senderId).init s₀) (hr : (agreement senderId).Run s₀ ls s)
    (hs : (s.leaf r).context.currentState = .streaming) (htodo : s.hub.todo = []) :
    Accepted senderId s₀ ls s r ∧
    (s.hub.context.currentState = .streaming ∨ (s.hub.context.currentState = .error ∧
      ∃ u l v, (agreement senderId).Passes s₀ ls s u l v ∧ TakesError u l)) ∧
    (∃ q, Accepted senderId s₀ ls s q ∧ SelectsPeer s.hub.peer q) ∧
    ((∀ q, Accepted senderId s₀ ls s q → q = r) →
      SelectsPeer s.hub.peer r ∧
        ∀ q, (s.leaf q).context.currentState = .streaming → q = r) := by
  have haccepting : (accepting senderId (Accepted senderId s₀ ls s)).Reachable s := by
    refine ⟨s₀, ls, h₀, hr.restrict ?_⟩
    intro u l v hpass q hacc
    exact ⟨u, l, v, hpass, hacc⟩
  have haccepted : ∀ q, (s.leaf q).context.currentState = .streaming →
      Accepted senderId s₀ ls s q :=
    fun q hq => (told_accepted haccepting (Or.inr (Or.inr hq))).1
  have hcommitted := (told_accepted haccepting (Or.inr (Or.inr hs))).2
  obtain ⟨hle, hsel⟩ : .streaming ≤ s.hub.context.currentState ∧ s.hub.peer.selectedNode ≠ none := by
    rcases hcommitted with ⟨p, hp⟩ | ⟨hle, hne | ⟨p, hp⟩⟩
    · rw [htodo] at hp
      cases hp
    · exact ⟨hle, hne⟩
    · rw [htodo] at hp
      cases hp
  obtain ⟨p, hp⟩ := Option.ne_none_iff_exists'.mp hsel
  obtain ⟨q, n, hq, hn, hid⟩ := selects_accepted haccepting (Or.inl hp)
  refine ⟨haccepted r hs, ?_, ⟨q, hq, p, n, hp, hn, hid⟩, ?_⟩
  · cases hst : s.hub.context.currentState with
    | streaming => exact Or.inl rfl
    | error => exact Or.inr ⟨rfl, error_taken h₀ hr hst⟩
    | _ =>
        rw [hst] at hle
        exact absurd hle (by decide)
  · intro honly
    have hqr := honly q hq
    subst hqr
    exact ⟨⟨p, n, hp, hn, hid⟩, fun q' hq' => honly q' (haccepted q' hq')⟩

def selectedId (c : P2PContext) : Option String := do
  let p ← c.selectedNode
  let n ← c.peerConnectionNodeCaches.get? p
  n.remoteId

theorem selectsPeer_iff {c : P2PContext} {id : String} : SelectsPeer c id ↔ selectedId c = some id := by
  simp only [SelectsPeer, selectedId, Option.bind_eq_bind, Option.bind_eq_some_iff]
  constructor
  · rintro ⟨p, n, hp, hn, hid⟩
    exact ⟨p, hp, n, hn, hid⟩
  · rintro ⟨p, hp, n, hn, hid⟩
    exact ⟨p, n, hp, hn, hid⟩

/-- A sender of one video stream, and receivers that have not started yet. -/
def Session.start : Session where
  hub := Sender.State.start
  leaf := fun _ => .initial 60
  down := fun _ => []
  up := fun _ => []

theorem start_init (senderId : String) : (agreement senderId).init Session.start :=
  ⟨⟨_, _, _, rfl⟩, fun _ => ⟨60, rfl⟩, fun _ => rfl, fun _ => rfl⟩

def senderJoins : List SessionLabel :=
  [.hub (.message (.succeeding 1 1) ⟨none, none, .roomJoined none none (some "sender")⟩),
    .hub (.handlerOp (.succeeding 1 1))]

/-- A receiver gets its id, and the sender offers it a connection, which it
answers and which gets connected. The sender has its node at p. -/
def receiverLinks (r : String) (pcId : Int) (p : Ptr) : List SessionLabel :=
  [.leaf r (.message (.succeeding 0 1) ⟨none, none, .roomJoined none none (some r)⟩),
    .leaf r (.handlerOp (.succeeding 0 1)),
    .hub (.message (.succeeding 1 pcId) ⟨none, none, .connectRequest (some r)⟩),
    .hub (.handlerOp (.succeeding 1 pcId)), .hub (.handlerOp (.succeeding 1 pcId)),
    .toLeaf r (.succeeding 0 1), .leaf r (.handlerOp (.succeeding 0 1)),
    .leaf r (.handlerOp (.succeeding 0 1)), .toHub r (.succeeding 1 pcId),
    .hub (.callback (.stateChange p .connected)), .hub (.callbackOp (.succeeding 1 pcId)),
    .leaf r (.callback (.stateChange (.succeeding 0 1) 0 .connected)),
    .leaf r (.callbackOp (.succeeding 0 1))]

def receiverAsks : List Receiver.Label :=
  Receiver.nodeProbed 0 ++ List.replicate 5 (.thread (.succeeding 31000000 1))

def receiverStreams (r : String) : List SessionLabel :=
  receiverAsks.map (.leaf r) ++
    [.toHub r (.succeeding 1 1), .hub (.handlerOp (.succeeding 1 1)),
      .hub (.handlerOp (.succeeding 1 1)), .toHub r (.succeeding 1 1),
      .hub (.handlerOp (.succeeding 1 1)), .hub (.handlerOp (.succeeding 1 1)),
      .hub (.handlerOp (.succeeding 1 1)), .toLeaf r (.succeeding 0 1),
      .leaf r (.handlerOp (.succeeding 0 1))]

theorem sender_receiver_agreement_first :
    ∃ s : Session, s.hub.context.currentState = .streaming ∧ selectedId s.hub.peer = some "a" ∧
      Accepted "sender" Session.start (senderJoins ++ receiverLinks "a" 1 0 ++ receiverStreams "a")
        s "a" := by
  have hrun : ((agreement "sender").run
      (senderJoins ++ receiverLinks "a" 1 0 ++ receiverStreams "a") Session.start).map (fun s =>
        (s.hub.context.currentState, s.hub.todo, selectedId s.hub.peer,
          (s.leaf "a").context.currentState)) = some (.streaming, [], some "a", .streaming) := by
    decide +kernel
  obtain ⟨s, hs, hview⟩ := Option.map_eq_some_iff.mp hrun
  simp only [Prod.mk.injEq] at hview
  obtain ⟨hstate, htodo, hselected, hstreaming⟩ := hview
  exact ⟨s, hstate, hselected,
    (sender_receiver_agreement (start_init "sender") (.of_run hs) hstreaming htodo).1⟩

def connectionsStay (_ : Session) : SessionLabel → Bool
  | .hub (.callback (.stateChange _ state)) => state == .connected
  | .leaf _ (.callback (.stateChange _ _ state)) => state == .connected
  | _ => true

/-- Two receivers stream from a sender that has been driven into the error state
by a message, although all connections have stayed connected. -/
theorem two_receivers_stream :
    (¬ ∀ s, ((agreement "sender").guard connectionsStay).Reachable s → s.hub.todo = [] →
      ∀ r, (s.leaf r).context.currentState = .streaming →
        SelectsPeer (s.leaf r).peer "sender" → s.hub.context.currentState = .streaming) ∧
    ¬ ∀ s, ((agreement "sender").guard connectionsStay).Reachable s → s.hub.todo = [] →
      ∀ r, (s.leaf r).context.currentState = .streaming →
        SelectsPeer (s.leaf r).peer "sender" → SelectsPeer s.hub.peer r := by
  have hrun : (((agreement "sender").guard connectionsStay).run
      (senderJoins ++ receiverLinks "a" 1 0 ++ receiverStreams "a" ++ receiverLinks "b" 2 1 ++
        receiverStreams "b" ++ [.hub (.message (.succeeding 1 1) ⟨none, none, .error none none⟩),
          .hub (.handlerOp (.succeeding 1 1))]) Session.start).map (fun s =>
        (s.hub.context.currentState, s.hub.todo, selectedId s.hub.peer,
          (s.leaf "a").context.currentState, selectedId (s.leaf "a").peer)) =
      some (.error, [], some "b", .streaming, some "sender") := by
    decide +kernel
  obtain ⟨s, hs, hview⟩ := Option.map_eq_some_iff.mp hrun
  simp only [Prod.mk.injEq] at hview
  obtain ⟨hstate, htodo, hselected, hstreaming, hsender⟩ := hview
  have hreachable : ((agreement "sender").guard connectionsStay).Reachable s :=
    .of_run (start_init "sender") hs
  have hselects : SelectsPeer (s.leaf "a").peer "sender" := selectsPeer_iff.mpr hsender
  constructor
  · intro h
    have hstreams := h s hreachable htodo "a" hstreaming hselects
    rw [hstate] at hstreams
    cases hstreams
  · intro h
    have ha := selectsPeer_iff.mp (h s hreachable htodo "a" hstreaming hselects)
    rw [hselected] at ha
    exact absurd (Option.some.inj ha) (by decide)

end P2PFFmpeg
