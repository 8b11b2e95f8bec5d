import P2PFFmpeg.Session.LinkedSelection

namespace P2PFFmpeg

open Library Library.Program Library.Transition Library.Concurrent Message Peer

def Live (calls : List RtcCall) (pcId : Int) : Prop :=
  ∃ before later, calls = before ++ .createPeerConnection pcId :: later ∧
    .deletePeerConnection pcId ∉ later

def UserPointer (calls : List RtcCall) (pcId : Int) (p : Ptr) : Prop :=
  ∃ before later, calls = before ++ .setUserPointer pcId (some p) :: later ∧
    ∀ node, .setUserPointer pcId node ∉ later

/-- The nodes have live connections of their own, and the user pointer of a live
connection is a linked node. -/
structure Correspond (c : P2PContext) : Prop where
  live : ∀ p n, c.peerConnectionNodeCaches.get? p = some n → Live c.calls n.pcId
  distinct : ∀ p q n m, c.peerConnectionNodeCaches.get? p = some n →
    c.peerConnectionNodeCaches.get? q = some m → n.pcId = m.pcId → p = q
  pointed : ∀ pcId p, Live c.calls pcId → UserPointer c.calls pcId p →
    p ∈ c.peerConnectionNodeCaches.addrs

def Unused (c : P2PContext) (pcId : Int) : Prop :=
  .createPeerConnection pcId ∉ c.calls ∧ .deletePeerConnection pcId ∉ c.calls

structure Attached (c : P2PContext) : Prop where
  created : ∀ p n, c.peerConnectionNodeCaches.get? p = some n → 0 < n.pcId ∧
    .createPeerConnection n.pcId ∈ c.calls ∧ .deletePeerConnection n.pcId ∉ c.calls
  distinct : ∀ p q n m, c.peerConnectionNodeCaches.get? p = some n →
    c.peerConnectionNodeCaches.get? q = some m → n.pcId = m.pcId → p = q
  pointed : ∀ id p, .setUserPointer id (some p) ∈ c.calls → p ∈ c.peerConnectionNodeCaches.addrs

variable {c : P2PContext} {env : Env}

theorem Attached.correspond (h : Attached c) : Correspond c where
  live := by
    intro p n hn
    obtain ⟨_, hcreated, hopen⟩ := h.created p n hn
    obtain ⟨before, later, hcalls⟩ := List.append_of_mem hcreated
    refine ⟨before, later, hcalls, fun hdeleted => hopen ?_⟩
    simp [hcalls, hdeleted]
  distinct := h.distinct
  pointed := by
    rintro pcId p _ ⟨before, later, hcalls, _⟩
    exact h.pointed pcId p (by simp [hcalls])

theorem attached_empty (localId roomId : Option String) :
    Attached ⟨localId, roomId, .empty, none, []⟩ where
  created := fun p n hn => by cases hn
  distinct := fun p q n m hn => by cases hn
  pointed := fun id p hp => absurd hp List.not_mem_nil

/-- A node linked by the step gets an unused id that the step does not delete, and
other connections are deleted only under unused ids. -/
structure Attaches (w : Permit) (c : P2PContext) : Prop where
  lost : ∀ p, ¬ w.lost p
  linked : ∀ p pcId, w.linked p pcId → p = c.peerConnectionNodeCaches.fresh ∧ 0 < pcId ∧
    Unused c pcId ∧ ¬ w.closed pcId
  closed : ∀ pcId, w.closed pcId → pcId ≤ 0 ∨ Unused c pcId

theorem attached_step {w : Permit} {c d : P2PContext} (hf : Frame w c d) (ha : Attaches w c)
    (hc : Attached c) : Attached d := by
  obtain ⟨new, hnew, hallows⟩ := hf.calls
  have hdeleted : ∀ pcId, .deletePeerConnection pcId ∈ d.calls →
      .deletePeerConnection pcId ∈ c.calls ∨ w.closed pcId := by
    intro pcId hm
    rw [hnew] at hm
    exact (List.mem_append.mp hm).imp id (hallows _)
  have horigin : ∀ p m, d.peerConnectionNodeCaches.get? p = some m →
      (∃ n, c.peerConnectionNodeCaches.get? p = some n ∧ m.pcId = n.pcId) ∨
        (p = c.peerConnectionNodeCaches.fresh ∧ 0 < m.pcId ∧ Unused c m.pcId ∧ ¬ w.closed m.pcId ∧
          .createPeerConnection m.pcId ∈ d.calls) := by
    intro p m hm
    rcases hf.origin p m hm with ⟨n, hn, hsame⟩ | ⟨_, _, hlinked, hcreated⟩
    · exact Or.inl ⟨n, hn, hsame.pcId⟩
    · obtain ⟨hp, hpos, hunused, hopen⟩ := ha.linked p m.pcId hlinked
      exact Or.inr ⟨hp, hpos, hunused, hopen, hcreated⟩
  refine ⟨?_, ?_, ?_⟩
  · intro p m hm
    rcases horigin p m hm with ⟨n, hn, hid⟩ | ⟨_, hpos, hunused, hopen, hcreated⟩
    · obtain ⟨hpos, hcreated, hopen⟩ := hc.created p n hn
      rw [hid, hnew]
      refine ⟨hpos, List.mem_append_left new hcreated, fun hm => ?_⟩
      rw [← hnew] at hm
      rcases hdeleted _ hm with hold | hclosed
      · exact hopen hold
      · rcases ha.closed _ hclosed with hle | hunused
        · omega
        · exact hunused.1 hcreated
    · refine ⟨hpos, hcreated, fun hm => ?_⟩
      rcases hdeleted _ hm with hold | hclosed
      · exact hunused.2 hold
      · exact hopen hclosed
  · -- an unused id is none of the old ones
    have hunused : ∀ p q n m, c.peerConnectionNodeCaches.get? p = some n → Unused c m →
        n.pcId = m → p = q := by
      intro p q n m hn hunused hid
      exact absurd (hid ▸ (hc.created p n hn).2.1) hunused.1
    intro p q n m hn hm hid
    rcases horigin p n hn with ⟨n₀, hn₀, hn'⟩ | ⟨hp, _, hpu, _⟩
    · rcases horigin q m hm with ⟨m₀, hm₀, hm'⟩ | ⟨_, _, hqu, _⟩
      · exact hc.distinct p q n₀ m₀ hn₀ hm₀ (by rw [← hn', hid, hm'])
      · exact hunused p q n₀ m.pcId hn₀ hqu (hn'.symm.trans hid)
    · rcases horigin q m hm with ⟨m₀, hm₀, hm'⟩ | ⟨hq, _⟩
      · exact (hunused q p m₀ n.pcId hm₀ hpu (hm'.symm.trans hid.symm)).symm
      · rw [hp, hq]
  · intro id p hp
    rw [hnew] at hp
    rcases List.mem_append.mp hp with hp | hp
    · exact hf.linked (ha.lost p) (hc.pointed id p hp)
    · exact (hallows _ hp).resolve_right (ha.lost p)

def NewId (env : Env) (msg : P2PSignalMessage) (c : P2PContext) : Prop :=
  opens msg → 0 < env.createPeerConnection → Unused c env.createPeerConnection

def Registers (env : Env) (msg : P2PSignalMessage) : Prop := opens msg → ¬ env.failsCallback

theorem handled_attaches {msg : P2PSignalMessage} {lost wiped : Ptr → Prop}
    {sent : P2PSignalMessage → Prop} (hlost : ∀ p, ¬ lost p) (hnew : NewId env msg c)
    (hreg : Registers env msg) : Attaches (handled env msg c lost wiped sent) c where
  lost := hlost
  linked := by
    rintro p pcId ⟨hp, rfl, hcreates, hopens⟩
    refine ⟨hp, hcreates.1, hnew hopens hcreates.1, ?_⟩
    rintro ⟨_, ⟨_, hnot⟩ | hfails⟩
    · exact hnot hcreates
    · exact hreg hopens hfails
  closed := by
    rintro pcId ⟨hopens, ⟨rfl, _⟩ | hfails⟩
    · by_cases hpos : 0 < env.createPeerConnection
      · exact Or.inr (hnew hopens hpos)
      · exact Or.inl (Int.not_lt.mp hpos)
    · exact absurd hfails (hreg hopens)

theorem attaches_of_not {w : Permit} (c : P2PContext) (hlost : ∀ p, ¬ w.lost p)
    (hlinked : ∀ p pcId, ¬ w.linked p pcId) (hclosed : ∀ pcId, ¬ w.closed pcId) : Attaches w c where
  lost := hlost
  linked := fun p pcId h => absurd h (hlinked p pcId)
  closed := fun pcId h => absurd h (hclosed pcId)

namespace Receiver

def NewIds (s : State) : Label → Prop
  | .message env msg => NewId env msg s.peer
  | _ => True

def RegistersCallbacks (_ : State) : Label → Prop
  | .message env msg => Registers env msg
  | _ => True

theorem permit_attaches {s t : State} {l : Label} (h : threads.next s l = some t)
    (ht : t.crashed = false) (hnew : NewIds s l) (hreg : RegistersCallbacks s l) :
    Attaches (permit s l) s.peer := by
  cases l with
  | message env msg =>
      refine handled_attaches (fun p hp => ?_) hnew hreg
      rw [unlinks_crash h hp] at ht
      cases ht
  | callback event =>
      cases event <;> exact attaches_of_not _ (fun _ hf => hf) (fun _ _ hf => hf) (fun _ hf => hf)
  | _ => exact attaches_of_not _ (fun _ hf => hf) (fun _ _ hf => hf) (fun _ hf => hf)

noncomputable def numbered : System State Label := system.restrict NewIds

theorem attached_reachable {s : State} (h : (numbered.restrict RegistersCallbacks).Reachable s)
    (hs : s.crashed = false) : Attached s.peer := by
  refine System.Reachable.invariant (fun s => s.crashed = false → Attached s.peer) ?_ ?_ h hs
  · rintro s ⟨waitTimeout, rfl⟩ _
    exact attached_empty none none
  · intro s l t _ ih hn ht
    obtain ⟨hreg, hn⟩ := System.restrict_next.mp hn
    obtain ⟨hnew, hn⟩ := System.restrict_next.mp hn
    exact attached_step (next_frame hn) (permit_attaches hn ht hnew hreg) (ih (next_running hn))

end Receiver

namespace Sender

def NewIds (s : State) : Label → Prop
  | .message env msg => NewId env msg s.peer
  | _ => True

/-- The connection of an OFFER is initialised in a step of its own. -/
def RegistersCallbacks (s : State) : Label → Prop
  | .message env msg => Registers env msg
  | .handlerOp env => ∀ pcId ops, s.todo = .initPeerConnection pcId :: ops → ¬ env.failsCallback
  | _ => True

theorem op_attaches {env : Env} {ops : List SenderOp} (c : P2PContext)
    (h : ∀ pcId rest, ops = .initPeerConnection pcId :: rest → ¬ env.failsCallback) :
    Attaches ((ops.head?.map (SenderOp.permit env)).getD Permit.nothing) c := by
  cases ops with
  | nil => exact attaches_of_not c (fun _ hf => hf) (fun _ _ hf => hf) (fun _ hf => hf)
  | cons op rest =>
      cases op with
      | initPeerConnection pcId =>
          exact attaches_of_not c (fun _ hf => hf) (fun _ _ hf => hf) (fun _ => h pcId rest rfl)
      | _ => exact attaches_of_not c (fun _ hf => hf) (fun _ _ hf => hf) (fun _ hf => hf)

theorem permit_attaches {s : State} {l : Label} (hr : system.Reachable s) (hnew : NewIds s l)
    (hreg : RegistersCallbacks s l) : Attaches (permit s l) s.peer := by
  cases l with
  | message env msg => exact handled_attaches (fun _ hf => hf) hnew hreg
  | handlerOp env => exact op_attaches s.peer hreg
  | callbackOp env =>
      refine op_attaches s.peer fun pcId rest hpool => ?_
      have hop := pool_reachable hr _ (by rw [hpool]; exact List.mem_cons_self)
      cases hop
  | callback event =>
      cases event <;> exact attaches_of_not _ (fun _ hf => hf) (fun _ _ hf => hf) (fun _ hf => hf)
  | thread input => exact attaches_of_not _ (fun _ hf => hf) (fun _ _ hf => hf) (fun _ hf => hf)

noncomputable def numbered : System State Label := system.restrict NewIds

theorem attached_reachable {s : State} (h : (numbered.restrict RegistersCallbacks).Reachable s) :
    Attached s.peer := by
  refine System.Reachable.invariant (fun s => Attached s.peer) ?_ ?_ h
  · rintro s ⟨streams, roomId, waitTimeout, rfl⟩
    exact attached_empty none none
  · intro s l t hr ih hn
    obtain ⟨hreg, hn⟩ := System.restrict_next.mp hn
    obtain ⟨hnew, hn⟩ := System.restrict_next.mp hn
    exact attached_step (next_frame hn) (permit_attaches hr.of_restrict.of_restrict hnew hreg) ih

end Sender

/-- Nodes and live connections correspond in every run of either peer in which no
callback fails to be registered on a connection. -/
theorem nodes_correspond (r : Receiver.State) (s : Sender.State) :
    ((Receiver.numbered.restrict Receiver.RegistersCallbacks).Reachable r →
      r.crashed = false → Correspond r.peer) ∧
    ((Sender.numbered.restrict Sender.RegistersCallbacks).Reachable s → Correspond s.peer) := by
  constructor
  · intro h hr
    exact (Receiver.attached_reachable h hr).correspond
  · intro h
    exact (Sender.attached_reachable h).correspond

def lifecycle : RtcCall → Option (Bool × Int)
  | .createPeerConnection pcId => some (true, pcId)
  | .deletePeerConnection pcId => some (false, pcId)
  | _ => none

def lifecycles (c : P2PContext) : List (Bool × Int) := c.calls.filterMap lifecycle

def unusedIn (c : P2PContext) (pcId : Int) : Bool := (lifecycles c).all fun x => x.2 != pcId

theorem unused_of_unusedIn {pcId : Int} (h : unusedIn c pcId = true) : Unused c pcId := by
  have hnot : ∀ x ∈ c.calls, ∀ b, lifecycle x ≠ some (b, pcId) := by
    intro x hx b hb
    have hne := List.all_eq_true.mp h (b, pcId) (List.mem_filterMap.mpr ⟨x, hx, hb⟩)
    simp at hne
  exact ⟨fun hm => hnot _ hm true rfl, fun hm => hnot _ hm false rfl⟩

theorem not_live {calls : List RtcCall} {pcId : Int}
    (h : calls.filterMap lifecycle = [(true, pcId), (false, pcId)]) : ¬ Live calls pcId := by
  rintro ⟨before, later, rfl, hopen⟩
  have hfirst : lifecycle (.createPeerConnection pcId) = some (true, pcId) := rfl
  rw [List.filterMap_append, List.filterMap_cons_some hfirst] at h
  have hlater : (false, pcId) ∉ later.filterMap lifecycle := by
    intro hm
    obtain ⟨call, hcall, heq⟩ := List.mem_filterMap.mp hm
    cases call with
    | deletePeerConnection id =>
        cases heq
        exact hopen hcall
    | _ => cases heq
  cases hb : before.filterMap lifecycle with
  | nil =>
      rw [hb, List.nil_append, List.cons.injEq] at h
      exact hlater (by simp [h.2])
  | cons x xs =>
      rw [hb, List.cons_append, List.cons.injEq] at h
      cases xs with
      | nil => simp at h
      | cons y ys => simp at h

def allCallbacks : List PcCallback :=
  [.localDescription, .localCandidate, .stateChange, .iceStateChange, .gatheringStateChange,
    .signalingStateChange, .dataChannel, .track]

def registersAll (env : Env) : Bool := allCallbacks.all fun callback => 0 ≤ env.setCallback callback

theorem registers_of_registersAll (h : registersAll env = true) : ¬ env.failsCallback := by
  rintro ⟨callback, hfails⟩
  have hmem : callback ∈ allCallbacks := by cases callback <;> decide
  have hle := List.all_eq_true.mp h callback hmem
  rw [decide_eq_true_eq] at hle
  omega

def connections (c : P2PContext) : List (Ptr × Int) :=
  c.peerConnectionNodeCaches.cells.map fun cell => (cell.1, cell.2.pcId)

def registersNew (env : Env) (c : P2PContext) : Bool :=
  unusedIn c env.createPeerConnection && registersAll env

theorem newId_registers {msg : P2PSignalMessage} (h : registersNew env c = true) :
    NewId env msg c ∧ Registers env msg := by
  obtain ⟨hnew, hreg⟩ := Bool.and_eq_true_iff.mp h
  exact ⟨fun _ _ => unused_of_unusedIn hnew, fun _ => registers_of_registersAll hreg⟩

/-- Two senders make an offer to a receiver, and a sender is asked for two connections. -/
theorem nodes_correspond_two : ∃ (r : Receiver.State) (s : Sender.State),
    connections r.peer = [(0, 1), (1, 2)] ∧ connections s.peer = [(0, 1), (1, 2)] ∧
      Correspond r.peer ∧ Correspond s.peer := by
  have hr : ((Receiver.system.guard fun s l => match l with
      | .message env _ => registersNew env s.peer
      | _ => true).run (Receiver.senderConnects "a" 1 0 ++ Receiver.senderConnects "b" 2 1)
        (Receiver.State.initial 60)).map
          (fun s => (connections s.peer, s.crashed)) = some ([(0, 1), (1, 2)], false) := by
    decide +kernel
  have hs : ((Sender.system.guard fun s l => match l with
      | .message env _ => registersNew env s.peer
      | .handlerOp env => registersAll env
      | _ => true).run (Sender.receiverConnects "a" 1 0 ++ Sender.receiverConnects "b" 2 1)
        Sender.State.start).map
          (fun s => connections s.peer) = some [(0, 1), (1, 2)] := by decide +kernel
  obtain ⟨r, hr, hview⟩ := Option.map_eq_some_iff.mp hr
  obtain ⟨s, hs, hsview⟩ := Option.map_eq_some_iff.mp hs
  obtain ⟨hrview, hcrashed⟩ := Prod.mk.inj hview
  refine ⟨r, s, hrview, hsview, (nodes_correspond r s).1 (.restrict_restrict ?_) hcrashed,
    (nodes_correspond r s).2 (.restrict_restrict ?_)⟩
  · refine .of_guard ?_ ⟨60, rfl⟩ hr
    intro u l hl
    cases l with
    | message env msg => exact newId_registers hl
    | _ => exact ⟨trivial, trivial⟩
  · refine .of_guard ?_ ⟨_, _, _, rfl⟩ hs
    intro u l hl
    cases l with
    | message env msg => exact newId_registers hl
    | handlerOp env => exact ⟨trivial, fun _ _ _ => registers_of_registersAll hl⟩
    | _ => exact ⟨trivial, trivial⟩

/-- An offer for whose connection the first callback cannot be registered: the
connection is deleted and answered all the same, and its node stays linked. -/
theorem deleted_connection_linked :
    ¬ ∀ s, Receiver.numbered.Reachable s → s.crashed = false → s.todo = [] →
      Correspond s.peer := by
  intro h
  have hrun : ((Receiver.system.guard fun s l => match l with
      | .message env _ => unusedIn s.peer env.createPeerConnection
      | _ => true).run
        [.message { Env.succeeding 0 1 with setCallback := fun _ => -1 }
            ⟨some "s", none, .offer (some "sdp")⟩,
          .handlerOp (.succeeding 0 1), .handlerOp (.succeeding 0 1)]
        (Receiver.State.initial 60)).map
          (fun s => (connections s.peer, lifecycles s.peer, s.crashed, s.todo)) =
            some ([(0, 1)], [(true, 1), (false, 1)], false, []) := by decide +kernel
  obtain ⟨s, hs, hview⟩ := Option.map_eq_some_iff.mp hrun
  simp only [Prod.mk.injEq] at hview
  obtain ⟨hnodes, hcalls, hcrashed, htodo⟩ := hview
  have hreach : Receiver.numbered.Reachable s := by
    refine .of_guard ?_ ⟨60, rfl⟩ hs
    intro u l hl
    cases l with
    | message env msg => exact fun _ _ => unused_of_unusedIn hl
    | _ => trivial
  have hmem : (0, 1) ∈ connections s.peer := by simp [hnodes]
  obtain ⟨⟨p, n⟩, hcell, hpair⟩ := List.mem_map.mp hmem
  obtain ⟨rfl, hid⟩ := Prod.mk.inj hpair
  have hlive := (h s hreach hcrashed htodo).live 0 n (Linked.get?_eq_some_iff.mpr hcell)
  rw [show n.pcId = 1 from hid] at hlive
  exact not_live hcalls hlive

end P2PFFmpeg
