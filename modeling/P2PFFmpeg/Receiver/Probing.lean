import P2PFFmpeg.Receiver.Discipline

namespace P2PFFmpeg.Receiver

open Library Library.Program Library.Transition Library.Concurrent Message Peer

def ProbesAsked (c : P2PContext) : Prop :=
  ∀ p n, c.peerConnectionNodeCaches.get? p = some n → n.status = .connected →
    n.networkQuality.Covered

/-- A request is allocated for every connected node, or none can be sent at all. -/
def Requests (env : Env) (c : P2PContext) : Prop :=
  (∀ p n, c.peerConnectionNodeCaches.get? p = some n → n.status = .connected →
    env.allocProbeRequest p = true) ∨
  ∀ p n, c.peerConnectionNodeCaches.get? p = some n → n.status = .connected →
    env.allocProbeRequest p = true → env.sendProbeRequest p < 0

structure Quiet (w : Permit) (c : P2PContext) : Prop where
  wiped : ∀ p ∈ c.peerConnectionNodeCaches.addrs, ¬ w.wiped p
  marked : ∀ p ∈ c.peerConnectionNodeCaches.addrs, ¬ w.marked p .connected
  linked : ∀ p pcId, w.linked p pcId → ¬ w.marked p .connected

theorem asked_frame {w : Permit} {c d : P2PContext} (hf : Frame w c d) (hq : Quiet w c)
    (hc : ProbesAsked c) : ProbesAsked d := by
  intro p m hm hconnected
  rcases hf.origin p m hm with ⟨n, hn, hsame⟩ | ⟨_, hstatus, hlinked, _⟩
  · have hp := Linked.mem_addrs_iff.mpr ⟨n, hn⟩
    have hn' : n.status = .connected := by
      rcases hsame.status with hs | hs
      · rw [← hs, hconnected]
      · rw [hconnected] at hs
        exact absurd hs (hq.marked p hp)
    exact (hsame.covered (hc p n hn hn')).resolve_right (hq.wiped p hp)
  · rcases hstatus with hs | hs
    · rw [hconnected] at hs
      cases hs
    · rw [hconnected] at hs
      exact absurd hs (hq.linked p m.pcId hlinked)

theorem statusOfRtcState_connected {state : RtcState} (h : .connected = statusOfRtcState state) :
    state = .connected := by
  cases state <;> first | rfl | cases h

section Request

variable {env : Env} {curr : Ptr} {n : PeerConnectionNode} {c : P2PContext}

theorem request_refused (hn : c.peerConnectionNodeCaches.get? curr = some n) (ha : env.allocMessage = false) :
    value (sendProbeRequestToPublisher env curr) c = some averrorEnomem ∧
      after (sendProbeRequestToPublisher env curr) c = c := by
  simp only [sendProbeRequestToPublisher, value_bind, after_bind, readNode_some hn, readNode_after,
    Option.bind_some, value_get, after_get, ha, if_true]
  exact ⟨rfl, rfl⟩

def requested (now : Int) (data : NetworkQualityMetrics) : NetworkQualityMetrics :=
  { data with
    expectedPackets := totalPackets
    timeoutMs := probeTimeoutMs
    probeStartTime := now }

theorem request_sent (hn : c.peerConnectionNodeCaches.get? curr = some n) (ha : env.allocMessage = true) :
    value (sendProbeRequestToPublisher env curr) c = some env.sendMessage ∧
      (after (sendProbeRequestToPublisher env curr) c).peerConnectionNodeCaches =
        c.peerConnectionNodeCaches.modify curr (setNetworkQuality (requested env.now)) := by
  simp only [sendProbeRequestToPublisher, value_bind, after_bind, readNode_some hn, readNode_after,
    Option.bind_some, value_get, after_get, ha, Bool.true_eq_false, if_false]
  exact ⟨rfl, rfl⟩

theorem sendProbe_round {sent k : Nat} (hn : c.peerConnectionNodeCaches.get? curr = some n)
    (hv : value (sendProbe env curr n sent) c = some k) :
    (k = sent ∧ after (sendProbe env curr n sent) c = c ∧
      (n.status = .connected → env.allocProbeRequest curr = false)) ∨
    (n.status = .connected ∧ env.allocProbeRequest curr = true ∧
      (k = sent ∨ 0 ≤ env.sendProbeRequest curr) ∧
      (after (sendProbe env curr n sent) c).peerConnectionNodeCaches =
        c.peerConnectionNodeCaches.modify curr (setNetworkQuality (requested env.now))) := by
  unfold sendProbe at hv ⊢
  by_cases hconnected : n.status = .connected
  · rw [if_pos hconnected] at hv ⊢
    cases ha : env.allocProbeRequest curr with
    | false =>
        obtain ⟨hvalue, hafter⟩ := @request_refused (requestEnv env curr) curr n c hn ha
        rw [value_bind, hvalue] at hv
        rw [after_bind, hvalue, hafter]
        cases hv
        exact Or.inl ⟨rfl, rfl, fun _ => rfl⟩
    | true =>
        obtain ⟨hvalue, hafter⟩ := @request_sent (requestEnv env curr) curr n c hn ha
        rw [value_bind, hvalue, Option.bind_some] at hv
        rw [after_bind, hvalue]
        refine Or.inr ⟨hconnected, rfl, ?_, ?_⟩
        · by_cases hsent : 0 ≤ env.sendProbeRequest curr
          · exact Or.inr hsent
          · rw [show (requestEnv env curr).sendMessage = env.sendProbeRequest curr from rfl,
              if_neg hsent] at hv
            cases hv
            exact Or.inl rfl
        · dsimp only
          split <;> exact hafter
  · rw [if_neg hconnected] at hv ⊢
    cases hv
    exact Or.inl ⟨rfl, rfl, fun h => absurd h hconnected⟩

/-- The loop in `d`, started in `c`, behind the nodes in `done`. -/
structure Asking (env : Env) (c : P2PContext) (done : List Ptr) (d : P2PContext) (sent : Nat) :
    Prop where
  nodes : ∀ q m, d.peerConnectionNodeCaches.get? q = some m →
    ∃ n, c.peerConnectionNodeCaches.get? q = some n ∧ m.status = n.status ∧
      (q ∈ done → m.status = .connected → env.allocProbeRequest q = true →
        m.networkQuality.Covered)
  sent : sent = 0 ∨ ∃ q n, c.peerConnectionNodeCaches.get? q = some n ∧ n.status = .connected ∧
    env.allocProbeRequest q = true ∧ 0 ≤ env.sendProbeRequest q

theorem asking_start : Asking env c [] c 0 where
  nodes := fun _ m hm => ⟨m, hm, rfl, fun hq => absurd hq List.not_mem_nil⟩
  sent := Or.inl rfl

theorem asking_round (hnow : 0 < env.now) {done : List Ptr} {d : P2PContext} {sent k : Nat}
    (h : Asking env c done d sent) (hn : d.peerConnectionNodeCaches.get? curr = some n)
    (hv : value (sendProbe env curr n sent) d = some k) :
    Asking env c (done ++ [curr]) (after (sendProbe env curr n sent) d) k := by
  have hcovered : ∀ data, (requested env.now data).Covered := fun data =>
    Or.inr ⟨(by decide : 0 < probeTimeoutMs), hnow⟩
  obtain ⟨n₀, hn₀, hstatus₀, _⟩ := h.nodes curr n hn
  rcases sendProbe_round hn hv with ⟨rfl, hafter, hrefused⟩ | ⟨hconnected, ha, hcount, hafter⟩
  · rw [hafter]
    refine ⟨fun q m hm => ?_, h.sent⟩
    obtain ⟨n', hn', hs', hasked⟩ := h.nodes q m hm
    refine ⟨n', hn', hs', fun hq hc haq => ?_⟩
    rcases List.mem_append.mp hq with hq | hq
    · exact hasked hq hc haq
    · rw [List.mem_singleton.mp hq] at hm haq
      rw [hn] at hm
      cases hm
      rw [hrefused hc] at haq
      cases haq
  · refine ⟨fun q m hm => ?_, ?_⟩
    · rw [hafter, Linked.get?_modify] at hm
      split at hm
      · next hq =>
          subst hq
          rw [hn] at hm
          cases hm
          exact ⟨n₀, hn₀, hstatus₀, fun _ _ _ => hcovered _⟩
      · next hq =>
          obtain ⟨n', hn', hs', hasked⟩ := h.nodes q m hm
          refine ⟨n', hn', hs', fun hmem hc haq => hasked ?_ hc haq⟩
          exact (List.mem_append.mp hmem).resolve_right fun h => hq (List.mem_singleton.mp h)
    · rcases hcount with rfl | hs
      · exact h.sent
      · exact Or.inr ⟨curr, n₀, hn₀, hstatus₀ ▸ hconnected, ha, hs⟩

theorem sendProbes_asked {k : Nat} (hnow : 0 < env.now) (hreq : Requests env c)
    (hv : value (walk (sendProbe env) 0) c = some k) (hk : k ≠ 0) :
    ProbesAsked (after (walk (sendProbe env) 0) c) := by
  rw [walk, value_get_bind] at hv
  rw [walk, after_get_bind]
  have hloop := walkNodes_invariant (Asking env c)
    (fun done p n a b s h hn hv => asking_round hnow h hn hv) asking_start hv
  intro p m hm hconnected
  obtain ⟨n, hn, hstatus, hasked⟩ := hloop.nodes p m hm
  refine hasked ?_ hconnected ?_
  · exact List.mem_append_right [] (Linked.mem_addrs_iff.mpr ⟨n, hn⟩)
  · rcases hreq with hall | hnone
    · exact hall p n hn (hstatus ▸ hconnected)
    · obtain ⟨q, n', hn', hc', ha', hs'⟩ := hloop.sent.resolve_left hk
      have hrefused := hnone q n' hn' hc' ha'
      omega

end Request

def ClockRuns (_ : State) : Label → Prop
  | .thread env => 0 < env.now
  | _ => True

noncomputable def timed : System State Label := system.restrict ClockRuns

/-- A node gets connected only before the requests are sent or after the probing,
and the requests go to every connected node. -/
def AsksAll (s : State) : Label → Prop
  | .callback (.stateChange _ node .connected) => node ∈ s.peer.peerConnectionNodeCaches.addrs →
      s.context.currentState ≠ .probing ∧
        ¬(s.thread.pc = .setProbing ∧ s.context.currentState < .probing)
  | .thread env => s.thread.pc = .sendProbes → Requests env s.peer
  | _ => True

structure Probing (s : State) : Prop where
  asked : s.context.currentState = .probing → ProbesAsked s.peer
  entering : s.thread.pc = .setProbing → s.context.currentState < .probing → ProbesAsked s.peer
  early : s.thread.pc = .initProbes ∨ s.thread.pc = .sendProbes → s.context.currentState ≠ .probing

variable {l : Label} {s : State}

theorem sets_probing (hd : Discipline s) (hs : sets s l = some .probing) :
    s.thread.pc = .setProbing ∧ ∃ env, l = .thread env := by
  cases l with
  | callback event =>
      cases event with
      | joinRoom now => cases hs
      | stateChange env node state => cases hs
      | event event => cases hs
  | message env msg => cases hs
  | handlerOp env =>
      obtain ⟨op, hop, hset⟩ := Option.bind_eq_some_iff.mp hs
      cases op with
      | sendDescription node role => cases hset
      | setState st =>
          cases hset
          rcases hd.todo _ (List.mem_of_mem_head? hop) with h | h | h | ⟨h, _⟩ <;> cases h
  | callbackOp env =>
      obtain ⟨op, hop, hset⟩ := Option.bind_eq_some_iff.mp hs
      cases op with
      | sendDescription node role => cases hset
      | setState st =>
          cases hset
          have h := hd.pool _ (List.mem_of_mem_head? hop)
          cases h
  | thread env =>
      change s.thread.pc.sets = some .probing at hs
      cases hpc : s.thread.pc with
      | setProbing => exact ⟨rfl, env, rfl⟩
      | _ =>
          rw [hpc] at hs
          cases hs

theorem becomes_probing {s t : State} (hd : Discipline s) (h : threads.next s l = some t)
    (ht : t.context.currentState = .probing) : s.context.currentState = .probing ∨
      (s.thread.pc = .setProbing ∧ s.context.currentState < .probing ∧ ∃ env, l = .thread env) := by
  have hstate := next_currentState h
  rcases raised_eq s.context.currentState (sets s l) with hr | hr
  · rw [hr, ht] at hstate
    exact Or.inl hstate.symm
  · rw [← hstate, ht] at hr
    obtain ⟨hpc, hl⟩ := sets_probing hd hr
    have hle := next_le h
    rw [ht] at hle
    rcases lt_or_eq_of_le hle with hlt | heq
    · exact Or.inr ⟨hpc, hlt, hl⟩
    · exact Or.inl heq

theorem permit_quiet
    (hthread : ∀ env, l = .thread env → ¬(s.thread.pc = .initProbes ∨ s.thread.pc = .sendProbes))
    (hconnect : ∀ env node, l = .callback (.stateChange env node .connected) →
      node ∉ s.peer.peerConnectionNodeCaches.addrs) : Quiet (permit s l) s.peer := by
  cases l with
  | callback event =>
      cases event with
      | stateChange env node state =>
          refine ⟨?_, ?_, fun p pcId hf => absurd hf id⟩
          · rintro p hp ⟨rfl, rfl⟩
            exact hconnect env p rfl hp
          · rintro p hp ⟨rfl, hs⟩
            rw [statusOfRtcState_connected hs] at hconnect
            exact hconnect env p rfl hp
      | joinRoom now | event event =>
          exact ⟨fun _ _ hf => hf, fun _ _ hf => hf, fun _ _ _ hf => hf⟩
  | thread env =>
      refine ⟨fun p _ hw => hthread env rfl hw, ?_, fun p pcId hf => absurd hf id⟩
      rintro p _ ⟨_, hs⟩
      cases hs
  | message env msg => exact ⟨fun _ _ hf => hf, fun _ _ hf => hf, fun _ _ _ hf => hf⟩
  | handlerOp env | callbackOp env =>
      exact ⟨fun _ _ hf => hf, fun _ _ hf => hf, fun _ _ _ hf => hf⟩

theorem edge_to_setProbing {d : P2PRtpDemuxContext} {a b : ConnectPc} (h : ConnectEdge d a b)
    (hb : b = .setProbing) : a = .sendProbes := by
  cases h with
  | dispatch => cases hs : d.currentState <;> rw [hs] at hb <;> cases hb
  | sent => rfl
  | _ => cases hb

theorem edge_to_probes {d : P2PRtpDemuxContext} {a b : ConnectPc} (h : ConnectEdge d a b)
    (hb : b = .initProbes ∨ b = .sendProbes) :
    (a = .switch ∧ d.currentState = .datachannelReady) ∨ a = .initProbes := by
  cases h with
  | dispatch =>
      refine Or.inl ⟨rfl, ?_⟩
      cases hs : d.currentState <;> rw [hs] at hb <;> first | rfl | simp [dispatch] at hb
  | connected => exact Or.inr rfl
  | _ => simp at hb

theorem next_sendProbes {s t : State} {env : Env} (h : threads.next s (.thread env) = some t)
    (hs : s.thread.pc = .sendProbes) (ht : t.thread.pc = .setProbing) :
    ∃ k, value (walk (sendProbe env) 0) s.peer = some k ∧ k ≠ 0 ∧
      t.peer = after (walk (sendProbe env) 0) s.peer := by
  cases next_moves h with
  | thread hr =>
      have hcontext := hr.context
      rcases hr.control with ⟨a, hv, he⟩ | ⟨_, he⟩
      · have ha : t.thread = a := by rw [he]
        simp only [threads, connectStep, value_get_bind, hs] at hv
        obtain ⟨k, hk, hgoto⟩ := value_bind_some hv
        rw [value_onPeer] at hk
        refine ⟨k, hk, ?_, ?_⟩
        · rintro rfl
          cases hgoto
          rw [ha] at ht
          cases ht
        · rw [State.peer, hcontext]
          simp only [threads, connectStep, after_get_bind, hs, after_bind_pure, after_onPeer]
          rfl
      · rw [he, hs] at ht
        cases ht

theorem probing_step {s t : State} (hd : Discipline s) (hclock : ClockRuns s l) (hall : AsksAll s l)
    (hp : Probing s) (h : threads.next s l = some t) : Probing t where
  asked := by
    intro ht
    rcases becomes_probing hd h ht with hs | ⟨hpc, hlt, env, rfl⟩
    · refine asked_frame (next_frame h) (permit_quiet ?_ ?_) (hp.asked hs)
      · exact fun _ _ hpc => hp.early hpc hs
      · rintro env node rfl hnode
        exact (hall hnode).1 hs
    · refine asked_frame (next_frame h) (permit_quiet ?_ ?_) (hp.entering hpc hlt)
      · rintro _ _ (hpc' | hpc') <;> · rw [hpc] at hpc'; cases hpc'
      · rintro env' node hl
        cases hl
  entering := by
    intro ht hlt
    have hlt' := lt_of_le_of_lt (next_le h) hlt
    rcases next_pc h with ⟨_, hsame⟩ | ⟨⟨env, rfl⟩, hedge⟩
    · rw [hsame] at ht
      refine asked_frame (next_frame h) (permit_quiet ?_ ?_) (hp.entering ht hlt')
      · rintro _ _ (hpc | hpc) <;> · rw [ht] at hpc; cases hpc
      · rintro env node rfl hnode
        exact (hall hnode).2 ⟨ht, hlt'⟩
    · have hpc := edge_to_setProbing hedge ht
      obtain ⟨k, hk, hne, hpeer⟩ := next_sendProbes h hpc ht
      rw [hpeer]
      exact sendProbes_asked hclock (hall hpc) hk hne
  early := by
    intro hpc ht
    rcases becomes_probing hd h ht with hs | ⟨hset, _, env, rfl⟩
    · rcases next_pc h with ⟨_, hsame⟩ | ⟨_, hedge⟩
      · exact hp.early (hsame ▸ hpc) hs
      · rcases edge_to_probes hedge hpc with ⟨_, hready⟩ | hinit
        · rw [hready] at hs
          cases hs
        · exact hp.early (Or.inl hinit) hs
    · rcases next_pc h with ⟨_, hsame⟩ | ⟨_, hedge⟩
      · rw [hsame, hset] at hpc
        simp at hpc
      · rcases edge_to_probes hedge hpc with ⟨hswitch, _⟩ | hinit
        · rw [hset] at hswitch
          cases hswitch
        · rw [hset] at hinit
          cases hinit

theorem probing_reachable (h : (timed.restrict AsksAll).Reachable s) : Probing s := by
  refine System.Reachable.invariant Probing ?_ ?_ h
  · rintro s ⟨waitTimeout, rfl⟩
    refine ⟨fun h => ?_, fun h => ?_, fun h => ?_⟩
    · cases h
    · cases h
    · simp [State.initial] at h
  · intro s l t hr hp hn
    obtain ⟨hall, hn⟩ := System.restrict_next.mp hn
    obtain ⟨hclock, hn⟩ := System.restrict_next.mp hn
    exact probing_step (discipline_reachable hr.of_restrict.of_restrict) hclock hall hp hn

def probes (s : State) : List (Ptr × ProbingPhase × Int × Int) :=
  (s.peer.peerConnectionNodeCaches.cells.filter fun c => c.2.status == .connected).map fun c =>
    (c.1, c.2.networkQuality.phase, c.2.networkQuality.timeoutMs, c.2.networkQuality.probeStartTime)

theorem mem_probes {s : State} {p : Ptr} {phase : ProbingPhase} {timeoutMs probeStartTime : Int}
    (h : (p, phase, timeoutMs, probeStartTime) ∈ probes s) :
    ∃ n, s.peer.peerConnectionNodeCaches.get? p = some n ∧ n.status = .connected ∧
      n.networkQuality.phase = phase ∧ n.networkQuality.timeoutMs = timeoutMs ∧
      n.networkQuality.probeStartTime = probeStartTime := by
  obtain ⟨⟨q, n⟩, hcell, hview⟩ := List.mem_map.mp h
  obtain ⟨hmem, hstatus⟩ := List.mem_filter.mp hcell
  simp only [Prod.mk.injEq] at hview
  obtain ⟨rfl, hphase, htimeout, hstart⟩ := hview
  exact ⟨n, Linked.get?_eq_some_iff.mpr hmem, beq_iff_eq.mp hstatus, hphase, htimeout, hstart⟩

def asksAll (s : State) : Label → Bool
  | .callback (.stateChange _ _ _) => s.context.currentState != .probing && s.thread.pc != .setProbing
  | .thread env => decide (0 < env.now) &&
      s.peer.peerConnectionNodeCaches.addrs.all env.allocProbeRequest
  | _ => true

theorem asksAll_iff (h : asksAll s l = true) : ClockRuns s l ∧ AsksAll s l := by
  cases l with
  | callback event =>
      refine ⟨trivial, ?_⟩
      cases event with
      | stateChange env node state =>
          obtain ⟨hs, hpc⟩ := Bool.and_eq_true_iff.mp h
          cases state with
          | connected => exact fun _ => ⟨bne_iff_ne.mp hs, fun hboth => bne_iff_ne.mp hpc hboth.1⟩
          | _ => trivial
      | _ => trivial
  | thread env =>
      obtain ⟨hnow, halloc⟩ := Bool.and_eq_true_iff.mp h
      have hpos : 0 < env.now := of_decide_eq_true hnow
      refine ⟨hpos, fun _ => Or.inl fun p n hn _ => ?_⟩
      exact List.all_eq_true.mp halloc p (Linked.mem_addrs_iff.mpr ⟨n, hn⟩)
  | _ => exact ⟨trivial, trivial⟩

end P2PFFmpeg.Receiver
