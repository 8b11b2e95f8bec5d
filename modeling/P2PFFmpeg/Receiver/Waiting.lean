import P2PFFmpeg.Library.Deadline
import P2PFFmpeg.Receiver.MetricsHistory
import P2PFFmpeg.Receiver.Probing

namespace P2PFFmpeg.Receiver

open Library Library.Program Library.Transition Library.Concurrent Library.Deadline Message Peer

/-- No step reads an earlier time than time, and the connect thread sleeps until
wake; it last checked its deadline at checked. -/
structure Clock where
  time : Int
  wake : Int
  checked : Int
  deriving DecidableEq

def sleepUs : Int := 100 * 1000

def slept : ConnectPc → ConnectPc → Int
  | .switch, .whileHead | .initProbes, .whileHead | .poll, .pollHead | .requestStream, .whileHead => sleepUs
  | .sendProbes, .retryForever | .retryForever, .retryForever => 500000
  | _, _ => 0

def timeOf : Label → Option Int
  | .thread env | .handlerOp env | .callbackOp env => some env.now
  | .callback (.joinRoom now) => some now
  | .callback (.stateChange env _ _) => some env.now
  | .callback (.event (.probeChannelMessage _ _ _ _ now)) => some now
  | _ => none

def isThread : Label → Bool
  | .thread _ => true
  | _ => false

def Clock.onTime (c : Clock) (l : Label) : Bool :=
  (timeOf l).all fun now => decide (c.time ≤ now ∧ (isThread l = true → c.wake ≤ now))

def Clock.after (c : Clock) (l : Label) (place next : ConnectPc) : Clock :=
  match timeOf l with
  | none => c
  | some now =>
      if isThread l then ⟨now, now + slept place next, if place = .checkTimeout then now else c.checked⟩
      else ⟨now, max c.wake now, c.checked⟩

def clocked : System (State × Clock) Label where
  init r := system.init r.1 ∧ r.2 = ⟨0, 0, 0⟩
  next r l :=
    if r.2.onTime l then
      (system.next r.1 l).map fun t => (t, r.2.after l r.1.thread.pc t.thread.pc)
    else none

theorem clocked_next {r u : State × Clock} {l : Label} (h : clocked.next r l = some u) :
    r.2.onTime l = true ∧ threads.next r.1 l = some u.1 ∧ u.2 = r.2.after l r.1.thread.pc u.1.thread.pc := by
  change (if r.2.onTime l then _ else none) = some u at h
  split at h
  · next htime =>
      obtain ⟨t, ht, rfl⟩ := Option.map_eq_some_iff.mp h
      exact ⟨htime, ht, rfl⟩
  · cases h

section Clock

variable {c : Clock} {l : Label} {a b : ConnectPc} {env : Env}

theorem slept_nonneg (a b : ConnectPc) : 0 ≤ slept a b := by
  unfold slept
  split <;> decide

theorem onTime_thread (h : c.onTime (.thread env) = true) : c.time ≤ env.now ∧ c.wake ≤ env.now := by
  obtain ⟨htime, hwake⟩ := of_decide_eq_true (show decide _ = true from h)
  exact ⟨htime, hwake rfl⟩

theorem after_thread : c.after (.thread env) a b =
    ⟨env.now, env.now + slept a b, if a = .checkTimeout then env.now else c.checked⟩ := rfl

theorem Clock.time_le_after (h : c.onTime l = true) : c.time ≤ (c.after l a b).time := by
  unfold Clock.onTime at h
  unfold Clock.after
  cases hl : timeOf l with
  | none => exact Int.le_refl _
  | some now =>
      rw [hl] at h
      have hle := (of_decide_eq_true (show decide _ = true from h)).1
      simp only
      split
      · exact hle
      · exact hle

theorem Clock.time_after {now : Int} (hl : timeOf l = some now) : (c.after l a b).time = now := by
  unfold Clock.after
  rw [hl]
  simp only
  split
  · rfl
  · rfl

theorem Clock.after_other (h : isThread l = false) :
    c.wake ≤ (c.after l a b).wake ∧ (c.after l a b).checked = c.checked := by
  unfold Clock.after
  rw [h]
  cases timeOf l with
  | none => exact ⟨Int.le_refl _, rfl⟩
  | some now => exact ⟨le_max_left _ _, rfl⟩

structure Clock.Ordered (c : Clock) : Prop where
  time : c.time ≤ c.wake
  checked : c.checked ≤ c.wake

theorem Clock.Ordered.after (hc : c.Ordered) (h : c.onTime l = true) : (c.after l a b).Ordered := by
  unfold Clock.onTime at h
  unfold Clock.after
  cases hl : timeOf l with
  | none => exact hc
  | some now =>
      rw [hl] at h
      obtain ⟨htime, hwake⟩ := of_decide_eq_true (show decide _ = true from h)
      have hslept := slept_nonneg a b
      simp only
      split
      · next hthread =>
          have hnow := hwake hthread
          refine ⟨Int.le_add_of_nonneg_right hslept, ?_⟩
          change (if a = .checkTimeout then now else c.checked) ≤ now + slept a b
          split
          · exact Int.le_add_of_nonneg_right hslept
          · have hchecked := hc.checked
            omega
      · exact ⟨le_max_right _ _, le_trans hc.checked (le_max_left _ _)⟩

end Clock

structure Ticks (now : Option Int) (a b : P2PRtpDemuxContext) : Prop where
  waitTimeout : b.waitTimeout = a.waitTimeout
  entered : b.stateEnterTime = a.stateEnterTime ∨ now = some b.stateEnterTime

instance (now : Option Int) : IsPreorder P2PRtpDemuxContext (Ticks now) where
  refl := fun _ => ⟨rfl, Or.inl rfl⟩
  trans := fun _ _ _ h g => ⟨g.waitTimeout.trans h.waitTimeout, by
    obtain hg | hg := g.entered
    · rw [hg]
      exact h.entered
    · exact Or.inr hg⟩

section Ticks

theorem ticks_onPeer {α : Type} (now : Option Int) (x : PeerM α) : Keeps (Ticks now) (onPeer x) := by
  intro s
  rw [after_onPeer]
  exact ⟨rfl, Or.inl rfl⟩

theorem ticks_setReceiverState (now : Int) (st : ReceiverState) :
    Keeps (Ticks (some now)) (modify (p2pSetReceiverState now st) : ReceiverM PUnit) := by
  apply keeps_modify
  intro s
  unfold p2pSetReceiverState
  split
  · exact ⟨rfl, Or.inr rfl⟩
  · exact ⟨rfl, Or.inl rfl⟩

theorem ticks_runReceiverOp (env : Env) (op : ReceiverOp) :
    Keeps (Ticks (some env.now)) (runReceiverOp env op) := by
  cases op with
  | sendDescription node role => exact ticks_onPeer _ _
  | setState st => exact ticks_setReceiverState _ _

theorem ticks_connectStep (env : Env) (t : ConnectThread) :
    Keeps (Ticks (some env.now)) (connectStep env t) := by
  obtain ⟨pc, startTime, probeStartTime⟩ := t
  apply keeps_get_bind
  intro ctx
  cases pc with
  | setProbing | setProbeCompleted | setRequestingStream | setError =>
      exact keeps_bind (ticks_setReceiverState _ _) (fun _ => keeps_pure _)
  | initProbes | sendProbes | countAvailable | selectBest | storeSelected | storeStatus =>
      exact keeps_bind (ticks_onPeer _ _) (fun _ => keeps_pure _)
  | poll =>
      simp only
      split
      · exact keeps_bind (ticks_onPeer _ _) (fun _ => keeps_pure _)
      · exact keeps_bind (ticks_onPeer _ _) (fun _ => keeps_pure _)
  | requestStream =>
      simp only
      split
      · exact keeps_pure _
      · exact keeps_bind (ticks_onPeer _ _) (fun _ => keeps_pure _)
  | returned ret =>
      refine keeps_bind (keeps_doWhen _ ?_) (fun _ => keeps_pure _)
      exact keeps_modify fun _ => ⟨rfl, Or.inl rfl⟩
  | clearActive =>
      refine keeps_bind (keeps_modify ?_) (fun _ => keeps_pure _)
      exact fun _ => ⟨rfl, Or.inl rfl⟩
  | _ => exact keeps_pure _

theorem next_ticks {s t : State} {l : Label} (h : threads.next s l = some t) :
    Ticks (timeOf l) s.context t.context := by
  cases next_moves h with
  | message _ hr =>
      rw [hr.context]
      simp only [threads, after_bind_pure]
      exact ticks_onPeer _ _ s.context
  | handlerOp _ hr =>
      rw [hr.context]
      exact ticks_runReceiverOp _ _ s.context
  | callbackOp _ hr =>
      rw [hr.context]
      exact ticks_runReceiverOp _ _ s.context
  | @callback event hr =>
      rw [hr.context]
      cases event with
      | joinRoom now => exact keeps_bind (ticks_setReceiverState now _) (fun _ => keeps_pure _) s.context
      | stateChange env node state => exact ticks_onPeer _ _ s.context
      | event event => exact keeps_bind (ticks_onPeer _ _) (fun _ => keeps_pure _) s.context
  | thread hr =>
      rw [hr.context]
      exact ticks_connectStep _ _ s.context

end Ticks

section Thread

variable {env : Env} {t t' : ConnectThread} {s : P2PRtpDemuxContext}

theorem connectStep_times (h : value (connectStep env t) s = some t') :
    t'.startTime = (if t.pc = .start then env.now else t.startTime) ∧
      t'.probeStartTime = if t.pc = .enterProbing then s.stateEnterTime else t.probeStartTime := by
  obtain ⟨pc, startTime, probeStartTime⟩ := t
  rw [connectStep, value_get_bind] at h
  cases pc with
  | poll =>
      simp only at h
      split at h
      · obtain ⟨_, _, h⟩ := value_bind_some h
        cases h
        exact ⟨rfl, rfl⟩
      · obtain ⟨_, _, h⟩ := value_bind_some h
        cases h
        exact ⟨rfl, rfl⟩
  | requestStream =>
      simp only at h
      split at h
      · cases h
        exact ⟨rfl, rfl⟩
      · obtain ⟨_, _, h⟩ := value_bind_some h
        cases h
        exact ⟨rfl, rfl⟩
  | initProbes | sendProbes | setProbing | setProbeCompleted | countAvailable | selectBest | storeSelected
  | storeStatus | setRequestingStream | setError | returned | clearActive =>
      obtain ⟨_, _, h⟩ := value_bind_some h
      cases h
      exact ⟨rfl, rfl⟩
  | _ =>
      cases h
      exact ⟨rfl, rfl⟩

theorem connectStep_inTime (h : value (connectStep env t) s = some t') (hpc : t.pc = .checkTimeout)
    (hnext : t'.pc = .checkError) : ¬ s.waitTimeout * 1000000 < env.now - t.startTime := by
  obtain ⟨pc, startTime, probeStartTime⟩ := t
  obtain rfl := hpc
  rw [connectStep, value_get_bind] at h
  cases h
  intro hlate
  simp only [ConnectThread.goto, if_pos hlate] at hnext
  cases hnext

theorem connectStep_polls (h : value (connectStep env t) s = some t') (hpc : t.pc = .poll)
    (hnext : t'.pc = .pollHead) : ¬ probeTimeout < env.now - t.probeStartTime := by
  obtain ⟨pc, startTime, probeStartTime⟩ := t
  obtain rfl := hpc
  rw [connectStep, value_get_bind] at h
  intro hlate
  simp only [if_pos hlate] at h
  obtain ⟨_, _, h⟩ := value_bind_some h
  cases h
  cases hnext

end Thread

section Loops

theorem walk_returns {α : Type} {body : Ptr → PeerConnectionNode → α → PeerM α}
    (hbody : ∀ p n a s, s.peerConnectionNodeCaches.get? p = some n → ∃ b, value (body p n a) s = some b ∧
      (after (body p n a) s).peerConnectionNodeCaches.addrs = s.peerConnectionNodeCaches.addrs)
    (a : α) (c : P2PContext) : ∃ b, value (walk body a) c = some b := by
  rw [walk, value_get_bind]
  obtain ⟨b, hb, -⟩ := @walkNodes_returns α body (fun _ s _ =>
      s.peerConnectionNodeCaches.addrs = c.peerConnectionNodeCaches.addrs) c.peerConnectionNodeCaches.addrs (by
    intro done p a s hp haddrs
    obtain ⟨n, hn⟩ := Linked.mem_addrs_iff.mp (haddrs ▸ hp)
    obtain ⟨b, hb, hsame⟩ := hbody p n a s hn
    exact ⟨n, b, hn, hb, hsame.trans haddrs⟩) [] a c rfl
  exact ⟨b, hb⟩

theorem completeProbe_addrs (curr : Ptr) (s : P2PContext) :
    (after (completeProbe curr) s).peerConnectionNodeCaches.addrs = s.peerConnectionNodeCaches.addrs :=
  Linked.addrs_modify _ _ _

theorem forceComplete_returns (curr : Ptr) (n : PeerConnectionNode) (u : Unit) (s : P2PContext) :
    ∃ b, value (forceComplete curr n u) s = some b ∧
      (after (forceComplete curr n u) s).peerConnectionNodeCaches.addrs = s.peerConnectionNodeCaches.addrs := by
  unfold forceComplete
  split
  · exact ⟨(), rfl, completeProbe_addrs curr s⟩
  · exact ⟨(), rfl, rfl⟩

theorem pollNode_returns (env : Env) (curr : Ptr) (n : PeerConnectionNode) (count : Nat × Nat)
    (s : P2PContext) : ∃ b, value (pollNode env curr n count) s = some b ∧
      (after (pollNode env curr n count) s).peerConnectionNodeCaches.addrs =
        s.peerConnectionNodeCaches.addrs := by
  unfold pollNode
  split
  · split
    · exact ⟨_, rfl, rfl⟩
    · split
      · exact ⟨_, rfl, completeProbe_addrs curr s⟩
      · exact ⟨_, rfl, rfl⟩
  · exact ⟨_, rfl, rfl⟩

theorem sendProbe_of_request {env : Env} {curr : Ptr} {n : PeerConnectionNode} (sent : Nat) {s : P2PContext}
    (hconnected : n.status = .connected) {ret : Int}
    (hv : value (sendProbeRequestToPublisher (requestEnv env curr) curr) s = some ret) :
    value (sendProbe env curr n sent) s = some (if 0 ≤ ret then sent + 1 else sent) ∧
      after (sendProbe env curr n sent) s =
        after (sendProbeRequestToPublisher (requestEnv env curr) curr) s := by
  rw [sendProbe, if_pos hconnected, value_bind, after_bind, hv, Option.bind_some]
  by_cases hret : 0 ≤ ret
  · simp only [if_pos hret]
    exact ⟨rfl, rfl⟩
  · simp only [if_neg hret]
    exact ⟨rfl, rfl⟩

theorem status_of_quality {nodes : Linked PeerConnectionNode} (p q : Ptr)
    (f : NetworkQualityMetrics → NetworkQualityMetrics) :
    ((nodes.modify p (setNetworkQuality f)).get? q).map (·.status) = (nodes.get? q).map (·.status) := by
  rw [Linked.get?_modify]
  split
  · rw [Option.map_map]
    rfl
  · rfl

theorem sendProbe_returns (env : Env) {curr : Ptr} {n : PeerConnectionNode} (sent : Nat) {s : P2PContext}
    (hn : s.peerConnectionNodeCaches.get? curr = some n) : ∃ k, value (sendProbe env curr n sent) s = some k ∧
      (after (sendProbe env curr n sent) s).peerConnectionNodeCaches.addrs =
        s.peerConnectionNodeCaches.addrs ∧
      (∀ q, ((after (sendProbe env curr n sent) s).peerConnectionNodeCaches.get? q).map (·.status) =
        (s.peerConnectionNodeCaches.get? q).map (·.status)) ∧ sent ≤ k ∧
      (n.status = .connected → env.allocProbeRequest curr = true → 0 ≤ env.sendProbeRequest curr →
        sent < k) := by
  by_cases hconnected : n.status = .connected
  · cases halloc : env.allocProbeRequest curr with
    | true =>
        obtain ⟨hv, hnodes⟩ := @request_sent (requestEnv env curr) curr n s hn halloc
        obtain ⟨hvalue, hafter⟩ := sendProbe_of_request sent hconnected hv
        rw [hafter, hnodes]
        refine ⟨_, hvalue, Linked.addrs_modify _ _ _, fun q => status_of_quality _ _ _, ?_, fun _ _ hsend => ?_⟩
        · split
          · exact Nat.le_succ _
          · exact Nat.le_refl _
        · have hret : 0 ≤ (requestEnv env curr).sendMessage := hsend
          rw [if_pos hret]
          exact Nat.lt_succ_self _
    | false =>
        obtain ⟨hv, hsame⟩ := @request_refused (requestEnv env curr) curr n s hn halloc
        obtain ⟨hvalue, hafter⟩ := sendProbe_of_request sent hconnected hv
        rw [hafter, hsame]
        refine ⟨_, hvalue, rfl, fun _ => rfl, ?_, fun _ h => nomatch h⟩
        split
        · exact Nat.le_succ _
        · exact Nat.le_refl _
  · rw [sendProbe, if_neg hconnected]
    exact ⟨sent, rfl, rfl, fun _ => rfl, Nat.le_refl _, fun h => absurd h hconnected⟩

def RequestGoesOut (env : Env) (c : P2PContext) : Prop :=
  ∃ p n, c.peerConnectionNodeCaches.get? p = some n ∧ n.status = .connected ∧
    env.allocProbeRequest p = true ∧ 0 ≤ env.sendProbeRequest p

theorem sendProbes_returns (env : Env) (c : P2PContext) : ∃ k, value (walk (sendProbe env) 0) c = some k ∧
    (RequestGoesOut env c → k ≠ 0) := by
  rw [walk, value_get_bind]
  obtain ⟨k, hk, haddrs, hstatus, hcount⟩ := @walkNodes_returns Nat (sendProbe env) (fun done s k =>
      s.peerConnectionNodeCaches.addrs = c.peerConnectionNodeCaches.addrs ∧
      (∀ q, (s.peerConnectionNodeCaches.get? q).map (·.status) =
        (c.peerConnectionNodeCaches.get? q).map (·.status)) ∧
      ∀ p ∈ done, ∀ n, c.peerConnectionNodeCaches.get? p = some n → n.status = .connected →
        env.allocProbeRequest p = true → 0 ≤ env.sendProbeRequest p → k ≠ 0)
    c.peerConnectionNodeCaches.addrs (by
      rintro done p sent s hp ⟨haddrs, hstatus, hcount⟩
      obtain ⟨n, hn⟩ := Linked.mem_addrs_iff.mp (haddrs ▸ hp)
      obtain ⟨k, hv, haddrs', hstatus', hle, hlt⟩ := sendProbe_returns env sent hn
      refine ⟨n, k, hn, hv, haddrs'.trans haddrs, fun q => (hstatus' q).trans (hstatus q), ?_⟩
      intro q hq m hm hconnected halloc hsend
      by_cases hqd : q ∈ done
      · have hpos := hcount q hqd m hm hconnected halloc hsend
        omega
      · obtain rfl := List.mem_singleton.mp ((List.mem_append.mp hq).resolve_left hqd)
        have hsame := hstatus q
        rw [hn, hm, Option.map_some, Option.map_some, Option.some.injEq] at hsame
        have hpos := hlt (hsame.trans hconnected) halloc hsend
        omega) [] 0 c ⟨rfl, fun _ => rfl, fun p hp => absurd hp List.not_mem_nil⟩
  refine ⟨k, hk, ?_⟩
  rintro ⟨p, n, hn, hconnected, halloc, hsend⟩
  exact hcount p (Linked.mem_addrs_iff.mpr ⟨n, hn⟩) n hn hconnected halloc hsend

end Loops

/-- Where requests are sent, one of them goes out, and the selected node is
linked where it is marked and where it is asked for the stream. -/
structure Served (s : State) (env : Env) : Prop where
  sends : s.thread.pc = .sendProbes → RequestGoesOut env s.peer
  marks : ∀ p, s.thread.pc = .storeStatus p → p ∈ s.peer.peerConnectionNodeCaches.addrs
  asks : s.thread.pc = .requestStream → ∀ p, s.peer.selectedNode = some p →
    p ∈ s.peer.peerConnectionNodeCaches.addrs

section Serve

variable {s : State} {env : Env}

theorem value_bind_goto {α : Type} {x : ReceiverM α} {f : α → ConnectThread} {c : P2PRtpDemuxContext} {a : α}
    (h : value x c = some a) : value (x >>= fun a => pure (f a)) c = some (f a) := by
  rw [value_bind_pure, h]
  rfl

theorem markSelected_returns {p : Ptr} {c : P2PContext} (h : p ∈ c.peerConnectionNodeCaches.addrs) :
    value (markSelected p) c = some () := by
  obtain ⟨n, hn⟩ := Linked.mem_addrs_iff.mp h
  rw [markSelected, value_bind, readNode_some hn]
  rfl

theorem sendStreamRequest_returns {p : Ptr} {c : P2PContext} (h : p ∈ c.peerConnectionNodeCaches.addrs) :
    ∃ ret, value (sendStreamRequest env (some p)) c = some ret := by
  obtain ⟨n, hn⟩ := Linked.mem_addrs_iff.mp h
  rw [sendStreamRequest, value_bind, readNode_some hn, Option.bind_some, value_get_bind]
  split
  · exact ⟨_, rfl⟩
  · exact ⟨_, rfl⟩

theorem connectStep_returns (h : Served s env) : ∃ t', value (connectStep env s.thread) s.context = some t' ∧
    (s.thread.pc = .sendProbes → t'.pc = .setProbing) := by
  obtain ⟨context, message, todo, pool, ⟨pc, startTime, probeStartTime⟩, crashed⟩ := s
  simp only [connectStep, value_get_bind]
  cases pc with
  | initProbes =>
      obtain ⟨k, hk, -⟩ := initProbes_walk env context.p2pContext
      rw [← value_onPeer] at hk
      exact ⟨_, value_bind_goto hk, fun hpc => by cases hpc⟩
  | sendProbes =>
      obtain ⟨k, hk, hpos⟩ := sendProbes_returns env context.p2pContext
      rw [← value_onPeer] at hk
      refine ⟨_, value_bind_goto hk, fun _ => ?_⟩
      exact if_neg (hpos (h.sends rfl))
  | poll =>
      simp only
      split
      · obtain ⟨u, hu⟩ := walk_returns (fun p n u s _ => forceComplete_returns p n u s) () context.p2pContext
        rw [← value_onPeer] at hu
        exact ⟨_, value_bind_goto hu, fun hpc => by cases hpc⟩
      · obtain ⟨k, hk⟩ := walk_returns (fun p n a s _ => pollNode_returns env p n a s) (0, 0)
          context.p2pContext
        rw [← value_onPeer] at hk
        exact ⟨_, value_bind_goto hk, fun hpc => by cases hpc⟩
  | countAvailable =>
      obtain ⟨k, hk, -⟩ := @countNode_walk context.p2pContext
      rw [← value_onPeer] at hk
      exact ⟨_, value_bind_goto hk, fun hpc => by cases hpc⟩
  | selectBest =>
      have hbest := @selectBestNode_pick context.p2pContext
      rw [← value_onPeer] at hbest
      exact ⟨_, value_bind_goto hbest, fun hpc => by cases hpc⟩
  | storeStatus p =>
      have hmark := markSelected_returns (h.marks p rfl)
      rw [State.peer, ← value_onPeer] at hmark
      exact ⟨_, value_bind_goto hmark, fun hpc => by cases hpc⟩
  | requestStream =>
      simp only
      cases hselected : context.p2pContext.selectedNode with
      | none => exact ⟨_, rfl, fun hpc => by cases hpc⟩
      | some p =>
          obtain ⟨ret, hret⟩ := @sendStreamRequest_returns env p _ (h.asks rfl p hselected)
          rw [State.peer, ← value_onPeer] at hret
          exact ⟨_, value_bind_goto hret, fun hpc => by cases hpc⟩
  | returned ret =>
      simp only
      by_cases hret : ret = 0
      · exact ⟨⟨.clearActive, startTime, probeStartTime⟩, by rw [hret]; rfl, fun hpc => by cases hpc⟩
      · exact ⟨⟨.clearActive, startTime, probeStartTime⟩, by rw [doWhen, decide_eq_false hret]; rfl,
          fun hpc => by cases hpc⟩
  | _ => exact ⟨_, rfl, fun hpc => by cases hpc⟩

end Serve

/-! The steps that the wait still has: each pass of the deadline check lends the steps of
one round of the outer loop, and a round that does not sleep is paid by the state it raises. -/

def ConnectPc.Waiting : ConnectPc → Prop
  | .returned _ | .clearActive | .exited => False
  | _ => True

def ConnectPc.level : ConnectPc → Option ReceiverState
  | .initProbes | .sendProbes | .setProbing => some .datachannelReady
  | .enterProbing | .pollHead | .poll | .afterPolling | .setProbeCompleted => some .probing
  | .countAvailable | .selectBest | .storeSelected _ | .storeStatus _ | .setRequestingStream =>
      some .probeCompleted
  | .requestStream => some .requestingStream
  | _ => none

def raises (st : ReceiverState) : ℕ := 10 - st.ctorIdx

def ticket (t : ConnectThread) (wake : Int) : ℕ :=
  match t.pc with
  | .checkError => 609
  | .switch => 608
  | .enterProbing => 607
  | .pollHead => 2 * rounds sleepUs probeTimeout t.probeStartTime wake + 4
  | .poll => 2 * rounds sleepUs probeTimeout t.probeStartTime wake + 3
  | .countAvailable => 6
  | .initProbes | .selectBest => 5
  | .sendProbes | .storeSelected _ => 4
  | .setProbing | .storeStatus _ | .requestStream => 3
  | .afterPolling | .setRequestingStream => 2
  | .setProbeCompleted => 1
  | _ => 0

def budget (limit : Int) : ℕ := 611 * 10 + 609 * ((limit / sleepUs).toNat + 1) + 3

def potential (limit : Int) (t : ConnectThread) (st : ReceiverState) (c : Clock) : ℕ :=
  match t.pc with
  | .start => budget limit
  | .whileHead => 611 * raises st + 609 * rounds sleepUs limit t.startTime c.wake + 2
  | .checkTimeout => 611 * raises st + 609 * rounds sleepUs limit t.startTime c.wake + 1
  | .setError _ => 1
  | .returned _ | .clearActive | .exited | .retryForever => 0
  | pc => 611 * raises (pc.level.getD st) + 609 * rounds sleepUs limit t.startTime (c.checked + sleepUs) +
      ticket t c.wake

section Potential

theorem sleepUs_pos : 0 < sleepUs := by decide

theorem raises_anti {a b : ReceiverState} (h : a ≤ b) : raises b ≤ raises a := by
  have hidx : a.ctorIdx ≤ b.ctorIdx := h
  unfold raises
  omega

theorem ctorIdx_le (st : ReceiverState) : st.ctorIdx ≤ 10 := by
  cases st <;> decide

theorem raises_lt {a b : ReceiverState} (h : a < b) : raises b + 1 ≤ raises a := by
  have hidx : a.ctorIdx < b.ctorIdx := h
  have hle := ctorIdx_le b
  unfold raises
  omega

theorem raises_le (st : ReceiverState) : raises st ≤ 10 := Nat.sub_le _ _

theorem ticket_anti (t : ConnectThread) {wake wake' : Int} (h : wake ≤ wake') :
    ticket t wake' ≤ ticket t wake := by
  have hrounds := @rounds_anti _ probeTimeout t.probeStartTime _ sleepUs_pos _ h
  obtain ⟨pc, startTime, probeStartTime⟩ := t
  simp only at hrounds
  cases pc with
  | pollHead | poll =>
      simp only [ticket]
      omega
  | _ => exact Nat.le_refl _

theorem potential_other (limit : Int) (t : ConnectThread) {st st' : ReceiverState} {c c' : Clock}
    (hst : st ≤ st') (hwake : c.wake ≤ c'.wake) (hchecked : c'.checked = c.checked) :
    potential limit t st' c' ≤ potential limit t st c := by
  have hraises := raises_anti hst
  have hrounds := @rounds_anti _ limit t.startTime _ sleepUs_pos _ hwake
  have hticket := ticket_anti t hwake
  obtain ⟨pc, startTime, probeStartTime⟩ := t
  simp only at hrounds
  cases pc with
  | start => exact Nat.le_refl _
  | whileHead | checkTimeout =>
      simp only [potential]
      omega
  | setError | returned | clearActive | exited | retryForever => exact Nat.le_refl _
  | _ =>
      simp only [potential, ConnectPc.level, Option.getD_some, Option.getD_none, hchecked]
      omega

end Potential

section Round

variable {env : Env} {t t' : ConnectThread} {s : P2PRtpDemuxContext} {c : Clock}

theorem level_of_edge (hedge : ConnectEdge s t.pc t'.pc) {st : ReceiverState} (hlevel : t'.pc.level = some st)
    (hold : ∀ st, t.pc.level = some st → st ≤ s.currentState) : st ≤ s.currentState := by
  obtain ⟨pc, startTime, probeStartTime⟩ := t
  obtain ⟨pc', startTime', probeStartTime'⟩ := t'
  simp only at hedge hlevel hold
  cases hedge with
  | dispatch =>
      cases hs : s.currentState <;> rw [hs] at hlevel <;> cases hlevel <;> exact le_refl _
  | connected | sent | enter | polling | notProbing | polled | pollAgain | stillProbing | available | best
  | selected | status =>
      cases hlevel
      exact hold _ rfl
  | _ => cases hlevel

theorem potential_thread (hv : value (connectStep env t) s = some t') (hordered : c.Ordered)
    (hentered : s.stateEnterTime ≤ c.wake) (hwake : c.wake ≤ env.now)
    (hlevel : ∀ st, t.pc.level = some st → st ≤ s.currentState) (hwaiting : t'.pc.Waiting) :
    potential (s.waitTimeout * 1000000) t' (raised s.currentState t.pc.sets)
        (c.after (.thread env) t.pc t'.pc) + 1 ≤
      potential (s.waitTimeout * 1000000) t s.currentState c ∨ t.pc = .retryForever := by
  have hedge := connectStep_edge hv
  obtain ⟨hstart, hprobe⟩ := connectStep_times hv
  have hinTime := connectStep_inTime hv
  have hpolls := connectStep_polls hv
  have hchecked := hordered.checked
  rw [after_thread]
  clear hv
  generalize s.waitTimeout * 1000000 = limit at *
  obtain ⟨pc, startTime, probeStartTime⟩ := t
  obtain ⟨pc', startTime', probeStartTime'⟩ := t'
  simp only at hedge hstart hprobe hlevel hinTime hpolls hwaiting ⊢
  have hlater : ∀ limit start sleep, 0 ≤ sleep →
      rounds sleepUs limit start (env.now + sleep) ≤ rounds sleepUs limit start c.wake :=
    fun _ _ _ hsleep => rounds_anti sleepUs_pos (by omega)
  have hpassed : rounds sleepUs limit startTime (env.now + sleepUs) ≤
      rounds sleepUs limit startTime (c.checked + sleepUs) := rounds_anti sleepUs_pos (by omega)
  have hunslept : rounds sleepUs limit startTime (env.now + 0) ≤
      rounds sleepUs limit startTime (c.checked + sleepUs) + 1 :=
    le_trans (rounds_anti sleepUs_pos (by omega)) (rounds_le_succ sleepUs_pos)
  cases hedge with
  | streaming | timeout | failed | error | returned | cleared | exited => exact absurd hwaiting id
  | retry => exact Or.inr rfl
  | start =>
      left
      have hround := @rounds_le _ limit env.now (env.now + 0) sleepUs_pos (by omega)
      have hraises := raises_le s.currentState
      simp only [potential, budget, hstart, if_true, slept, ConnectPc.sets, raised]
      omega
  | notStreaming =>
      left
      have hround := hlater limit startTime 0 (Int.le_refl 0)
      simp only [potential, hstart, reduceCtorEq, if_false, slept, ConnectPc.sets, raised]
      omega
  | inTime =>
      left
      have hround := @rounds_sleep _ _ _ _ sleepUs_pos (hinTime rfl rfl)
      have hwake' := hlater limit startTime 0 (Int.le_refl 0)
      rw [Int.add_zero] at hwake'
      simp only [potential, ticket, hstart, reduceCtorEq, if_false, if_true, ConnectPc.level, Option.getD_none,
        ConnectPc.sets, raised]
      omega
  | notFailed =>
      left
      simp only [potential, ticket, hstart, reduceCtorEq, if_false, ConnectPc.level, Option.getD_none,
        ConnectPc.sets, raised]
      omega
  | dispatch =>
      left
      cases hs : s.currentState with
      | datachannelReady | probing | probeCompleted | requestingStream =>
          simp only [potential, dispatch, ticket, hstart, reduceCtorEq, if_false, ConnectPc.level,
            Option.getD_some, Option.getD_none]
          omega
      | _ =>
          simp only [potential, dispatch, ticket, hstart, reduceCtorEq, if_false, ConnectPc.level,
            Option.getD_none, slept, ConnectPc.sets, raised]
          omega
  | noneConnected | requested =>
      left
      have hraises := raises_anti (hlevel _ rfl)
      simp only [potential, ticket, hstart, reduceCtorEq, if_false, ConnectPc.level, Option.getD_some, slept,
        ConnectPc.sets, raised]
      omega
  | connected | sent | available | best | selected | status | stillProbing | noneSent | pollEmpty | noneAvailable
  | noneBest | noneSelected | requestFailed | notProbing | polled =>
      left
      simp only [potential, ticket, hstart, reduceCtorEq, if_false, ConnectPc.level, Option.getD_some,
        ConnectPc.sets, raised]
      omega
  | probing =>
      left
      have hset := raises_anti (le_max_right s.currentState .probing)
      have hraises := @raises_lt .datachannelReady .probing (by decide)
      simp only [potential, ticket, hstart, reduceCtorEq, if_false, ConnectPc.level, Option.getD_some, slept,
        ConnectPc.sets, raised]
      omega
  | completed =>
      left
      have hset := raises_anti (le_max_right s.currentState .probeCompleted)
      have hraises := @raises_lt .probing .probeCompleted (by decide)
      simp only [potential, ticket, hstart, reduceCtorEq, if_false, ConnectPc.level, Option.getD_some, slept,
        ConnectPc.sets, raised]
      omega
  | requesting =>
      left
      have hset := raises_anti (le_max_right s.currentState .requestingStream)
      have hraises := @raises_lt .probeCompleted .requestingStream (by decide)
      simp only [potential, ticket, hstart, reduceCtorEq, if_false, ConnectPc.level, Option.getD_some, slept,
        ConnectPc.sets, raised]
      omega
  | leftProbing hleft =>
      left
      have hraises := raises_lt (lt_of_le_of_ne (hlevel _ rfl) (Ne.symm hleft))
      simp only [potential, ticket, hstart, reduceCtorEq, if_false, ConnectPc.level, Option.getD_some, slept,
        ConnectPc.sets, raised]
      omega
  | enter =>
      left
      have hround := @rounds_le _ probeTimeout s.stateEnterTime (env.now + 0) sleepUs_pos (by omega)
      have hmax : (probeTimeout / sleepUs).toNat = 300 := by decide
      simp only [potential, ticket, hstart, hprobe, reduceCtorEq, if_false, if_true, ConnectPc.level,
        Option.getD_some, slept, ConnectPc.sets, raised]
      omega
  | polling =>
      left
      have hround := hlater probeTimeout probeStartTime 0 (Int.le_refl 0)
      simp only [potential, ticket, hstart, hprobe, reduceCtorEq, if_false, ConnectPc.level, Option.getD_some,
        slept, ConnectPc.sets, raised]
      omega
  | pollAgain =>
      left
      have hround := @rounds_sleep _ _ _ _ sleepUs_pos (hpolls rfl rfl)
      have hwake' := hlater probeTimeout probeStartTime 0 (Int.le_refl 0)
      rw [Int.add_zero] at hwake'
      simp only [potential, ticket, hstart, hprobe, reduceCtorEq, if_false, ConnectPc.level, Option.getD_some,
        slept, ConnectPc.sets, raised]
      omega

end Round

structure Waits (r : State × Clock) : Prop where
  ordered : r.2.Ordered
  entered : r.1.context.stateEnterTime ≤ r.2.time
  level : ∀ st, r.1.thread.pc.level = some st → st ≤ r.1.context.currentState
  goesOn : r.1.thread.pc ≠ .retryForever
  fails : ∀ ret, r.1.thread.pc = .setError ret → ret ≤ 0
  returns : ∀ ret, r.1.thread.pc = .returned ret → ret ≤ 0

def Serves (r : State × Clock) (l : Label) : Prop := ∀ env, l = .thread env → Served r.1 env

section Steps

variable {s t : State} {env : Env} {r u : State × Clock} {l : Label}

theorem next_served (h : threads.next s (.thread env) = some t) (hs : Served s env) :
    value (connectStep env s.thread) s.context = some t.thread ∧ t.crashed = false ∧
      (s.thread.pc = .sendProbes → t.thread.pc = .setProbing) := by
  have hrunning := next_running h
  obtain ⟨t', hv, hsends⟩ := connectStep_returns hs
  cases next_moves h with
  | thread hr =>
      obtain ⟨a, ha, ht⟩ | ⟨hnone, -⟩ := hr.control
      · have hthread : t.thread = a := congrArg Process.thread ht
        have hcrashed : t.crashed = s.crashed := by rw [ht]
        have hsame : a = t' := Option.some.inj (ha.symm.trans hv)
        rw [hthread, hcrashed, hrunning]
        exact ⟨ha, rfl, hsame ▸ hsends⟩
      · exact absurd (hnone.symm.trans hv) (by simp)

variable {c : P2PRtpDemuxContext} {a b : ConnectPc}

theorem edge_setError {ret : Int} (h : ConnectEdge c a b) (hb : b = .setError ret) : ret ≤ 0 := by
  cases h with
  | dispatch => cases hs : c.currentState <;> rw [hs] at hb <;> cases hb
  | pollEmpty | noneAvailable | noneBest | noneSelected =>
      cases hb
      decide
  | requestFailed ret' hr =>
      cases hb
      exact Int.le_of_lt hr
  | _ => cases hb

theorem edge_returned {ret : Int} (h : ConnectEdge c a b) (hb : b = .returned ret) :
    ret ≤ 0 ∨ a = .setError ret := by
  cases h with
  | dispatch => cases hs : c.currentState <;> rw [hs] at hb <;> cases hb
  | streaming | timeout | failed =>
      cases hb
      exact Or.inl (by decide)
  | error ret' =>
      cases hb
      exact Or.inr rfl
  | _ => cases hb

theorem edge_retryForever (h : ConnectEdge c a b) (hb : b = .retryForever) :
    a = .sendProbes ∨ a = .retryForever := by
  cases h with
  | dispatch => cases hs : c.currentState <;> rw [hs] at hb <;> cases hb
  | noneSent => exact Or.inl rfl
  | retry => exact Or.inr rfl
  | _ => cases hb

theorem edge_waiting (h : ConnectEdge c a b) (hb : b.Waiting) : a.Waiting := by
  cases h with
  | returned | cleared | exited => exact hb
  | _ => trivial

theorem waits_initial (h : clocked.init r) : Waits r := by
  obtain ⟨⟨waitTimeout, hs⟩, hc⟩ := h
  obtain ⟨s, c⟩ := r
  simp only at hs hc
  subst hs hc
  refine ⟨⟨Int.le_refl _, Int.le_refl _⟩, Int.le_refl _, ?_, ?_, ?_, ?_⟩
  · exact fun st h => nomatch h
  · exact fun h => nomatch h
  · exact fun ret h => nomatch h
  · exact fun ret h => nomatch h

theorem clocked_thread (hn : clocked.next r l = some u) (hserves : Serves r l) :
    (isThread l = false ∧ u.1.thread = r.1.thread) ∨ ∃ env, l = .thread env ∧
      value (connectStep env r.1.thread) r.1.context = some u.1.thread ∧
      ConnectEdge r.1.context r.1.thread.pc u.1.thread.pc ∧
      (r.1.thread.pc = .sendProbes → u.1.thread.pc = .setProbing) := by
  obtain ⟨-, hnext, -⟩ := clocked_next hn
  cases l with
  | thread env =>
      obtain ⟨hv, -, hsends⟩ := next_served hnext (hserves env rfl)
      exact Or.inr ⟨env, rfl, hv, connectStep_edge hv, hsends⟩
  | _ =>
      obtain ⟨-, hthread⟩ | ⟨env, hl, -⟩ := next_thread hnext
      · exact Or.inl ⟨rfl, hthread⟩
      · cases hl

theorem waits_step (hn : clocked.next r l = some u) (hserves : Serves r l) (h : Waits r) : Waits u := by
  have hmoves := clocked_thread hn hserves
  obtain ⟨htime, hnext, hclock⟩ := clocked_next hn
  have hraised := next_le hnext
  have hordered : u.2.Ordered := by
    rw [hclock]
    exact h.ordered.after htime
  have hentered : u.1.context.stateEnterTime ≤ u.2.time := by
    rw [hclock]
    obtain hsame | hnow := (next_ticks hnext).entered
    · rw [hsame]
      exact le_trans h.entered (Clock.time_le_after htime)
    · rw [Clock.time_after hnow]
  obtain ⟨-, hthread⟩ | ⟨env, rfl, -, hedge, hsends⟩ := hmoves
  · refine ⟨hordered, hentered, ?_, ?_, ?_, ?_⟩
    · rw [hthread]
      exact fun st hst => le_trans (h.level st hst) hraised
    · rw [hthread]
      exact h.goesOn
    · rw [hthread]
      exact h.fails
    · rw [hthread]
      exact h.returns
  · refine ⟨hordered, hentered, fun st hst => ?_, fun hpc => ?_, fun ret => edge_setError hedge, fun ret hpc => ?_⟩
    · exact le_trans (level_of_edge hedge hst h.level) hraised
    · obtain hsending | hretry := edge_retryForever hedge hpc
      · rw [hsends hsending] at hpc
        cases hpc
      · exact h.goesOn hretry
    · obtain hret | hfails := edge_returned hedge hpc
      · exact hret
      · exact h.fails ret hfails

def Pending (r : State × Clock) : ℕ :=
  potential (r.1.context.waitTimeout * 1000000) r.1.thread r.1.context.currentState r.2

theorem pending_step (hn : clocked.next r l = some u) (hserves : Serves r l) (h : Waits r)
    (hwaiting : u.1.thread.pc.Waiting) :
    r.1.thread.pc.Waiting ∧ Pending u + (if isThread l then 1 else 0) ≤ Pending r := by
  have hmoves := clocked_thread hn hserves
  obtain ⟨htime, hnext, hclock⟩ := clocked_next hn
  have hlimit := (next_ticks hnext).waitTimeout
  unfold Pending
  rw [hlimit, hclock]
  obtain ⟨hother, hthread⟩ | ⟨env, rfl, hv, hedge, -⟩ := hmoves
  · rw [hthread] at hwaiting ⊢
    refine ⟨hwaiting, ?_⟩
    rw [hother]
    obtain ⟨hwake, hchecked⟩ := @Clock.after_other r.2 l r.1.thread.pc r.1.thread.pc hother
    exact potential_other _ _ (next_le hnext) hwake hchecked
  · refine ⟨edge_waiting hedge hwaiting, ?_⟩
    rw [next_currentState hnext]
    have hspent := potential_thread hv h.ordered (le_trans h.entered h.ordered.time) (onTime_thread htime).2
      h.level hwaiting
    exact hspent.resolve_right h.goesOn

end Steps

/-- The wait with a time limit, after the steps of a run: it has not taken more
steps than its budget, it returns 0 or an error, and it can always go on. -/
structure Returns (limit : Int) (ls : List Label) (r : State × Clock) : Prop where
  bounded : r.1.thread.pc.Waiting → ls.countP isThread ≤ budget limit
  result : ∀ ret, r.1.thread.pc = .returned ret → ret = 0 ∨ ret < 0
  goesOn : ∀ env, r.1.crashed = false → r.2.onTime (.thread env) = true → Served r.1 env →
    ∃ u, clocked.next r (.thread env) = some u ∧ u.1.crashed = false

theorem probing_wait_returns {r₀ r : State × Clock} {ls : List Label} (h₀ : clocked.init r₀)
    (hrun : (clocked.restrict Serves).Run r₀ ls r) :
    Returns (r₀.1.context.waitTimeout * 1000000) ls r := by
  obtain ⟨hwaits, hspent⟩ := System.Run.spent Waits (fun r => r.1.thread.pc.Waiting) Pending isThread
    (fun r l u hwaits hn => by
      obtain ⟨hserves, hnext⟩ := System.restrict_next.mp hn
      exact ⟨waits_step hnext hserves hwaits, pending_step hnext hserves hwaits⟩) hrun (waits_initial h₀)
  refine ⟨fun hwaiting => ?_, fun ret hpc => ?_, fun env hrunning htime hserved => ?_⟩
  · have hstart : Pending r₀ = budget (r₀.1.context.waitTimeout * 1000000) := by
      obtain ⟨⟨waitTimeout, hs⟩, -⟩ := h₀
      rw [Pending, hs]
      rfl
    rw [← hstart]
    exact le_trans (Nat.le_add_right _ _) (hspent hwaiting)
  · have hret := hwaits.returns ret hpc
    omega
  · obtain ⟨t, hnext⟩ : ∃ t, threads.next r.1 (.thread env) = some t := by
      unfold Threads.next
      rw [hrunning, if_neg Bool.false_ne_true]
      exact ⟨_, rfl⟩
    refine ⟨(t, r.2.after (.thread env) r.1.thread.pc t.thread.pc), ?_, (next_served hnext hserved).2.1⟩
    change (if r.2.onTime (.thread env) then (threads.next r.1 (.thread env)).map _ else none) = _
    rw [htime, if_pos rfl, hnext]
    rfl

section Examples

def served (r : State × Clock) : Label → Bool
  | .thread env =>
      match r.1.thread.pc with
      | .sendProbes => r.1.peer.peerConnectionNodeCaches.cells.any fun c =>
          c.2.status = .connected && env.allocProbeRequest c.1 && decide (0 ≤ env.sendProbeRequest c.1)
      | .storeStatus p => decide (p ∈ r.1.peer.peerConnectionNodeCaches.addrs)
      | .requestStream => r.1.peer.selectedNode.all fun p => decide (p ∈ r.1.peer.peerConnectionNodeCaches.addrs)
      | _ => true
  | _ => true

theorem served_iff {r : State × Clock} {l : Label} (h : served r l = true) : Serves r l := by
  rintro env rfl
  refine ⟨fun hpc => ?_, fun p hpc => ?_, fun hpc p hp => ?_⟩
  · simp only [served, hpc, List.any_eq_true, Bool.and_eq_true, decide_eq_true_eq] at h
    obtain ⟨⟨p, n⟩, hmem, ⟨hconnected, halloc⟩, hsend⟩ := h
    exact ⟨p, n, Linked.get?_eq_some_iff.mpr hmem, hconnected, halloc, hsend⟩
  · simp only [served, hpc, decide_eq_true_eq] at h
    exact h
  · simp only [served, hpc, hp, Option.all_some, decide_eq_true_eq] at h
    exact h

def neverStreams : List Label :=
  senderConnects "s" 1 0 ++ (nodeProbed 0).take 15 ++ List.replicate 17 (.thread (.succeeding 31000000 1)) ++
    List.replicate 2 (.thread (.succeeding 62000000 1))

theorem probing_wait_returns_timeout : ∃ (r : State × Clock) (ls : List Label),
    r.1.thread.pc = .returned averrorEtimedout ∧ Returns (60 * 1000000) ls r := by
  have hrun : ((clocked.guard served).run neverStreams (.initial 60, ⟨0, 0, 0⟩)).map
      (fun r => r.1.thread.pc) = some (.returned averrorEtimedout) := by decide +kernel
  obtain ⟨r, hr, hpc⟩ := Option.map_eq_some_iff.mp hrun
  exact ⟨r, neverStreams, hpc, probing_wait_returns ⟨⟨60, rfl⟩, rfl⟩ (.of_guard (fun _ _ => served_iff) hr)⟩

def sendsFail (now : Int) : Env := { Env.succeeding now 1 with sendProbeRequest := fun _ => -1 }

def retrying : List Label := senderConnects "s" 1 0 ++ List.replicate 7 (.thread (sendsFail 0))

theorem next_retry {r : State × Clock} (hrunning : r.1.crashed = false) (hpc : r.1.thread.pc = .retryForever) :
    ∃ env u, clocked.next r (.thread env) = some u ∧ u.1 = r.1 := by
  obtain ⟨env, htime⟩ : ∃ env, r.2.onTime (.thread env) = true :=
    ⟨sendsFail (max r.2.time r.2.wake), decide_eq_true ⟨le_max_left _ _, fun _ => le_max_right _ _⟩⟩
  have hstays : connectStep env r.1.thread r.1.context = .ok r.1.thread r.1.context := by
    rw [connectStep, hpc]
    rfl
  have hnext : threads.next r.1 (.thread env) = some r.1 := by
    unfold Threads.next
    rw [hrunning, if_neg Bool.false_ne_true]
    simp only [Process.exec, threads, value, after, EStateM.run, hstays]
  refine ⟨env, (r.1, r.2.after (.thread env) r.1.thread.pc r.1.thread.pc), ?_, rfl⟩
  change (if r.2.onTime (.thread env) then (threads.next r.1 (.thread env)).map _ else none) = _
  rw [htime, if_pos rfl, hnext]
  rfl

theorem retries_forever {r₀ r : State × Clock} {ls : List Label} (hrun : clocked.Run r₀ ls r)
    (hrunning : r.1.crashed = false) (hpc : r.1.thread.pc = .retryForever) (k : ℕ) :
    ∃ ls' u, clocked.Run r₀ ls' u ∧ u.1 = r.1 ∧ ls'.countP isThread = ls.countP isThread + k := by
  induction k with
  | zero => exact ⟨ls, r, hrun, rfl, rfl⟩
  | succ k ih =>
      obtain ⟨ls', u, hrun', hsame, hcount⟩ := ih
      obtain ⟨env, v, hv, hsame'⟩ := next_retry (hsame ▸ hrunning) (hsame ▸ hpc)
      refine ⟨ls' ++ [.thread env], v, hrun'.snoc hv, hsame'.trans hsame, ?_⟩
      rw [List.countP_append, hcount]
      rfl

/-- Where no request could be sent the wait neither sends again nor gives up. -/
theorem probing_wait_retries_forever : ¬ ∀ r₀, clocked.init r₀ → ∃ bound, ∀ r ls, clocked.Run r₀ ls r →
    r.1.thread.pc.Waiting → ls.countP isThread ≤ bound := by
  intro h
  have hrun : (clocked.run retrying (.initial 60, ⟨0, 0, 0⟩)).map
      (fun r => (r.1.crashed, r.1.thread.pc)) = some (false, .retryForever) := by decide +kernel
  obtain ⟨r, hr, hview⟩ := Option.map_eq_some_iff.mp hrun
  obtain ⟨hrunning, hpc⟩ := Prod.mk.inj hview
  obtain ⟨bound, hbound⟩ := h (.initial 60, ⟨0, 0, 0⟩) ⟨⟨60, rfl⟩, rfl⟩
  obtain ⟨ls, u, hrun', hsame, hcount⟩ := retries_forever (.of_run hr) hrunning hpc (bound + 1)
  have hwaiting : u.1.thread.pc.Waiting := by
    rw [hsame, hpc]
    trivial
  have hle := hbound u ls hrun' hwaiting
  omega

end Examples

end P2PFFmpeg.Receiver
