import P2PFFmpeg.Peer.ClockOffset
import P2PFFmpeg.Receiver.MetricsHistory

namespace P2PFFmpeg.Receiver

open Library Library.Program Library.Transition Library.Concurrent Library.Selection Message Peer

def offsetReceiver (offset : Ptr → Int) (ctx : P2PRtpDemuxContext) : P2PRtpDemuxContext :=
  { ctx with p2pContext := offsetContext offset ctx.p2pContext }

def State.offset (offset : Ptr → Int) (s : State) : State :=
  { s with context := offsetReceiver offset s.context }

/-- The step in the run whose senders have their clocks ahead by an offset. -/
def delay (offset : Ptr → Int) : Label → Label
  | .callback (.event event) => .callback (.event (event.delay offset))
  | l => l

def Unselecting (s : State) (l : Label) : Prop := ∀ env, l = .thread env → s.thread.pc ≠ .selectBest

variable (offset : Ptr → Int)

section Programs

theorem mirrors_onPeer {α : Type} {x y : PeerM α} {s : P2PRtpDemuxContext}
    (h : Mirrors (offsetContext offset) x y s.p2pContext) :
    Mirrors (offsetReceiver offset) (onPeer x) (onPeer y) s :=
  mirrors_zoom rfl (fun _ => rfl) h

theorem commutes_onPeer {α : Type} {x : PeerM α} (h : Commutes (offsetContext offset) x) :
    Commutes (offsetReceiver offset) (onPeer x) :=
  fun _ => mirrors_onPeer offset (h _)

theorem commutes_setReceiverState (now : Int) (st : ReceiverState) :
    Commutes (offsetReceiver offset) (modify (p2pSetReceiverState now st) : ReceiverM PUnit) := by
  apply commutes_modify
  intro s
  change (if s.currentState < st then _ else _) = offsetReceiver offset (if s.currentState < st then _ else _)
  split
  · rfl
  · rfl

theorem commutes_walk {α : Type} {body : Ptr → PeerConnectionNode → α → PeerM α}
    (h : ∀ p q n a, body p (offsetNode offset q n) a = body p n a)
    (hbody : ∀ p n a, Commutes (offsetContext offset) (body p n a)) (a : α) :
    Commutes (offsetReceiver offset) (onPeer (walk body a)) := by
  apply commutes_onPeer
  apply commutes_get_bind
  · intro s
    rw [addrs_offsetContext]
  · intro s
    exact commutes_walkNodes offset h hbody _ _

theorem commutes_receiverConnectRequest (env : Env) (senderId targetId : Option String) :
    Commutes (offsetContext offset) (receiverConnectRequest env senderId targetId) := by
  apply commutes_bind (commutes_findOrCreateNode offset _ _ _)
  intro found
  cases found with
  | error ret => exact commutes_pure _
  | ok node =>
      apply commutes_readNode_bind offset (fun _ _ => rfl)
      intro n
      exact commutes_bind (commutes_initPeerConnection offset _ _) (fun _ => commutes_pure _)

theorem commutes_receiverOffer (env : Env) (senderId description : Option String) :
    Commutes (offsetContext offset) (receiverOffer env senderId description) := by
  apply commutes_bind (commutes_findOrCreateNode offset _ _ _)
  intro found
  cases found with
  | error ret => exact commutes_pure _
  | ok node =>
      cases node with
      | none => exact commutes_pure _
      | some p =>
          cases description with
          | none => exact commutes_pure _
          | some sdp =>
              apply commutes_readNode_bind offset (fun _ _ => rfl)
              intro n
              apply commutes_bind (commutes_call offset _)
              intro _
              apply commutes_bind (commutes_initPeerConnection offset _ _)
              intro _
              exact commutes_bind (commutes_setLocalDescription offset _ _) (fun _ => commutes_pure _)

theorem commutes_receiverStreamReady (senderId : Option String) :
    Commutes (offsetContext offset) (receiverStreamReady senderId) := by
  apply commutes_get_bind
  · intro s
    simp only [find_offsetContext]
    rfl
  · intro s
    split
    · split
      · exact commutes_pure _
      · exact commutes_pure _
    · exact commutes_pure _

theorem commutes_receiverHead (env : Env) (msg : P2PSignalMessage) :
    Commutes (offsetContext offset) (receiverHead env msg) := by
  cases hb : msg.body with
  | roomJoined roomId role localId =>
      simp only [receiverHead, hb]
      exact commutes_bind (commutes_joinRoom offset _ _ _) (fun _ => commutes_pure _)
  | connectRequest targetId =>
      simp only [receiverHead, hb]
      exact commutes_receiverConnectRequest offset _ _ _
  | offer description =>
      simp only [receiverHead, hb]
      exact commutes_receiverOffer offset _ _ _
  | answer description =>
      simp only [receiverHead, hb]
      exact commutes_bind (commutes_handleAnswer offset _ _) (fun _ => commutes_pure _)
  | candidate candidate mid =>
      simp only [receiverHead, hb]
      exact commutes_bind (commutes_handleCandidate offset _ _ _) (fun _ => commutes_pure _)
  | streamReady streamId =>
      simp only [receiverHead, hb]
      exact commutes_receiverStreamReady offset _
  | _ =>
      simp only [receiverHead, hb]
      exact commutes_pure _

theorem commutes_runReceiverOp (env : Env) (op : ReceiverOp) :
    Commutes (offsetReceiver offset) (runReceiverOp env op) := by
  cases op with
  | setState st => exact commutes_setReceiverState offset _ _
  | sendDescription node role =>
      exact commutes_onPeer offset
        (commutes_bind (commutes_sendDescription offset _ _ _) (fun _ => commutes_pure _))

theorem commutes_onPcStateChangeCallback (env : Env) (node : Ptr) (state : RtcState) :
    Commutes (offsetContext offset) (onPcStateChangeCallback env node state) := by
  apply commutes_readNode_bind offset (fun _ _ => rfl)
  intro _
  apply commutes_bind (commutes_setStatus offset _ _)
  intro _
  split
  · exact commutes_bind (commutes_wipe offset node env.now) (fun _ => commutes_pure _)
  · exact commutes_pure _

theorem commutes_initProbe (env : Env) (curr : Ptr) (n : PeerConnectionNode) (k : Nat) :
    Commutes (offsetContext offset) (initProbe env curr n k) := by
  unfold initProbe
  split
  · exact commutes_bind (commutes_wipe offset curr env.now) (fun _ => commutes_pure _)
  · exact commutes_pure _

theorem commutes_sendProbe (env : Env) (curr : Ptr) (n : PeerConnectionNode) (k : Nat) :
    Commutes (offsetContext offset) (sendProbe env curr n k) := by
  unfold sendProbe
  split
  · apply commutes_bind (commutes_sendProbeRequestToPublisher offset _ _)
    intro ret
    split
    · exact commutes_pure _
    · exact commutes_pure _
  · exact commutes_pure _

theorem commutes_completeProbe (curr : Ptr) : Commutes (offsetContext offset) (completeProbe curr) := by
  apply commutes_setNetworkQuality
  exact fun _ => rfl

theorem commutes_forceComplete (curr : Ptr) (n : PeerConnectionNode) (u : Unit) :
    Commutes (offsetContext offset) (forceComplete curr n u) := by
  unfold forceComplete
  split
  · exact commutes_completeProbe offset curr
  · exact commutes_pure _

theorem commutes_pollNode (env : Env) (curr : Ptr) (n : PeerConnectionNode) (count : Nat × Nat) :
    Commutes (offsetContext offset) (pollNode env curr n count) := by
  unfold pollNode
  split
  · split
    · exact commutes_pure _
    · split
      · exact commutes_bind (commutes_completeProbe offset curr) (fun _ => commutes_pure _)
      · exact commutes_pure _
  · exact commutes_pure _

theorem commutes_countNode (curr : Ptr) (n : PeerConnectionNode) (k : Nat) :
    Commutes (offsetContext offset) (countNode curr n k) := by
  unfold countNode
  split
  · exact commutes_pure _
  · exact commutes_pure _

theorem commutes_connectStep (env : Env) (t : ConnectThread) (h : t.pc ≠ .selectBest) :
    Commutes (offsetReceiver offset) (connectStep env t) := by
  obtain ⟨pc, startTime, probeStartTime⟩ := t
  refine commutes_get_bind (fun _ => rfl) fun ctx => ?_
  cases pc with
  | setProbing | setProbeCompleted | setRequestingStream | setError =>
      exact commutes_bind (commutes_setReceiverState offset _ _) (fun _ => commutes_pure _)
  | initProbes =>
      refine commutes_bind (commutes_walk offset (fun _ _ _ _ => rfl) (commutes_initProbe offset env) _) ?_
      exact fun _ => commutes_pure _
  | sendProbes =>
      refine commutes_bind (commutes_walk offset (fun _ _ _ _ => rfl) (commutes_sendProbe offset env) _) ?_
      exact fun _ => commutes_pure _
  | poll =>
      simp only
      split
      · refine commutes_bind (commutes_walk offset (fun _ _ _ _ => rfl) (commutes_forceComplete offset) _) ?_
        exact fun _ => commutes_pure _
      · refine commutes_bind (commutes_walk offset (fun _ _ _ _ => rfl) (commutes_pollNode offset env) _) ?_
        exact fun _ => commutes_pure _
  | countAvailable =>
      refine commutes_bind (commutes_walk offset (fun _ _ _ _ => rfl) (commutes_countNode offset) _) ?_
      exact fun _ => commutes_pure _
  | selectBest => exact absurd rfl h
  | storeSelected p =>
      refine commutes_bind (commutes_onPeer offset (commutes_modify fun _ => rfl)) ?_
      exact fun _ => commutes_pure _
  | storeStatus p =>
      exact commutes_bind (commutes_onPeer offset (commutes_markSelected offset p)) (fun _ => commutes_pure _)
  | requestStream =>
      simp only
      split
      · exact commutes_pure _
      · refine commutes_bind (commutes_onPeer offset (commutes_sendStreamRequest offset _ _)) ?_
        exact fun _ => commutes_pure _
  | returned ret =>
      refine commutes_bind (commutes_doWhen _ ?_) (fun _ => commutes_pure _)
      exact commutes_modify fun _ => rfl
  | clearActive =>
      exact commutes_bind (commutes_modify fun _ => rfl) (fun _ => commutes_pure _)
  | _ => exact commutes_pure _

end Programs

section Runs

variable {s t : State} {l : Label}

theorem exec_offset {α : Type} {x y : ReceiverM α} {k : α → State → State}
    (h : Mirrors (offsetReceiver offset) x y s.context)
    (hk : ∀ a u, k a (State.offset offset u) = State.offset offset (k a u)) :
    (s.offset offset).exec y k = State.offset offset (s.exec x k) := by
  obtain ⟨hv, ha⟩ := h
  rw [Process.exec, Process.exec, show value y (s.offset offset).context = _ from hv,
    show after y (s.offset offset).context = _ from ha]
  cases value x s.context with
  | none => rfl
  | some a => exact hk a { s with context := after x s.context }

theorem mirrors_callback (callback : Callback) {c : P2PRtpDemuxContext}
    (h : ∀ p n, c.p2pContext.peerConnectionNodeCaches.get? p = some n → 0 ≤ n.networkQuality.rttCount) :
    ∃ callback', delay offset (.callback callback) = .callback callback' ∧
      Mirrors (offsetReceiver offset) callback.run callback'.run c := by
  cases callback with
  | joinRoom now =>
      refine ⟨_, rfl, ?_⟩
      exact commutes_bind (commutes_setReceiverState offset _ _) (fun _ => commutes_pure _) c
  | stateChange env node state =>
      exact ⟨_, rfl, mirrors_onPeer offset (commutes_onPcStateChangeCallback offset env node state _)⟩
  | event event =>
      refine ⟨.event (event.delay offset), rfl, ?_⟩
      exact mirrors_bind (mirrors_onPeer offset (mirrors_handle offset event h)) fun _ _ => ⟨rfl, rfl⟩

theorem next_offset (h : threads.next s l = some t) (hl : Unselecting s l)
    (hcount : ∀ p n, s.peer.peerConnectionNodeCaches.get? p = some n → 0 ≤ n.networkQuality.rttCount) :
    threads.next (s.offset offset) (delay offset l) = some (t.offset offset) := by
  have hrunning := next_running h
  have hrunning' : (s.offset offset).crashed = false := hrunning
  unfold Threads.next at h ⊢
  rw [hrunning, if_neg Bool.false_ne_true] at h
  rw [hrunning', if_neg Bool.false_ne_true]
  cases l with
  | message env msg =>
      have htodo' : (s.offset offset).todo = s.todo := rfl
      simp only [delay, htodo'] at h ⊢
      cases htodo : s.todo with
      | nil =>
          rw [htodo] at h
          cases h
          refine congrArg some (exec_offset offset ?_ fun _ _ => rfl)
          exact commutes_bind (commutes_onPeer offset (commutes_receiverHead offset env msg))
            (fun _ => commutes_pure _) _
      | cons op ops =>
          rw [htodo] at h
          cases h
  | handlerOp env =>
      have htodo' : (s.offset offset).todo = s.todo := rfl
      simp only [delay, htodo'] at h ⊢
      cases htodo : s.todo with
      | nil =>
          rw [htodo] at h
          cases h
      | cons op ops =>
          rw [htodo] at h
          cases h
          exact congrArg some (exec_offset offset (commutes_runReceiverOp offset env op _) fun _ _ => rfl)
  | callback event =>
      cases h
      obtain ⟨event', hdelay, hmirrors⟩ := mirrors_callback offset event hcount
      rw [hdelay]
      exact congrArg some (exec_offset offset hmirrors fun _ _ => rfl)
  | callbackOp env =>
      have hpool' : (s.offset offset).pool = s.pool := rfl
      simp only [delay, hpool'] at h ⊢
      cases hpool : s.pool with
      | nil =>
          rw [hpool] at h
          cases h
      | cons op ops =>
          rw [hpool] at h
          cases h
          exact congrArg some (exec_offset offset (commutes_runReceiverOp offset env op _) fun _ _ => rfl)
  | thread env =>
      cases h
      refine congrArg some (exec_offset offset ?_ fun _ _ => rfl)
      exact commutes_connectStep offset env s.thread (hl env rfl) _

theorem run_offset {s₀ : State} {r : State × List MetricsEvent} {ls : List Label} (h₀ : system.init s₀)
    (hrun : (recorded.restrict fun r => Unselecting r.1).Run (s₀, []) ls r) :
    system.Run s₀ (ls.map (delay offset)) (r.1.offset offset) := by
  induction hrun with
  | nil =>
      obtain ⟨waitTimeout, rfl⟩ := h₀
      exact .nil
  | @snoc ls r l u hr hn ih =>
      obtain ⟨hl, hnext⟩ := System.restrict_next.mp hn
      have hlogged := logged_reachable (s := r) ⟨_, ls, ⟨h₀, rfl⟩, hr.of_restrict⟩
      rw [List.map_append, List.map_singleton]
      refine ih.snoc (next_offset offset (System.observed_next.mp hnext).1 hl fun p n hn => ?_)
      rw [(hlogged.nodes p n hn).count]
      exact Int.natCast_nonneg _

end Runs

structure SameTimes (data data' : NetworkQualityMetrics) : Prop where
  rttSum : data'.rttSum = data.rttSum
  minRtt : data'.minRtt = data.minRtt
  maxRtt : data'.maxRtt = data.maxRtt
  score : calculateNodeScore data' = calculateNodeScore data

/-- Every node has the same measured times and the same score in two contexts,
and the same node is chosen. -/
structure SameChoice (c d : P2PContext) : Prop where
  linked : d.peerConnectionNodeCaches.addrs = c.peerConnectionNodeCaches.addrs
  times : ∀ p n m, c.peerConnectionNodeCaches.get? p = some n → d.peerConnectionNodeCaches.get? p = some m →
    SameTimes n.networkQuality m.networkQuality
  best : value selectBestNode d = value selectBestNode c

theorem offset_rttSum_iff (data : NetworkQualityMetrics) (o : Int) :
    (offsetMetrics o data).rttSum = data.rttSum ↔ o = 0 ∨ data.rttCount = 0 := by
  rw [offsetMetrics, sub_eq_self, mul_eq_zero, div_eq_zero_iff, Int.cast_eq_zero, Int.cast_eq_zero]
  have hthousand : (1000 : ℚ) ≠ 0 := by decide
  rw [or_iff_left hthousand, or_comm]

theorem sameChoice_offset_iff (c : P2PContext) : SameChoice c (offsetContext offset c) ↔
    ∀ p n, c.peerConnectionNodeCaches.get? p = some n →
      offset p = 0 ∨ n.networkQuality.rttCount = 0 := by
  constructor
  · intro h p n hn
    have hm : (offsetContext offset c).peerConnectionNodeCaches.get? p = some (offsetNode offset p n) := by
      rw [get_offsetContext, hn]
      rfl
    exact (offset_rttSum_iff _ _).mp (h.times p n _ hn hm).rttSum
  · intro h
    have hsame : ∀ p, (offsetContext offset c).peerConnectionNodeCaches.get? p =
        c.peerConnectionNodeCaches.get? p := by
      intro p
      rw [get_offsetContext]
      cases hn : c.peerConnectionNodeCaches.get? p with
      | none => rfl
      | some n =>
          have hdata : offsetMetrics (offset p) n.networkQuality = n.networkQuality := by
            obtain hzero | hzero := h p n hn
            · rw [hzero, offsetMetrics_zero]
            · exact offsetMetrics_of_count _ hzero
          rw [Option.map_some, offsetNode, setNetworkQuality, hdata]
    have hscore : nodeScore (offsetContext offset c).peerConnectionNodeCaches =
        nodeScore c.peerConnectionNodeCaches := by
      funext p
      rw [nodeScore, nodeScore, hsame]
    refine ⟨addrs_offsetContext c, fun p n m hn hm => ?_, ?_⟩
    · rw [hsame, hn] at hm
      cases hm
      exact ⟨rfl, rfl, rfl, rfl⟩
    · rw [selectBestNode_pick, selectBestNode_pick, hscore, addrs_offsetContext]

/-- The clocks of the senders do not matter if and only if those that are off
belong to nodes without an accepted packet. -/
theorem clock_offset_unnoticed_iff {s₀ : State} {r : State × List MetricsEvent} {ls : List Label}
    (h₀ : system.init s₀) (hrun : (recorded.restrict fun r => Unselecting r.1).Run (s₀, []) ls r) :
    ∃ t, system.Run s₀ (ls.map (delay offset)) t ∧ (SameChoice r.1.peer t.peer ↔
      ∀ p ∈ r.1.peer.peerConnectionNodeCaches.addrs, offset p = 0 ∨ (nodeLog p r.2).accepted = 0) := by
  refine ⟨_, run_offset offset h₀ hrun, (sameChoice_offset_iff offset r.1.peer).trans ?_⟩
  have hlogged := logged_reachable (s := r) ⟨_, ls, ⟨h₀, rfl⟩, hrun.of_restrict⟩
  constructor
  · intro h p hp
    obtain ⟨n, hn⟩ := Linked.mem_addrs_iff.mp hp
    refine (h p n hn).imp_right fun hzero => ?_
    rw [(hlogged.nodes p n hn).count] at hzero
    exact Int.natCast_eq_zero.mp hzero
  · intro h p n hn
    refine (h p (Linked.mem_addrs_iff.mpr ⟨n, hn⟩)).imp_right fun hzero => ?_
    rw [(hlogged.nodes p n hn).count, hzero]
    rfl

section Examples

def unselecting (r : State × List MetricsEvent) : Label → Bool
  | .thread _ => r.1.thread.pc != .selectBest
  | _ => true

theorem unselecting_iff {r : State × List MetricsEvent} {l : Label} (h : unselecting r l = true) :
    Unselecting r.1 l := by
  rintro env rfl
  exact bne_iff_ne.mp h

/-- A clock that is off before the first packet. -/
theorem clock_offset_unnoticed_first : ∃ (r : State × List MetricsEvent) (t : State),
    r.1.peer.peerConnectionNodeCaches.addrs = [0] ∧
    system.Run (.initial 60) ((senderConnects "s" 1 0).map (delay fun _ => 7)) t ∧
      SameChoice r.1.peer t.peer := by
  have hrun : ((recorded.guard unselecting).run (senderConnects "s" 1 0) (.initial 60, [])).map
      (fun r => (r.1.peer.peerConnectionNodeCaches.addrs, nodeLog 0 r.2)) = some ([0], ⟨none, true, 0⟩) := by
    decide +kernel
  obtain ⟨r, hr, hview⟩ := Option.map_eq_some_iff.mp hrun
  obtain ⟨haddrs, hlog⟩ := Prod.mk.inj hview
  obtain ⟨t, ht, hsame⟩ := clock_offset_unnoticed_iff (fun _ => 7) ⟨60, rfl⟩
    (.of_guard (fun _ _ => unselecting_iff) hr)
  refine ⟨r, t, haddrs, ht, hsame.mpr fun p hp => .inr ?_⟩
  rw [haddrs, List.mem_singleton] at hp
  rw [hp, hlog]

def twoProbed : List Label :=
  senderConnects "s" 1 0 ++ senderConnects "r" 2 1 ++ List.replicate 14 (.thread (.succeeding 0 1)) ++
    [.callback (.event (.probeChannelMessage 0 ⟨0, 0, 32, .slowStart, 0⟩ 32 0 1000)),
      .callback (.event (.probeChannelMessage 1 ⟨0, 500, 32, .slowStart, 0⟩ 32 0 1000))]

/-- The clock of the second sender is one second behind: the first is chosen. -/
theorem clock_offset_noticed : ¬ ∀ (offset : Ptr → Int) (s₀ : State) (r : State × List MetricsEvent)
    (ls : List Label), system.init s₀ → (recorded.restrict fun r => Unselecting r.1).Run (s₀, []) ls r →
    ∃ t, system.Run s₀ (ls.map (delay offset)) t ∧ SameChoice r.1.peer t.peer := by
  intro h
  have hrun : ((recorded.guard unselecting).run twoProbed (.initial 60, [])).map
      (fun r => value selectBestNode r.1.peer) = some (some (some 1)) := by
    decide +kernel
  have hrun' : (system.run (twoProbed.map (delay fun p => if p = 1 then -1000000 else 0)) (.initial 60)).map
      (fun t => value selectBestNode t.peer) = some (some (some 0)) := by
    decide +kernel
  obtain ⟨r, hr, hbest⟩ := Option.map_eq_some_iff.mp hrun
  obtain ⟨t, ht, hsame⟩ := h (fun p => if p = 1 then -1000000 else 0) (.initial 60) r twoProbed ⟨60, rfl⟩
    (.of_guard (fun _ _ => unselecting_iff) hr)
  rw [ht.run_eq, Option.map_some, hsame.best, hbest] at hrun'
  cases hrun'

end Examples

end P2PFFmpeg.Receiver
