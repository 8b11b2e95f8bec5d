import P2PFFmpeg.Peer.ProbeLoss
import P2PFFmpeg.Receiver.BestNode
import P2PFFmpeg.Receiver.Retaining

namespace P2PFFmpeg.Receiver

open Library Library.Program Library.Transition Library.Concurrent Message Peer

inductive MetricsEvent
  | reported (node : Ptr) (state : RtcIceState)
  | wiped (node : Ptr)
  | accepted (node : Ptr)
  deriving DecidableEq

def MetricsEvent.node : MetricsEvent → Ptr
  | .reported node _ => node
  | .wiped node => node
  | .accepted node => node

def Callback.metricsEvents : Callback → List MetricsEvent
  | .stateChange _ node .connected => [.wiped node]
  | .event (.iceStateChange node state) => [.reported node state]
  | .event (.probeChannelMessage node header size crc now) =>
      if (ProbeArrival.mk header size crc now).Valid then [.accepted node] else []
  | _ => []

def connectedNodes (nodes : Linked PeerConnectionNode) : List Ptr :=
  nodes.addrs.filter fun p => (nodes.get? p).any fun n => n.status = .connected

def linkedEvents (nodes : Linked PeerConnectionNode) (events : List MetricsEvent) : List MetricsEvent :=
  events.filter fun e => (nodes.get? e.node).isSome

def metricsEvents (s : State) : Label → List MetricsEvent
  | .callback callback => linkedEvents s.peer.peerConnectionNodeCaches callback.metricsEvents
  | .thread _ =>
      if s.thread.pc = .initProbes then (connectedNodes s.peer.peerConnectionNodeCaches).map .wiped else []
  | _ => []

def recorded : System (State × List MetricsEvent) Label := system.observed metricsEvents

structure NodeLog where
  report : Option RtcIceState
  wiped : Bool
  accepted : ℕ
  deriving DecidableEq

def NodeLog.start : NodeLog := ⟨none, false, 0⟩

def NodeLog.note (p : Ptr) (log : NodeLog) : MetricsEvent → NodeLog
  | .reported q state => if q = p then { log with report := some state, wiped := false } else log
  | .wiped q => if q = p then { log with wiped := true, accepted := 0 } else log
  | .accepted q => if q = p then { log with accepted := log.accepted + 1 } else log

def nodeLog (p : Ptr) (history : List MetricsEvent) : NodeLog := history.foldl (NodeLog.note p) .start

def NodeLog.iceScore (log : NodeLog) : Int :=
  if log.wiped then -1 else (log.report.map Peer.iceScore).getD 0

structure NodeLog.Matches (log : NodeLog) (data : NetworkQualityMetrics) : Prop where
  ice : data.iceConnectivityScore = log.iceScore
  count : data.rttCount = log.accepted

section Log

variable {p : Ptr} {history events : List MetricsEvent} {e : MetricsEvent} {log : NodeLog}

theorem note_other (h : e.node ≠ p) : log.note p e = log := by
  cases e with
  | reported q state => exact if_neg h
  | wiped q => exact if_neg h
  | accepted q => exact if_neg h

theorem note_reported (state : RtcIceState) :
    log.note p (.reported p state) = { log with report := some state, wiped := false } := if_pos rfl

theorem note_wiped : log.note p (.wiped p) = { log with wiped := true, accepted := 0 } := if_pos rfl

theorem note_accepted : log.note p (.accepted p) = { log with accepted := log.accepted + 1 } := if_pos rfl

theorem foldl_note_other (h : ∀ e ∈ events, e.node ≠ p) : events.foldl (NodeLog.note p) log = log := by
  induction events with
  | nil => rfl
  | cons e events ih =>
      rw [List.foldl_cons, note_other (h e (List.mem_cons_self ..))]
      exact ih fun e he => h e (List.mem_cons_of_mem _ he)

theorem nodeLog_append_other (h : ∀ e ∈ events, e.node ≠ p) :
    nodeLog p (history ++ events) = nodeLog p history := by
  rw [nodeLog, List.foldl_append]
  exact foldl_note_other h

theorem nodeLog_start (h : ∀ e ∈ history, e.node ≠ p) : nodeLog p history = .start := foldl_note_other h

theorem nodeLog_snoc : nodeLog p (history ++ [e]) = (nodeLog p history).note p e := by
  rw [nodeLog, List.foldl_append]
  rfl

theorem foldl_note_wiped {ps : List Ptr} (h : p ∈ ps) :
    (ps.map MetricsEvent.wiped).foldl (NodeLog.note p) log = { log with wiped := true, accepted := 0 } := by
  induction ps generalizing log with
  | nil => exact absurd h List.not_mem_nil
  | cons q ps ih =>
      rw [List.map_cons, List.foldl_cons]
      by_cases hp : p ∈ ps
      · rw [ih hp]
        by_cases hq : q = p
        · rw [NodeLog.note, if_pos hq]
        · rw [NodeLog.note, if_neg hq]
      · obtain rfl := (List.mem_cons.mp h).resolve_right hp
        rw [note_wiped]
        apply foldl_note_other
        intro e he
        obtain ⟨q, hq, rfl⟩ := List.mem_map.mp he
        rintro rfl
        exact hp hq

theorem nodeLog_wiped {ps : List Ptr} (h : p ∈ ps) : nodeLog p (history ++ ps.map .wiped) =
    { nodeLog p history with wiped := true, accepted := 0 } := by
  rw [nodeLog, List.foldl_append]
  exact foldl_note_wiped h

theorem matches_start : NodeLog.start.Matches .zero := ⟨rfl, rfl⟩

theorem matches_wiped (now : Int) : ({ log with wiped := true, accepted := 0 } : NodeLog).Matches
    (probeDataInit now) := ⟨rfl, rfl⟩

theorem matches_reported {data : NetworkQualityMetrics} (h : log.Matches data) (state : RtcIceState) :
    ({ log with report := some state, wiped := false } : NodeLog).Matches
      { data with iceConnectivityScore := Peer.iceScore state } := ⟨rfl, h.count⟩

theorem matches_accepted {data : NetworkQualityMetrics} (h : log.Matches data)
    (header : ProbePacketHeader) (now : Int) :
    ({ log with accepted := log.accepted + 1 } : NodeLog).Matches (recordProbePacket header now data) :=
  ⟨h.ice, by rw [recordProbePacket, h.count]; rfl⟩

end Log

structure Logged (history : List MetricsEvent) (c : P2PContext) : Prop where
  below : ∀ e ∈ history, e.node < c.peerConnectionNodeCaches.fresh
  nodes : EveryNode (fun p n => (nodeLog p history).Matches n.networkQuality) c

def Unnoted (f : NetworkQualityMetrics → NetworkQualityMetrics) : Prop :=
  ∀ data, (f data).iceConnectivityScore = data.iceConnectivityScore ∧ (f data).rttCount = data.rttCount

section Linked

variable {nodes : Linked PeerConnectionNode} {e : MetricsEvent}

theorem linkedEvents_linked {n : PeerConnectionNode} (h : nodes.get? e.node = some n) :
    linkedEvents nodes [e] = [e] := by
  rw [linkedEvents, List.filter_cons_of_pos (by rw [h]; rfl), List.filter_nil]

theorem linkedEvents_unlinked (h : nodes.get? e.node = none) : linkedEvents nodes [e] = [] := by
  rw [linkedEvents, List.filter_cons_of_neg (by rw [h]; exact Bool.false_ne_true), List.filter_nil]

end Linked

section Keeping

variable {history : List MetricsEvent} {c d : P2PContext}

theorem tolerates_unnoted (history : List MetricsEvent) {bound : Ptr} (h : ∀ e ∈ history, e.node < bound)
    (free : Ptr → Prop) :
    Tolerates (fun p n => free p ∨ (nodeLog p history).Matches n.networkQuality) bound (fun _ => True)
      (fun p f => free p ∨ Unnoted f) where
  born := by
    intro p id pcId hp
    right
    rw [nodeLog_start fun e he => Nat.ne_of_lt (Nat.lt_of_lt_of_le (h e he) hp)]
    exact matches_start
  status := fun _ _ _ h => h
  link := fun _ _ _ _ h => h
  unlink := fun _ _ _ h => h
  media := by
    intro p n kind t h
    cases kind <;> exact h
  probe := fun _ _ _ h => h
  quality := by
    rintro p n f (hfree | hf) (hp | hn)
    · exact Or.inl hfree
    · exact Or.inl hfree
    · exact Or.inl hp
    · exact Or.inr ⟨(hf _).1.trans hn.ice, (hf _).2.trans hn.count⟩

theorem logged_of_retains (hl : Logged history c)
    (hr : Retains (fun p n => False ∨ (nodeLog p history).Matches n.networkQuality)
      c.peerConnectionNodeCaches.fresh c d) : Logged history d where
  below := fun e he => Nat.lt_of_lt_of_le (hl.below e he) hr.fresh
  nodes := fun p n hn =>
    (hr.nodes (Nat.le_refl _) (fun p n hn => Or.inr (hl.nodes p n hn)) p n hn).resolve_left id

theorem logged_of_event {e : MetricsEvent} (hl : Logged history c)
    (hr : Retains (fun p n => p = e.node ∨ (nodeLog p history).Matches n.networkQuality)
      c.peerConnectionNodeCaches.fresh c d)
    {k : PeerConnectionNode} (hk : c.peerConnectionNodeCaches.get? e.node = some k)
    (he : ∀ n, d.peerConnectionNodeCaches.get? e.node = some n →
      ((nodeLog e.node history).note e.node e).Matches n.networkQuality) : Logged (history ++ [e]) d where
  below := by
    have hnode := Linked.lt_fresh (Linked.mem_addrs_iff.mpr ⟨k, hk⟩)
    intro e' he'
    obtain he' | he' := List.mem_append.mp he'
    · exact Nat.lt_of_lt_of_le (hl.below e' he') hr.fresh
    · rw [List.mem_singleton.mp he']
      exact Nat.lt_of_lt_of_le hnode hr.fresh
  nodes := by
    intro p n hn
    by_cases hp : p = e.node
    · subst hp
      rw [nodeLog_snoc]
      exact he n hn
    · have hother : ∀ e' ∈ [e], e'.node ≠ p := by
        intro e' he' h
        rw [List.mem_singleton.mp he'] at h
        exact hp h.symm
      rw [nodeLog_append_other hother]
      have hevery := hr.nodes (Nat.le_refl _) fun p n hn => Or.inr (hl.nodes p n hn)
      exact (hevery p n hn).resolve_left hp

theorem logged_of_get (hl : Logged history c)
    (hfresh : d.peerConnectionNodeCaches.fresh = c.peerConnectionNodeCaches.fresh)
    (hget : ∀ p, d.peerConnectionNodeCaches.get? p = c.peerConnectionNodeCaches.get? p) :
    Logged history d where
  below := by
    rw [hfresh]
    exact hl.below
  nodes := fun p n hn => hl.nodes p n ((hget p).symm.trans hn)

end Keeping

section InitProbes

variable {env : Env} {c : P2PContext}

def initialised (env : Env) (n : PeerConnectionNode) : PeerConnectionNode :=
  if n.status = .connected then setNetworkQuality (fun _ => probeDataInit env.now) n else n

theorem initialised_status (n : PeerConnectionNode) : (initialised env n).status = n.status := by
  rw [initialised]
  split
  · rfl
  · rfl

theorem initialised_twice (n : PeerConnectionNode) :
    initialised env (initialised env n) = initialised env n := by
  by_cases hn : n.status = .connected
  · rw [initialised, initialised_status, if_pos hn, initialised, if_pos hn]
    rfl
  · rw [initialised, initialised_status, if_neg hn]

theorem initProbe_round {curr : Ptr} {n : PeerConnectionNode} (k : Nat)
    (hn : c.peerConnectionNodeCaches.get? curr = some n) : ∃ j, value (initProbe env curr n k) c = some j ∧
      (after (initProbe env curr n k) c).peerConnectionNodeCaches.addrs = c.peerConnectionNodeCaches.addrs ∧
      (after (initProbe env curr n k) c).peerConnectionNodeCaches.fresh = c.peerConnectionNodeCaches.fresh ∧
      ∀ q, (after (initProbe env curr n k) c).peerConnectionNodeCaches.get? q =
        if q = curr then some (initialised env n) else c.peerConnectionNodeCaches.get? q := by
  rw [initProbe, initialised]
  by_cases hconnected : n.status = .connected
  · rw [if_pos hconnected, if_pos hconnected]
    refine ⟨k + 1, rfl, Linked.addrs_modify _ _ _, rfl, fun q => ?_⟩
    change (c.peerConnectionNodeCaches.modify curr _).get? q = _
    rw [Linked.get?_modify]
    by_cases hq : q = curr
    · rw [if_pos hq, if_pos hq, hq, hn]
      rfl
    · rw [if_neg hq, if_neg hq]
  · rw [if_neg hconnected, if_neg hconnected]
    refine ⟨k, rfl, rfl, rfl, fun q => ?_⟩
    by_cases hq : q = curr
    · rw [if_pos hq, hq, after_pure, hn]
    · rw [if_neg hq, after_pure]

theorem initProbes_walk (env : Env) (c : P2PContext) : ∃ k, value (walk (initProbe env) 0) c = some k ∧
      (after (walk (initProbe env) 0) c).peerConnectionNodeCaches.fresh = c.peerConnectionNodeCaches.fresh ∧
      ∀ q, (after (walk (initProbe env) 0) c).peerConnectionNodeCaches.get? q =
        (c.peerConnectionNodeCaches.get? q).map (initialised env) := by
  rw [walk, value_get_bind, after_get_bind]
  obtain ⟨k, hk, haddrs, hfresh, hdone, -⟩ := @walkNodes_returns Nat (initProbe env) (fun done s _ =>
      s.peerConnectionNodeCaches.addrs = c.peerConnectionNodeCaches.addrs ∧
      s.peerConnectionNodeCaches.fresh = c.peerConnectionNodeCaches.fresh ∧
      (∀ q ∈ done, s.peerConnectionNodeCaches.get? q =
        (c.peerConnectionNodeCaches.get? q).map (initialised env)) ∧
      ∀ q, q ∉ done → s.peerConnectionNodeCaches.get? q = c.peerConnectionNodeCaches.get? q)
    c.peerConnectionNodeCaches.addrs (by
      rintro done p k s hp ⟨haddrs, hfresh, hdone, hrest⟩
      obtain ⟨n, hn⟩ := Linked.mem_addrs_iff.mp (haddrs ▸ hp)
      obtain ⟨j, hv, haddrs', hfresh', hget⟩ := @initProbe_round env s p n k hn
      refine ⟨n, j, hn, hv, haddrs'.trans haddrs, hfresh'.trans hfresh, fun q hq => ?_, fun q hq => ?_⟩
      · rw [hget]
        by_cases hpd : q ∈ done
        · by_cases hqp : q = p
          · subst hqp
            rw [hdone q hpd] at hn
            obtain ⟨m, hm, rfl⟩ := Option.map_eq_some_iff.mp hn
            rw [if_pos rfl, initialised_twice, hm]
            rfl
          · rw [if_neg hqp, hdone q hpd]
        · obtain rfl := List.mem_singleton.mp ((List.mem_append.mp hq).resolve_left hpd)
          rw [hrest q hpd] at hn
          rw [if_pos rfl, hn]
          rfl
      · rw [List.mem_append, List.mem_singleton, not_or] at hq
        rw [hget, if_neg hq.2, hrest q hq.1]) [] 0 c ⟨rfl, rfl, by simp, fun _ _ => rfl⟩
  refine ⟨k, hk, hfresh, fun q => ?_⟩
  by_cases hq : q ∈ c.peerConnectionNodeCaches.addrs
  · exact hdone q hq
  · have hnone := Linked.get?_eq_none_iff.mpr hq
    have hsame : (after (walkNodes (initProbe env) c.peerConnectionNodeCaches.addrs 0) c).peerConnectionNodeCaches.get? q
        = none := by
      rw [Linked.get?_eq_none_iff, haddrs]
      exact hq
    rw [hsame, hnone]
    rfl

theorem mem_connectedNodes {nodes : Linked PeerConnectionNode} {p : Ptr} :
    p ∈ connectedNodes nodes ↔ ∃ n, nodes.get? p = some n ∧ n.status = .connected := by
  simp only [connectedNodes, List.mem_filter, Linked.mem_addrs_iff, Option.any_eq_true, decide_eq_true_eq]
  constructor
  · rintro ⟨-, n, hn, hstatus⟩
    exact ⟨n, hn, hstatus⟩
  · rintro ⟨n, hn, hstatus⟩
    exact ⟨⟨n, hn⟩, n, hn, hstatus⟩

theorem logged_initProbes {history : List MetricsEvent} (env : Env) (hl : Logged history c) :
    Logged (history ++ (connectedNodes c.peerConnectionNodeCaches).map .wiped)
      (after (walk (initProbe env) 0) c) := by
  obtain ⟨k, -, hfresh, hget⟩ := initProbes_walk env c
  constructor
  · intro e he
    rw [hfresh]
    obtain he | he := List.mem_append.mp he
    · exact hl.below e he
    · obtain ⟨p, hp, rfl⟩ := List.mem_map.mp he
      obtain ⟨n, hn, -⟩ := mem_connectedNodes.mp hp
      exact Linked.lt_fresh (Linked.mem_addrs_iff.mpr ⟨n, hn⟩)
  · intro p m hm
    rw [hget] at hm
    obtain ⟨n, hn, rfl⟩ := Option.map_eq_some_iff.mp hm
    by_cases hconnected : n.status = .connected
    · rw [nodeLog_wiped (mem_connectedNodes.mpr ⟨n, hn, hconnected⟩), initialised, if_pos hconnected]
      exact matches_wiped env.now
    · rw [nodeLog_append_other, initialised, if_neg hconnected]
      · exact hl.nodes p n hn
      · rintro e he rfl
        obtain ⟨q, hq, rfl⟩ := List.mem_map.mp he
        obtain ⟨n', hn', hstatus⟩ := mem_connectedNodes.mp hq
        rw [MetricsEvent.node, hn'] at hn
        cases hn
        exact hconnected hstatus

end InitProbes

section Steps

variable {history : List MetricsEvent} {c : P2PContext}

theorem logged_stateChange (env : Env) (node : Ptr) (state : RtcState) (hl : Logged history c) :
    Logged (history ++ linkedEvents c.peerConnectionNodeCaches
      (Callback.stateChange env node state).metricsEvents) (after (onPcStateChangeCallback env node state) c) := by
  by_cases hstate : state = .connected
  · subst hstate
    cases hn : c.peerConnectionNodeCaches.get? node with
    | none =>
        rw [Callback.metricsEvents, linkedEvents_unlinked hn, List.append_nil, onPcStateChangeCallback,
          after_bind, readNode_none hn, readNode_after]
        exact hl
    | some n =>
        rw [Callback.metricsEvents, linkedEvents_linked hn]
        refine logged_of_event hl ?_ hn ?_
        · exact retains_onPcStateChangeCallback (tolerates_unnoted history hl.below (· = node)) env node
            .connected (fun _ => Or.inl rfl) c
        · intro m hm
          have hturns : Turns (nodeAt node) n (onPcStateChangeCallback env node .connected)
              [.setState .datachannelReady]
              (setNetworkQuality (fun _ => probeDataInit env.now) (setStatus .connected n)) :=
            turns_bind turns_readNode (turns_bind (turns_modifyNode _)
              (turns_bind (turns_modifyNode _) (turns_pure _)))
          obtain rfl := Option.some.inj (hm.symm.trans (hturns c hn).2)
          change ((nodeLog node history).note node (.wiped node)).Matches _
          rw [note_wiped]
          exact matches_wiped env.now
  · have hnone : (Callback.stateChange env node state).metricsEvents = [] := by
      cases state with
      | connected => exact absurd rfl hstate
      | _ => rfl
    rw [hnone, linkedEvents, List.filter_nil, List.append_nil]
    refine logged_of_retains hl ?_
    exact retains_onPcStateChangeCallback (tolerates_unnoted history hl.below fun _ => False) env node
      state (fun h => absurd h hstate) c

theorem logged_iceStateChange (node : Ptr) (state : RtcIceState) (hl : Logged history c) :
    Logged (history ++ linkedEvents c.peerConnectionNodeCaches
      (Callback.event (.iceStateChange node state)).metricsEvents)
      (after (onPcIceStateChangeCallback node state) c) := by
  cases hn : c.peerConnectionNodeCaches.get? node with
  | none =>
      rw [Callback.metricsEvents, linkedEvents_unlinked hn, List.append_nil]
      refine logged_of_get hl rfl fun p => ?_
      refine (Linked.get?_modify _ _ _ _).trans ?_
      by_cases hp : p = node
      · rw [if_pos hp, hp, hn]
        rfl
      · rw [if_neg hp]
  | some n =>
      rw [Callback.metricsEvents, linkedEvents_linked hn]
      refine logged_of_event hl ?_ hn ?_
      · exact retains_setNetworkQuality (tolerates_unnoted history hl.below (· = node)) (Or.inl rfl) c
      · intro m hm
        have hturns : Turns (nodeAt node) n (onPcIceStateChangeCallback node state) () _ := turns_modifyNode _
        obtain rfl := Option.some.inj (hm.symm.trans (hturns c hn).2)
        change ((nodeLog node history).note node (.reported node state)).Matches _
        rw [note_reported]
        exact matches_reported (hl.nodes node n hn) state

theorem after_handle_rejected {node : Ptr} {a : ProbeArrival} (h : ¬ a.Valid) :
    after (a.handle node) c = c := by
  rw [ProbeArrival.handle, handleProbePacket, after_bind, readNode_after]
  cases value (readNode (some node)) c with
  | none => rfl
  | some n =>
      simp only
      split
      · rfl
      · next hshort =>
          split
          · rfl
          · next hsize =>
              split
              · rfl
              · next hlong =>
                  split
                  · rfl
                  · next hcrc =>
                      rw [not_not] at hsize hcrc
                      rw [hsize, UInt32.not_lt] at hshort
                      exact absurd ⟨hsize, hshort, UInt32.not_lt.mp hlong, hcrc⟩ h

theorem logged_probeChannelMessage (node : Ptr) (a : ProbeArrival) (hl : Logged history c) :
    Logged (history ++ linkedEvents c.peerConnectionNodeCaches
      (Callback.event (.probeChannelMessage node a.header a.size a.crc a.now)).metricsEvents)
      (after (a.handle node) c) := by
  rw [Callback.metricsEvents]
  by_cases ha : a.Valid
  · rw [if_pos ha]
    cases hn : c.peerConnectionNodeCaches.get? node with
    | none =>
        rw [linkedEvents_unlinked hn, List.append_nil, ProbeArrival.handle, handleProbePacket, after_bind, readNode_none hn, readNode_after]
        exact hl
    | some n =>
        rw [linkedEvents_linked hn]
        refine logged_of_event hl ?_ hn ?_
        · exact retains_handleProbePacket (tolerates_unnoted history hl.below (· = node)) _ _ (Or.inl rfl) c
        · intro m hm
          obtain rfl := Option.some.inj (hm.symm.trans (turns_handle ha c hn).2)
          change ((nodeLog node history).note node (.accepted node)).Matches _
          rw [note_accepted]
          exact matches_accepted (hl.nodes node n hn) a.header a.now
  · rw [if_neg ha, linkedEvents, List.filter_nil, List.append_nil, after_handle_rejected ha]
    exact hl

variable {s t : State} {l : Label}

theorem logged_quiet (h : threads.next s l = some t) (hnone : metricsEvents s l = [])
    (hm : ∀ p f, Measures s l p f → Unnoted f) (hl : Logged history s.peer) :
    Logged (history ++ metricsEvents s l) t.peer := by
  rw [hnone, List.append_nil]
  refine logged_of_retains hl (next_retains (tolerates_unnoted history hl.below fun _ => False) h ?_)
  exact fun p f hf => Or.inr (hm p f hf)

theorem unnoted_of_connect {env : Env} {pc : ConnectPc} {f : NetworkQualityMetrics → NetworkQualityMetrics}
    (h : pc.Measures env f) (hpc : pc ≠ .initProbes) : Unnoted f := by
  cases h with
  | wipe => exact absurd rfl hpc
  | request | complete => exact fun _ => ⟨rfl, rfl⟩
  | score =>
      intro data
      rw [recordScore]
      split
      · exact ⟨rfl, rfl⟩
      · exact ⟨rfl, rfl⟩

theorem logged_step (h : threads.next s l = some t) (hl : Logged history s.peer) :
    Logged (history ++ metricsEvents s l) t.peer := by
  cases next_moves h with
  | message | handlerOp | callbackOp => exact logged_quiet h rfl (fun _ _ hf => absurd hf id) hl
  | @callback event hr =>
      cases event with
      | joinRoom now => exact logged_quiet h rfl (fun _ _ hf => absurd hf id) hl
      | stateChange env node state =>
          rw [State.peer, hr.context]
          simp only [threads, Callback.run, after_onPeer]
          exact logged_stateChange env node state hl
      | event event =>
          cases event with
          | iceStateChange node state =>
              rw [State.peer, hr.context]
              simp only [threads, Callback.run, after_bind_pure, after_onPeer]
              exact logged_iceStateChange node state hl
          | probeChannelMessage node header size crc now =>
              rw [State.peer, hr.context]
              simp only [threads, Callback.run, after_bind_pure, after_onPeer]
              exact logged_probeChannelMessage node ⟨header, size, crc, now⟩ hl
          | _ => exact logged_quiet h rfl (fun _ _ hf => absurd hf id) hl
  | @thread env hr =>
      by_cases hpc : s.thread.pc = .initProbes
      · rw [metricsEvents, if_pos hpc]
        change Logged _ t.context.p2pContext
        rw [hr.context]
        simp only [threads, connectStep, after_get_bind, hpc, after_bind_pure, after_onPeer]
        exact logged_initProbes env hl
      · exact logged_quiet h (if_neg hpc) (fun _ _ hf => unnoted_of_connect hf hpc) hl

theorem logged_reachable {s : State × List MetricsEvent} (h : recorded.Reachable s) :
    Logged s.2 s.1.peer := by
  refine System.Reachable.invariant (fun s => Logged s.2 s.1.peer) ?_ ?_ h
  · rintro s ⟨⟨waitTimeout, hs⟩, hhistory⟩
    rw [hs, hhistory]
    exact ⟨fun _ he => absurd he List.not_mem_nil, fun _ _ hn => nomatch hn⟩
  · intro s l t _ hl hn
    obtain ⟨hnext, hhistory⟩ := System.observed_next.mp hn
    rw [hhistory]
    exact logged_step hnext hl

end Steps

/-- The ICE score of a node is the one of the state reported last, and −1 only
where none was reported. -/
structure IceSurvives (log : NodeLog) (data : NetworkQualityMetrics) : Prop where
  last : ∀ state, log.report = some state → data.iceConnectivityScore = iceScore state
  unreported : data.iceConnectivityScore = -1 → log.report = none

theorem iceScore_nonneg (state : RtcIceState) : 0 ≤ iceScore state := by
  cases state <;> decide

theorem iceSurvives_iff {log : NodeLog} {data : NetworkQualityMetrics} (h : log.Matches data) :
    IceSurvives log data ↔ (log.wiped = true → log.report = none) := by
  constructor
  · intro hs hwiped
    apply hs.unreported
    rw [h.ice, NodeLog.iceScore, if_pos hwiped]
  · intro hwiped
    have hlast : ∀ state, log.report = some state → data.iceConnectivityScore = iceScore state := by
      intro state hstate
      have hkept : ¬ log.wiped = true := by
        intro hw
        rw [hwiped hw] at hstate
        cases hstate
      rw [h.ice, NodeLog.iceScore, if_neg hkept, hstate]
      rfl
    refine ⟨hlast, fun hminus => ?_⟩
    cases hreport : log.report with
    | none => rfl
    | some state =>
        have hnonneg := iceScore_nonneg state
        rw [hlast state hreport] at hminus
        omega

/-- At any time, the selection included, the ICE quality of a node has survived
if and only if its metrics were not wiped after a report. -/
theorem ice_quality_survives_iff {s : State × List MetricsEvent} (h : recorded.Reachable s) {p : Ptr}
    {n : PeerConnectionNode} (hn : s.1.peer.peerConnectionNodeCaches.get? p = some n) :
    IceSurvives (nodeLog p s.2) n.networkQuality ↔
      ((nodeLog p s.2).wiped = true → (nodeLog p s.2).report = none) :=
  iceSurvives_iff ((logged_reachable h).nodes p n hn)

def iceView (s : State × List MetricsEvent) : ConnectPc × List (Ptr × Int × NodeLog) :=
  (s.1.thread.pc, s.1.peer.peerConnectionNodeCaches.cells.map fun c =>
    (c.1, c.2.networkQuality.iceConnectivityScore, nodeLog c.1 s.2))

theorem exists_of_iceView {s : State × List MetricsEvent} {pc : ConnectPc} {p : Ptr} {score : Int}
    {log : NodeLog} (h : iceView s = (pc, [(p, score, log)])) : s.1.thread.pc = pc ∧
      ∃ n, s.1.peer.peerConnectionNodeCaches.get? p = some n ∧
        n.networkQuality.iceConnectivityScore = score ∧ nodeLog p s.2 = log := by
  obtain ⟨hpc, hcells⟩ := Prod.mk.inj h
  refine ⟨hpc, ?_⟩
  obtain ⟨⟨q, n⟩, hcell, hview⟩ := List.mem_map.mp (hcells.symm ▸ List.mem_singleton_self (p, score, log))
  simp only [Prod.mk.injEq] at hview
  obtain ⟨rfl, hscore, hlog⟩ := hview
  exact ⟨n, Linked.get?_eq_some_iff.mpr hcell, hscore, hlog⟩

/-- The sender reports its ICE state while it is probed. -/
theorem ice_quality_survives_completed : ∃ (s : State × List MetricsEvent) (n : PeerConnectionNode),
    s.1.thread.pc = .selectBest ∧ s.1.peer.peerConnectionNodeCaches.get? 0 = some n ∧
      (nodeLog 0 s.2).report = some .completed ∧ IceSurvives (nodeLog 0 s.2) n.networkQuality := by
  have hrun : (recorded.run (senderConnects "s" 1 0 ++ (nodeProbed 0).take 14 ++
      .callback (.event (.iceStateChange 0 .completed)) :: ((nodeProbed 0).drop 14).take 9)
        (.initial 60, [])).map iceView = some (.selectBest, [(0, 100, ⟨some .completed, false, 1⟩)]) := by
    decide +kernel
  obtain ⟨s, hs, hview⟩ := Option.map_eq_some_iff.mp hrun
  obtain ⟨hpc, n, hn, -, hlog⟩ := exists_of_iceView hview
  refine ⟨s, n, hpc, hn, by rw [hlog], (ice_quality_survives_iff (.of_run ⟨⟨60, rfl⟩, rfl⟩ hs) hn).mpr ?_⟩
  rw [hlog]
  intro hw
  cases hw

/-- The connection of the peer is reported after its ICE state, and wipes it. -/
theorem ice_quality_wiped : ¬ ∀ s, recorded.Reachable s → s.1.thread.pc = .selectBest → ∀ p n,
    s.1.peer.peerConnectionNodeCaches.get? p = some n → IceSurvives (nodeLog p s.2) n.networkQuality := by
  intro h
  have hrun : (recorded.run ((senderConnects "s" 1 0).take 3 ++
      .callback (.event (.iceStateChange 0 .connected)) :: (senderConnects "s" 1 0).drop 3 ++
        (nodeProbed 0).take 23) (.initial 60, [])).map iceView =
          some (.selectBest, [(0, -1, ⟨some .connected, true, 1⟩)]) := by
    decide +kernel
  obtain ⟨s, hs, hview⟩ := Option.map_eq_some_iff.mp hrun
  obtain ⟨hpc, n, hn, hscore, hlog⟩ := exists_of_iceView hview
  have hnone := (h s (.of_run ⟨⟨60, rfl⟩, rfl⟩ hs) hpc 0 n hn).unreported hscore
  rw [hlog] at hnone
  cases hnone

end P2PFFmpeg.Receiver
