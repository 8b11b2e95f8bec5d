import P2PFFmpeg.Library.Concurrent
import P2PFFmpeg.Receiver.ConnectThread

namespace P2PFFmpeg.Receiver

open Library Library.Program Library.Transition Library.Concurrent Message Peer

/-- What happens to the receiver outside its handler and its connect thread: the
join of p2p_rtp_demuxer_init and the callbacks of the WebRTC library. -/
inductive Callback
  | joinRoom (now : Int)
  | stateChange (env : Env) (node : Ptr) (state : RtcState)
  | event (event : PcEvent)

def Callback.run : Callback → ReceiverM (List ReceiverOp)
  | .joinRoom now => do
      modify (p2pSetReceiverState now .joiningRoom)
      pure []
  | .stateChange env node state => onPeer (onPcStateChangeCallback env node state)
  | .event e => do
      onPeer e.handle
      pure []

abbrev State := Process P2PRtpDemuxContext P2PSignalMessage ReceiverOp ConnectThread

abbrev Label := Concurrent.Label P2PSignalMessage Env Env Callback

def threads : Threads Fault P2PRtpDemuxContext P2PSignalMessage ReceiverOp ConnectThread Env Env
    Callback where
  head env msg := do
    let plan ← onPeer (receiverHead env msg)
    pure plan.2
  op := runReceiverOp
  callback := Callback.run
  thread := connectStep

def State.peer (s : State) : P2PContext := s.context.p2pContext

def State.initial (waitTimeout : Int) : State where
  context :=
    { p2pContext := ⟨none, none, .empty, none, []⟩
      currentState := .idle
      stateEnterTime := 0
      p2pConnectReady := false
      p2pConnectThreadActive := true
      waitTimeout := waitTimeout }
  message := none
  todo := []
  pool := []
  thread := ⟨.start, 0, 0⟩
  crashed := false

def system : System State Label := threads.system fun s => ∃ waitTimeout, s = State.initial waitTimeout

def permit (s : State) : Label → Permit
  | .message env msg => handled env msg s.peer (Unlinks env msg s.peer) (fun _ => False) (fun _ => False)
  | .handlerOp _ => { Permit.nothing with sent := fun msg => msg.type = .offer ∨ msg.type = .answer }
  | .callbackOp _ => { Permit.nothing with sent := fun msg => msg.type = .offer ∨ msg.type = .answer }
  | .callback (.joinRoom _) => Permit.nothing
  | .callback (.stateChange _ node state) =>
      { Permit.nothing with
        marked := fun p st => p = node ∧ st = statusOfRtcState state
        wiped := fun p => p = node ∧ state = .connected }
  | .callback (.event event) => { Permit.nothing with sent := event.sends }
  | .thread _ =>
      { Permit.nothing with
        marked := fun p st => s.thread.pc = .storeStatus p ∧ st = .selected
        wiped := fun _ => s.thread.pc = .initProbes ∨ s.thread.pc = .sendProbes
        selected := fun p => ∃ q, s.thread.pc = .storeSelected q ∧ p = some q
        sent := fun msg => msg.type = .probeRequest ∨ msg.type = .streamRequest }

variable {s t : State} {l : Label}

theorem next_frame (h : threads.next s l = some t) : Frame (permit s l) s.peer t.peer := by
  change PeerFrame (permit s l) s.context t.context
  cases next_moves h with
  | @message env msg _ hr =>
      rw [hr.context]
      simp only [threads, after_bind_pure, after_onPeer]
      exact frame_receiverHead env msg s.peer (handled_permit _ _ _ _ _ _) (fun p hp => hp)
  | @handlerOp env op _ _ hr =>
      rw [hr.context]
      exact frame_runReceiverOp env op (fun _ hm => hm) _
  | @callbackOp env op _ _ hr =>
      rw [hr.context]
      exact frame_runReceiverOp env op (fun _ hm => hm) _
  | @callback event hr =>
      rw [hr.context]
      cases event with
      | joinRoom now => exact keeps_bind (frame_setReceiverState _ _) (fun _ => keeps_pure _) _
      | stateChange env node state =>
          refine frame_onPeer (frame_onPcStateChangeCallback env node state ?_ ?_) _
          · exact ⟨rfl, rfl⟩
          · exact fun hstate => ⟨rfl, hstate⟩
      | event event =>
          exact keeps_bind (frame_onPeer (frame_handle event (fun _ hm => hm)))
            (fun _ => keeps_pure _) _
  | @thread env hr =>
      rw [hr.context]
      refine frame_connectStep env s.thread ?_ ?_ (fun hpc _ => hpc) (fun _ hm => hm) _
      · exact fun p hp => ⟨p, hp, rfl⟩
      · exact fun p hp => ⟨hp, rfl⟩

def ReceiverOp.sets : ReceiverOp → Option ReceiverState
  | .setState st => some st
  | .sendDescription _ _ => none

def sets (s : State) : Label → Option ReceiverState
  | .callback (.joinRoom _) => some .joiningRoom
  | .handlerOp _ => s.todo.head?.bind ReceiverOp.sets
  | .callbackOp _ => s.pool.head?.bind ReceiverOp.sets
  | .thread _ => s.thread.pc.sets
  | .message _ _ => none
  | .callback _ => none

theorem runReceiverOp_currentState (env : Env) (op : ReceiverOp) (s : P2PRtpDemuxContext) :
    (after (runReceiverOp env op) s).currentState = raised s.currentState op.sets := by
  cases op with
  | sendDescription node role =>
      rw [runReceiverOp, after_onPeer]
      rfl
  | setState st => exact setReceiverState_currentState _ _ _

theorem next_currentState (h : threads.next s l = some t) :
    t.context.currentState = raised s.context.currentState (sets s l) := by
  cases next_moves h with
  | message _ hr =>
      rw [hr.context]
      simp only [threads, after_bind_pure, after_onPeer]
      rfl
  | handlerOp htodo hr =>
      rw [hr.context]
      simp only [threads, runReceiverOp_currentState, sets, htodo, List.head?_cons, Option.bind_some]
  | callbackOp hpool hr =>
      rw [hr.context]
      simp only [threads, runReceiverOp_currentState, sets, hpool, List.head?_cons, Option.bind_some]
  | @callback event hr =>
      rw [hr.context]
      cases event with
      | joinRoom now => exact setReceiverState_currentState _ _ _
      | stateChange env node state =>
          simp only [threads, Callback.run, after_onPeer]
          rfl
      | event event =>
          simp only [threads, Callback.run, after_bind_pure, after_onPeer]
          rfl
  | thread hr =>
      rw [hr.context]
      exact connectStep_currentState _ _ _

theorem next_le (h : threads.next s l = some t) : s.context.currentState ≤ t.context.currentState := by
  rw [next_currentState h]
  exact le_raised _ _

theorem next_pc (h : threads.next s l = some t) :
    ((t.crashed = true ∨ ∀ env, l ≠ .thread env) ∧ t.thread = s.thread) ∨
      ((∃ env, l = .thread env) ∧ ConnectEdge s.context s.thread.pc t.thread.pc) := by
  rcases next_thread h with hsame | ⟨env, hl, hv⟩
  · exact Or.inl hsame
  · exact Or.inr ⟨⟨env, hl⟩, connectStep_edge hv⟩

theorem threads_head {env : Env} {msg : P2PSignalMessage} {c : P2PRtpDemuxContext}
    {ops : List ReceiverOp} (h : value (threads.head env msg) c = some ops) :
    ∃ ret, value (receiverHead env msg) c.p2pContext = some (ret, ops) := by
  simp only [threads, value_bind_pure, value_onPeer, Option.map_eq_some_iff] at h
  obtain ⟨plan, hv, rfl⟩ := h
  exact ⟨plan.1, hv⟩

theorem callback_ops {callback : Callback} {c : P2PRtpDemuxContext} {ops : List ReceiverOp}
    (h : value callback.run c = some ops) : ∀ op ∈ ops, op = .setState .datachannelReady := by
  cases callback with
  | joinRoom now =>
      cases h
      exact fun op ho => absurd ho List.not_mem_nil
  | event event =>
      obtain ⟨_, _, h⟩ := value_bind_some h
      cases h
      exact fun op ho => absurd ho List.not_mem_nil
  | stateChange env node state =>
      rw [Callback.run, value_onPeer] at h
      obtain ⟨_, _, h⟩ := value_bind_some h
      obtain ⟨_, _, h⟩ := value_bind_some h
      split at h
      · obtain ⟨_, _, h⟩ := value_bind_some h
        cases h
        exact fun op ho => List.mem_singleton.mp ho
      · cases h
        exact fun op ho => absurd ho List.not_mem_nil

theorem next_selectedNode (h : threads.next s l = some t) : t.peer.selectedNode = s.peer.selectedNode ∨
      ∃ env q, l = .thread env ∧ s.thread.pc = .storeSelected q ∧ t.peer.selectedNode = some q := by
  rcases (next_frame h).selectedNode with hs | hs
  · exact Or.inl hs
  · cases l with
    | thread env =>
        obtain ⟨q, hq, hp⟩ := hs
        exact Or.inr ⟨env, q, rfl, hq, hp⟩
    | callback event => cases event <;> exact absurd hs id
    | _ => exact absurd hs id

theorem runReceiverOp_p2pConnectReady (env : Env) (op : ReceiverOp) (s : P2PRtpDemuxContext) :
    (after (runReceiverOp env op) s).p2pConnectReady = s.p2pConnectReady := by
  cases op with
  | sendDescription node role => rw [runReceiverOp, after_onPeer]
  | setState st => exact setReceiverState_p2pConnectReady _ _ _

theorem next_p2pConnectReady (h : threads.next s l = some t) :
    t.context.p2pConnectReady = s.context.p2pConnectReady ∨ s.thread.pc = .returned 0 := by
  cases next_moves h with
  | message _ hr =>
      rw [hr.context]
      simp only [threads, after_bind_pure, after_onPeer]
      exact Or.inl trivial
  | handlerOp _ hr | callbackOp _ hr =>
      rw [hr.context]
      exact Or.inl (runReceiverOp_p2pConnectReady _ _ _)
  | @callback event hr =>
      rw [hr.context]
      cases event with
      | joinRoom now => exact Or.inl (setReceiverState_p2pConnectReady _ _ _)
      | stateChange env node state =>
          simp only [threads, Callback.run, after_onPeer]
          exact Or.inl trivial
      | event event =>
          simp only [threads, Callback.run, after_bind_pure, after_onPeer]
          exact Or.inl trivial
  | thread hr =>
      rw [hr.context]
      simp only [threads, connectStep_p2pConnectReady]
      by_cases hpc : s.thread.pc = .returned 0
      · exact Or.inr hpc
      · exact Or.inl (by simp [hpc])

theorem next_storeSelected {env : Env} {p : Ptr} (h : threads.next s (.thread env) = some t)
    (hp : s.thread.pc = .storeSelected p) : t.peer.selectedNode = some p := by
  cases next_moves h with
  | thread hr =>
      rw [State.peer, hr.context]
      exact congrArg (fun c => c.p2pContext.selectedNode) (connectStep_storeSelected hp s.context)

theorem not_lost {s : State} {p : Ptr} (hl : ∀ env msg, l = .message env msg → ¬ Unlinks env msg s.peer p) :
    ¬ (permit s l).lost p := by
  cases l with
  | message env msg => exact hl env msg rfl
  | callback event => cases event <;> exact fun hf => hf
  | _ => exact fun hf => hf

def senderConnects (id : String) (pcId : Int) (p : Ptr) : List Label :=
  [.message (.succeeding 0 pcId) ⟨some id, none, .offer (some "sdp")⟩,
    .handlerOp (.succeeding 0 pcId), .handlerOp (.succeeding 0 pcId),
    .callback (.stateChange (.succeeding 0 pcId) p .connected), .callbackOp (.succeeding 0 pcId)]

def nodeProbed (p : Ptr) : List Label :=
  List.replicate 14 (.thread (.succeeding 0 1)) ++
    .callback (.event (.probeChannelMessage p ⟨0, 0, 32, .slowStart, 0⟩ 32 0 1000)) ::
    List.replicate 12 (.thread (.succeeding 31000000 1))

end P2PFFmpeg.Receiver
