import P2PFFmpeg.Library.Concurrent
import P2PFFmpeg.Sender.Muxer

namespace P2PFFmpeg.Sender

open Library Library.Program Library.Transition Library.Concurrent Message Peer

inductive Callback
  | stateChange (node : Ptr) (state : RtcState)
  | event (event : PcEvent)

def Callback.run : Callback → SenderM (List SenderOp)
  | .stateChange node state => onPeer (onPcStateChangeCallback node state)
  | .event e => do
      onPeer e.handle
      pure []

abbrev State := Process P2PRtpMuxContext P2PSignalMessage SenderOp MuxPc

abbrev Label := Concurrent.Label P2PSignalMessage Env MuxInput Callback

def threads : Threads Fault P2PRtpMuxContext P2PSignalMessage SenderOp MuxPc Env MuxInput Callback where
  head env msg := do
    let ctx ← get
    let plan ← onPeer (senderHead env ctx.streams msg)
    pure plan.2
  op := runSenderOp
  callback := Callback.run
  thread := muxStep

def State.peer (s : State) : P2PContext := s.context.p2pContext

def State.initial (streams : List AVStream) (roomId : Option String) (waitTimeout : Int) : State where
  context :=
    { p2pContext := ⟨none, none, .empty, none, []⟩
      currentState := .idle
      stateEnterTime := 0
      streams := streams
      roomId := roomId
      waitTimeout := waitTimeout }
  message := none
  todo := []
  pool := []
  thread := .setIdle
  crashed := false

def system : System State Label :=
  threads.system fun s => ∃ streams roomId waitTimeout, s = State.initial streams roomId waitTimeout

def permit (s : State) : Label → Permit
  | .message env msg => handled env msg s.peer (fun _ => False) (fun _ => True) fun m =>
      ∃ p streamId, Accepts msg s.peer p ∧ m = ⟨s.peer.localId, msg.senderId, .streamReady streamId⟩
  | .handlerOp env => (s.todo.head?.map (SenderOp.permit env)).getD Permit.nothing
  | .callbackOp env => (s.pool.head?.map (SenderOp.permit env)).getD Permit.nothing
  | .callback (.stateChange node state) =>
      { Permit.nothing with marked := fun p st => p = node ∧ st = statusOfRtcState state }
  | .callback (.event event) => { Permit.nothing with sent := event.sends }
  | .thread _ => { Permit.nothing with sent := fun msg => msg.type = .joinRoom }

variable {s t : State} {l : Label}

theorem next_frame (h : threads.next s l = some t) : Frame (permit s l) s.peer t.peer := by
  change PeerFrame (permit s l) s.context t.context
  cases next_moves h with
  | @message env msg _ hr =>
      rw [hr.context]
      simp only [threads, after_get_bind, after_bind_pure, after_onPeer]
      apply frame_senderHead env s.context.streams msg s.peer (handled_permit _ _ _ _ _ _)
      · exact fun p streamId hacc => ⟨p, streamId, hacc, rfl⟩
      · exact fun _ => trivial
  | @handlerOp env op ops htodo hr =>
      rw [hr.context]
      simp only [permit, htodo, List.head?_cons, Option.map_some, Option.getD_some]
      exact frame_runSenderOp env op _
  | @callbackOp env op ops hpool hr =>
      rw [hr.context]
      simp only [permit, hpool, List.head?_cons, Option.map_some, Option.getD_some]
      exact frame_runSenderOp env op _
  | @callback event hr =>
      rw [hr.context]
      cases event with
      | stateChange node state =>
          refine frame_onPeer (frame_onPcStateChangeCallback node state ?_) _
          exact ⟨rfl, rfl⟩
      | event event =>
          exact keeps_bind (frame_onPeer (frame_handle event (fun _ hm => hm)))
            (fun _ => keeps_pure _) _
  | @thread input hr =>
      rw [hr.context]
      exact frame_muxStep input s.thread (fun _ hm => hm) _

theorem SenderOp.not_lost (env : Env) (op : SenderOp) (p : Ptr) : ¬ (op.permit env).lost p := by
  cases op <;> exact fun hf => hf

theorem op_not_lost (env : Env) (ops : List SenderOp) (p : Ptr) :
    ¬ ((ops.head?.map (SenderOp.permit env)).getD Permit.nothing).lost p := by
  cases ops with
  | nil => exact fun hf => hf
  | cons op ops => exact op.not_lost env p

theorem not_lost (s : State) (l : Label) (p : Ptr) : ¬ (permit s l).lost p := by
  cases l with
  | handlerOp env => exact op_not_lost env s.todo p
  | callbackOp env => exact op_not_lost env s.pool p
  | callback event => cases event <;> exact fun hf => hf
  | _ => exact fun hf => hf

def SenderOp.sets : SenderOp → Option SenderState
  | .setState st => some st
  | _ => none

def sets (s : State) : Label → Option SenderState
  | .handlerOp _ => s.todo.head?.bind SenderOp.sets
  | .callbackOp _ => s.pool.head?.bind SenderOp.sets
  | .thread _ => s.thread.sets
  | _ => none

theorem runSenderOp_currentState (env : Env) (op : SenderOp) (s : P2PRtpMuxContext) :
    (after (runSenderOp env op) s).currentState = raised s.currentState op.sets := by
  cases op with
  | setState st => exact setSenderState_currentState _ _ _
  | _ =>
      rw [runSenderOp, after_onPeer]
      rfl

theorem next_currentState (h : threads.next s l = some t) :
    t.context.currentState = raised s.context.currentState (sets s l) := by
  cases next_moves h with
  | message _ hr =>
      rw [hr.context]
      simp only [threads, after_get_bind, after_bind_pure, after_onPeer]
      rfl
  | handlerOp htodo hr =>
      rw [hr.context]
      simp only [threads, runSenderOp_currentState, sets, htodo, List.head?_cons, Option.bind_some]
  | callbackOp hpool hr =>
      rw [hr.context]
      simp only [threads, runSenderOp_currentState, sets, hpool, List.head?_cons, Option.bind_some]
  | @callback event hr =>
      rw [hr.context]
      cases event with
      | stateChange node state =>
          simp only [threads, Callback.run, after_onPeer]
          rfl
      | event event =>
          simp only [threads, Callback.run, after_bind_pure, after_onPeer]
          rfl
  | thread hr =>
      rw [hr.context]
      exact muxStep_currentState _ _ _

theorem next_le (h : threads.next s l = some t) : s.context.currentState ≤ t.context.currentState := by
  rw [next_currentState h]
  exact le_raised _ _

theorem next_pc (h : threads.next s l = some t) :
    t.thread = s.thread ∨ ((∃ input, l = .thread input) ∧ MuxEdge s.context s.thread t.thread) := by
  rcases next_thread h with ⟨_, hsame⟩ | ⟨input, hl, hv⟩
  · exact Or.inl hsame
  · exact Or.inr ⟨⟨input, hl⟩, muxStep_edge hv⟩

theorem threads_head {env : Env} {msg : P2PSignalMessage} {c : P2PRtpMuxContext}
    {ops : List SenderOp} (h : value (threads.head env msg) c = some ops) :
    ∃ ret, value (senderHead env c.streams msg) c.p2pContext = some (ret, ops) := by
  simp only [threads, value_get_bind, value_bind_pure, value_onPeer, Option.map_eq_some_iff] at h
  obtain ⟨plan, hv, rfl⟩ := h
  exact ⟨plan.1, hv⟩

theorem callback_ops {callback : Callback} {c : P2PRtpMuxContext} {ops : List SenderOp}
    (h : value callback.run c = some ops) : ∀ op ∈ ops, op = .setState .datachannelReady := by
  cases callback with
  | event event =>
      obtain ⟨_, _, h⟩ := value_bind_some h
      cases h
      exact fun op ho => absurd ho List.not_mem_nil
  | stateChange node state =>
      rw [Callback.run, value_onPeer] at h
      obtain ⟨_, _, h⟩ := value_bind_some h
      obtain ⟨_, _, h⟩ := value_bind_some h
      split at h
      · cases h
        exact fun op ho => List.mem_singleton.mp ho
      · cases h
        exact fun op ho => absurd ho List.not_mem_nil

theorem pool_reachable {s : State} (h : system.Reachable s) :
    ∀ op ∈ s.pool, op = .setState .datachannelReady := by
  refine System.Reachable.invariant (fun s => ∀ op ∈ s.pool, op = .setState .datachannelReady) ?_ ?_ h
  · rintro s ⟨streams, roomId, waitTimeout, rfl⟩ op hop
    exact absurd hop List.not_mem_nil
  · intro s l t _ hs hn op hop
    rcases next_pool hn op hop with hp | ⟨event, ops, _, hv, hop⟩
    · exact hs op hp
    · exact callback_ops hv op hop

end P2PFFmpeg.Sender
