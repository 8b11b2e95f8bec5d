import P2PFFmpeg.Library.Raise
import P2PFFmpeg.Peer.Invariant
import P2PFFmpeg.Peer.Signaling

namespace P2PFFmpeg.Receiver

open Library Library.Program Message Peer

inductive ReceiverState
  | idle | joiningRoom | waitingForSender | signaling | p2pConnecting | datachannelReady | probing
  | probeCompleted | requestingStream | streaming | error
  deriving DecidableEq, Repr

theorem ctorIdx_injective : Function.Injective ReceiverState.ctorIdx := by
  intro a b h
  cases a <;> cases b <;> first | rfl | cases h

instance : LinearOrder ReceiverState := LinearOrder.lift' ReceiverState.ctorIdx ctorIdx_injective

theorem le_error (st : ReceiverState) : st ≤ .error := by
  cases st <;> decide

instance : OrderTop ReceiverState where
  top := .error
  le_top := le_error

structure P2PRtpDemuxContext where
  p2pContext : P2PContext
  currentState : ReceiverState
  stateEnterTime : Int
  p2pConnectReady : Bool
  p2pConnectThreadActive : Bool
  waitTimeout : Int

def p2pSetReceiverState (now : Int) (newState : ReceiverState) (ctx : P2PRtpDemuxContext) :
    P2PRtpDemuxContext :=
  if ctx.currentState < newState then
    { ctx with currentState := newState, stateEnterTime := now }
  else ctx

inductive ReceiverOp
  | sendDescription (node : Ptr) (role : String)
  | setState (newState : ReceiverState)
  deriving DecidableEq

abbrev ReceiverPlan := Int × List ReceiverOp

def receiverConnectRequest (env : Env) (senderId targetId : Option String) : PeerM ReceiverPlan := do
  let found ← findOrCreateNode env targetId senderId
  match found with
  | .error ret => pure (ret, [])
  | .ok node => do
      let n ← readNode node
      let _ ← initPeerConnection env n.pcId
      pure (0, [.setState .signaling])

def receiverOffer (env : Env) (senderId description : Option String) : PeerM ReceiverPlan := do
  let found ← findOrCreateNode env senderId senderId
  match found with
  | .error ret => pure (ret, [])
  | .ok node =>
      match node, description with
      | some p, some sdp => do
          let n ← readNode (some p)
          call (.setRemoteDescription n.pcId sdp "offer")
          let _ ← initPeerConnection env n.pcId
          setLocalDescription p "answer"
          pure (0, [.sendDescription p "answer", .setState .signaling])
      | _, _ => pure (0, [])

def receiverStreamReady (senderId : Option String) : PeerM ReceiverPlan := do
  let ctx ← get
  match findPeerConnectionNodeByRemoteId ctx.peerConnectionNodeCaches senderId with
  | some p => if ctx.selectedNode = some p then pure (0, [.setState .streaming]) else pure (0, [])
  | none => pure (0, [])

/-- The branches of p2p_rtp_demux_signal_handler up to their first step that
another thread can observe on its own. -/
def receiverHead (env : Env) (msg : P2PSignalMessage) : PeerM ReceiverPlan :=
  match msg.body with
  | .roomJoined roomId _ localId => do
      joinRoom env roomId localId
      pure (0, [.setState .waitingForSender])
  | .connectRequest targetId => receiverConnectRequest env msg.senderId targetId
  | .offer description => receiverOffer env msg.senderId description
  | .answer description => do
      let ret ← handleAnswer msg.senderId description
      pure (ret, [])
  | .candidate candidate mid => do
      let ret ← handleCandidate msg.senderId candidate mid
      pure (ret, [])
  | .streamReady _ => receiverStreamReady msg.senderId
  | .error _ _ => pure (0, [.setState .error])
  | _ => pure (0, [])

abbrev ReceiverM := EStateM Fault P2PRtpDemuxContext

def onPeer {α : Type} (x : PeerM α) : ReceiverM α :=
  zoom P2PRtpDemuxContext.p2pContext (fun c ctx => { ctx with p2pContext := c }) x

def runReceiverOp (env : Env) : ReceiverOp → ReceiverM Unit
  | .sendDescription node role => onPeer do
      let _ ← sendDescription env node role
      pure ()
  | .setState newState => modify (p2pSetReceiverState env.now newState)

def runReceiverOps (env : Env) : List ReceiverOp → ReceiverM Unit
  | [] => pure ()
  | op :: ops => do
      runReceiverOp env op
      runReceiverOps env ops

def p2pRtpDemuxSignalHandler (env : Env) (msg : P2PSignalMessage) : ReceiverM Int := do
  let plan ← onPeer (receiverHead env msg)
  runReceiverOps env plan.2
  pure plan.1

/-- The metrics of the node are wiped; setting DATACHANNEL_READY is a step of its own. -/
def onPcConnectedCallback (env : Env) (node : Ptr) : PeerM Unit :=
  modifyNode node (setNetworkQuality fun _ => probeDataInit env.now)

/-- A callback that reports a connection still has to set the receiver state. -/
def onPcStateChangeCallback (env : Env) (node : Ptr) (state : RtcState) :
    PeerM (List ReceiverOp) := do
  let _ ← readNode (some node)
  modifyNode node (setStatus (statusOfRtcState state))
  if state = .connected then do
    onPcConnectedCallback env node
    pure [.setState .datachannelReady]
  else pure []

section SetState

variable (now : Int) (st : ReceiverState) (ctx : P2PRtpDemuxContext)

theorem setReceiverState_currentState :
    (p2pSetReceiverState now st ctx).currentState = max ctx.currentState st := by
  unfold p2pSetReceiverState
  split
  · next h => exact (max_eq_right (le_of_lt h)).symm
  · next h => exact (max_eq_left (not_lt.mp h)).symm

@[simp] theorem setReceiverState_p2pContext :
    (p2pSetReceiverState now st ctx).p2pContext = ctx.p2pContext := by
  unfold p2pSetReceiverState
  split <;> rfl

@[simp] theorem setReceiverState_p2pConnectReady :
    (p2pSetReceiverState now st ctx).p2pConnectReady = ctx.p2pConnectReady := by
  unfold p2pSetReceiverState
  split <;> rfl

end SetState

@[simp] theorem after_onPeer {α : Type} (x : PeerM α) (ctx : P2PRtpDemuxContext) :
    after (onPeer x) ctx = { ctx with p2pContext := after x ctx.p2pContext } := after_zoom _ _ x ctx

@[simp] theorem value_onPeer {α : Type} (x : PeerM α) (ctx : P2PRtpDemuxContext) :
    value (onPeer x) ctx = value x ctx.p2pContext := value_zoom _ _ x ctx

def PeerFrame (w : Permit) (a b : P2PRtpDemuxContext) : Prop := Frame w a.p2pContext b.p2pContext

instance (w : Permit) : IsPreorder P2PRtpDemuxContext (PeerFrame w) where
  refl := fun a => Frame.refl a.p2pContext
  trans := fun _ _ _ => Frame.trans

section Frames

variable {w : Permit}

theorem frame_onPeer {α : Type} {x : PeerM α} (h : Keeps (Frame w) x) : Keeps (PeerFrame w) (onPeer x) :=
  keeps_zoom (fun _ _ hf => hf) h

theorem frame_setReceiverState (now : Int) (st : ReceiverState) :
    Keeps (PeerFrame w) (modify (p2pSetReceiverState now st) : ReceiverM PUnit) := by
  apply keeps_modify
  intro s
  rw [PeerFrame, setReceiverState_p2pContext]
  exact Frame.refl _

theorem frame_runReceiverOp (env : Env) (op : ReceiverOp)
    (h : ∀ msg, msg.type = .offer ∨ msg.type = .answer → w.sent msg) :
    Keeps (PeerFrame w) (runReceiverOp env op) := by
  cases op with
  | sendDescription node role =>
      apply frame_onPeer
      refine keeps_bind (frame_sendDescription env node role ?_) (fun _ => keeps_pure _)
      intro msg hm
      apply h
      rw [P2PSignalMessage.type, hm, descriptionBody]
      split
      · exact Or.inl rfl
      · exact Or.inr rfl
  | setState st => exact frame_setReceiverState env.now st

theorem frame_onPcStateChangeCallback (env : Env) (node : Ptr) (state : RtcState)
    (hm : w.marked node (statusOfRtcState state)) (hw : state = .connected → w.wiped node) :
    Keeps (Frame w) (onPcStateChangeCallback env node state) := by
  apply keeps_bind (frame_readNode _)
  intro _
  apply keeps_bind (frame_setStatus node hm)
  intro _
  split
  · next hstate =>
      exact keeps_bind (frame_setNetworkQuality _ fun _ _ => Or.inr (hw hstate))
        (fun _ => keeps_pure _)
  · exact keeps_pure _

/-- The nodes that a message makes the receiver unlink: the one of the sender of
a CONNECT_REQUEST whose target has no node. -/
def Unlinks (env : Env) (msg : P2PSignalMessage) (s : P2PContext) (p : Ptr) : Prop :=
  ∃ targetId, msg.body = .connectRequest targetId ∧ env.creates ∧ env.strdup = true ∧
    findPeerConnectionNodeByRemoteId s.peerConnectionNodeCaches targetId = none ∧
    findPeerConnectionNodeByRemoteId s.peerConnectionNodeCaches msg.senderId = some p

theorem frame_receiverHead (env : Env) (msg : P2PSignalMessage) (s : P2PContext)
    (hh : HandlesPermit w env msg s) (hl : ∀ p, Unlinks env msg s p → w.lost p) :
    Frame w s (after (receiverHead env msg) s) := by
  cases hb : msg.body with
  | roomJoined roomId role localId =>
      simp only [receiverHead, hb]
      exact keeps_bind (frame_joinRoom env roomId localId (hh.named _ _ _ hb)) (fun _ => keeps_pure _) s
  | connectRequest targetId =>
      have hopens : opens msg := Or.inl (by rw [P2PSignalMessage.type, hb]; rfl)
      simp only [receiverHead, hb]
      refine related_bind (frame_findOrCreateNode env targetId msg.senderId s (hh.create hopens) ?_) ?_
      · intro hnone hc hd p hp
        exact hl p ⟨targetId, hb, hc, hd, hnone, hp⟩
      · intro found _
        cases found with
        | error ret => exact Frame.refl _
        | ok node =>
            apply keeps_bind (frame_readNode _)
            intro n
            exact keeps_bind (frame_initPeerConnection _ _ fun h => hh.fails hopens h _) (fun _ => keeps_pure _)
  | offer description =>
      have hopens : opens msg := Or.inr (by rw [P2PSignalMessage.type, hb]; rfl)
      simp only [receiverHead, hb]
      refine related_bind (frame_findOrCreateNode env msg.senderId msg.senderId s (hh.create hopens) ?_) ?_
      · intro hnone _ _ p hp
        rw [hnone] at hp
        cases hp
      · intro found _
        cases found with
        | error ret => exact Frame.refl _
        | ok node =>
            cases node with
            | none => exact Frame.refl _
            | some p =>
                cases description with
                | none => exact Frame.refl _
                | some sdp =>
                    apply keeps_bind (frame_readNode _)
                    intro n
                    apply keeps_bind (frame_call fun _ => by trivial)
                    intro _
                    apply keeps_bind (frame_initPeerConnection _ _ fun h => hh.fails hopens h _)
                    intro _
                    exact keeps_bind (frame_setLocalDescription _ _) (fun _ => keeps_pure _)
  | answer description =>
      simp only [receiverHead, hb]
      exact keeps_bind (frame_handleAnswer _ _) (fun _ => keeps_pure _) s
  | candidate candidate mid =>
      simp only [receiverHead, hb]
      refine keeps_bind (frame_handleCandidate _ _ _ ?_) (fun _ => keeps_pure _) s
      rintro pcId cand m rfl rfl
      exact hh.added pcId cand m hb
  | streamReady streamId =>
      simp only [receiverHead, hb, receiverStreamReady, after_get_bind]
      split
      · split
        · exact Frame.refl _
        · exact Frame.refl _
      · exact Frame.refl _
  | _ =>
      simp only [receiverHead, hb]
      exact Frame.refl _

end Frames

variable {plan : ReceiverPlan} {s : P2PContext} {env : Env}

theorem receiverConnectRequest_plan {senderId targetId : Option String}
    (h : value (receiverConnectRequest env senderId targetId) s = some plan) :
    plan.2 = [] ∨ plan.2 = [.setState .signaling] := by
  obtain ⟨found, _, h⟩ := value_bind_some h
  cases found with
  | error ret =>
      cases h
      exact Or.inl rfl
  | ok node =>
      obtain ⟨n, _, h⟩ := value_bind_some h
      obtain ⟨_, _, h⟩ := value_bind_some h
      cases h
      exact Or.inr rfl

theorem receiverOffer_plan {senderId description : Option String}
    (h : value (receiverOffer env senderId description) s = some plan) :
    plan.2 = [] ∨ ∃ p, plan.2 = [.sendDescription p "answer", .setState .signaling] := by
  obtain ⟨found, _, h⟩ := value_bind_some h
  cases found with
  | error ret =>
      cases h
      exact Or.inl rfl
  | ok node =>
      cases node with
      | none =>
          cases h
          exact Or.inl rfl
      | some p =>
          cases description with
          | none =>
              cases h
              exact Or.inl rfl
          | some sdp =>
              obtain ⟨n, _, h⟩ := value_bind_some h
              rw [value_call_bind] at h
              obtain ⟨_, _, h⟩ := value_bind_some h
              obtain ⟨_, _, h⟩ := value_bind_some h
              cases h
              exact Or.inr ⟨p, rfl⟩

theorem receiverStreamReady_plan {senderId : Option String}
    (h : value (receiverStreamReady senderId) s = some plan) :
    plan.2 = [] ∨ (plan.2 = [.setState .streaming] ∧ s.selectedNode.isSome ∧
      findPeerConnectionNodeByRemoteId s.peerConnectionNodeCaches senderId = s.selectedNode) := by
  rw [receiverStreamReady, value_get_bind] at h
  split at h
  · next p hp =>
      split at h
      · next hsel =>
          cases h
          exact Or.inr ⟨rfl, by rw [hsel]; rfl, by rw [hp, hsel]⟩
      · cases h
        exact Or.inl rfl
  · cases h
    exact Or.inl rfl

/-- The states that the first part of a branch leads to, by the type of the
message; streaming needs the sender to be the selected node. -/
theorem receiverHead_setState {msg : P2PSignalMessage} {st : ReceiverState}
    (h : value (receiverHead env msg) s = some plan) (hst : .setState st ∈ plan.2) :
    (st = .waitingForSender ∧ msg.type = .roomJoined) ∨
      (st = .signaling ∧ (msg.type = .connectRequest ∨ msg.type = .offer)) ∨
      (st = .error ∧ msg.type = .error) ∨
      (st = .streaming ∧ msg.type = .streamReady ∧ s.selectedNode.isSome ∧
        findPeerConnectionNodeByRemoteId s.peerConnectionNodeCaches msg.senderId = s.selectedNode) := by
  cases hb : msg.body with
  | roomJoined roomId role localId =>
      simp only [receiverHead, hb] at h
      obtain ⟨_, _, h⟩ := value_bind_some h
      cases h
      exact Or.inl ⟨by simpa using hst, by rw [P2PSignalMessage.type, hb]; rfl⟩
  | connectRequest targetId =>
      simp only [receiverHead, hb] at h
      rcases receiverConnectRequest_plan h with hp | hp
      · simp [hp] at hst
      · exact Or.inr (Or.inl ⟨by simpa [hp] using hst,
          Or.inl (by rw [P2PSignalMessage.type, hb]; rfl)⟩)
  | offer description =>
      simp only [receiverHead, hb] at h
      rcases receiverOffer_plan h with hp | ⟨p, hp⟩
      · simp [hp] at hst
      · exact Or.inr (Or.inl ⟨by simpa [hp] using hst,
          Or.inr (by rw [P2PSignalMessage.type, hb]; rfl)⟩)
  | streamReady streamId =>
      simp only [receiverHead, hb] at h
      rcases receiverStreamReady_plan h with hp | ⟨hp, hsome, hsel⟩
      · simp [hp] at hst
      · exact Or.inr (Or.inr (Or.inr ⟨by simpa [hp] using hst,
          by rw [P2PSignalMessage.type, hb]; rfl, hsome, hsel⟩))
  | error errorCode errorMsg =>
      simp only [receiverHead, hb] at h
      cases h
      exact Or.inr (Or.inr (Or.inl ⟨by simpa using hst, by rw [P2PSignalMessage.type, hb]; rfl⟩))
  | answer description =>
      simp only [receiverHead, hb] at h
      obtain ⟨_, _, h⟩ := value_bind_some h
      cases h
      cases hst
  | candidate candidate mid =>
      simp only [receiverHead, hb] at h
      obtain ⟨_, _, h⟩ := value_bind_some h
      cases h
      cases hst
  | _ =>
      simp only [receiverHead, hb] at h
      cases h
      cases hst

end P2PFFmpeg.Receiver
