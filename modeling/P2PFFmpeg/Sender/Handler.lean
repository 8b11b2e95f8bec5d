import P2PFFmpeg.Library.Raise
import P2PFFmpeg.Peer.Invariant
import P2PFFmpeg.Peer.Signaling

namespace P2PFFmpeg.Sender

open Library Library.Program Message Peer

inductive SenderState
  | idle | joiningRoom | waitingForReceiver | signaling | p2pConnecting | datachannelReady | probing
  | waitingStreamRequest | creatingTracks | streaming | error
  deriving DecidableEq, Repr

theorem ctorIdx_injective : Function.Injective SenderState.ctorIdx := by
  intro a b h
  cases a <;> cases b <;> first | rfl | cases h

instance : LinearOrder SenderState := LinearOrder.lift' SenderState.ctorIdx ctorIdx_injective

theorem le_error (st : SenderState) : st ≤ .error := by
  cases st <;> decide

instance : OrderTop SenderState where
  top := .error
  le_top := le_error

structure P2PRtpMuxContext where
  p2pContext : P2PContext
  currentState : SenderState
  stateEnterTime : Int
  streams : List AVStream
  roomId : Option String
  waitTimeout : Int

/-- The lock section of set_sender_state, without its broadcast. -/
def setSenderState (now : Int) (newState : SenderState) (ctx : P2PRtpMuxContext) : P2PRtpMuxContext :=
  if ctx.currentState < newState then
    { ctx with currentState := newState, stateEnterTime := now }
  else ctx

inductive SenderOp
  | sendDescription (node : Ptr) (role : String)
  | setState (newState : SenderState)
  | initPeerConnection (pcId : Int)
  | sendProbePackets (node : Ptr)
  | storeSelected (node : Ptr)
  | storeStatus (node : Ptr)
  deriving DecidableEq

abbrev SenderPlan := Int × List SenderOp

def senderConnectRequest (env : Env) (streams : List AVStream) (targetId : Option String) :
    PeerM SenderPlan := do
  let found ← findOrCreateNode env targetId targetId
  match found with
  | .error ret => pure (ret, [])
  | .ok node => do
      let ret ← createSendMediaTracks env node 0 streams
      match ret with
      | some code => pure (code, [])
      | none => do
          let ret ← createProbeTrack env node
          match ret with
          | some code => pure (code, [])
          | none => do
              let n ← readNode node
              let _ ← initPeerConnection env n.pcId
              match node with
              | none => throw .nullNode
              | some p => do
                  setLocalDescription p "offer"
                  pure (0, [.sendDescription p "offer", .setState .signaling])

def senderOffer (env : Env) (senderId description : Option String) : PeerM SenderPlan := do
  let found ← findOrCreateNode env senderId senderId
  match found with
  | .error ret => pure (ret, [])
  | .ok node => do
      let n ← readNode node
      match description with
      | some sdp => do
          call (.setRemoteDescription n.pcId sdp "offer")
          pure (0, [.setState .signaling, .initPeerConnection n.pcId])
      | none => pure (0, [.initPeerConnection n.pcId])

def recordProbeRequest (now : Int) (expectedPackets timeoutMs : Int32)
    (data : NetworkQualityMetrics) : NetworkQualityMetrics :=
  { data with
    expectedPackets := if 0 < expectedPackets.toInt then expectedPackets.toInt else data.expectedPackets
    timeoutMs := if 0 < timeoutMs.toInt then timeoutMs.toInt else data.timeoutMs
    probeStartTime := if 0 < timeoutMs.toInt then now else data.probeStartTime }

def senderProbeRequest (env : Env) (senderId : Option String) (expectedPackets timeoutMs : Int32) :
    PeerM SenderPlan := do
  let ctx ← get
  match findPeerConnectionNodeByRemoteId ctx.peerConnectionNodeCaches senderId with
  | none => pure (averrorEinval, [])
  | some p => do
      modifyNode p (setNetworkQuality (recordProbeRequest env.now expectedPackets timeoutMs))
      pure (0, [.setState .probing, .sendProbePackets p])

def tracksReady (n : PeerConnectionNode) : Bool :=
  n.probeTrack.isSome && (n.videoTrack.isSome || n.audioTrack.isSome)

def sendStreamReady (env : Env) (receiverId : Option String) : PeerM Unit := do
  let ctx ← get
  if env.allocMessage = false then pure ()
  else do
    let msg : P2PSignalMessage :=
      { senderId := ctx.localId
        receiverId := receiverId
        body := .streamReady (some "main_stream") }
    let _ ← sendSignalMessage env msg
    pure ()

def senderStreamRequest (env : Env) (senderId : Option String) : PeerM SenderPlan := do
  let ctx ← get
  match findPeerConnectionNodeByRemoteId ctx.peerConnectionNodeCaches senderId with
  | none => pure (averrorEinval, [])
  | some p => do
      let n ← readNode (some p)
      if n.status ≠ .connected then pure (averrorEinval, [])
      else if tracksReady n = false then pure (averrorEinval, [])
      else do
        sendStreamReady env senderId
        pure (0, [.setState .streaming, .storeSelected p, .storeStatus p])

/-- The branches of p2p_rtp_mux_signal_handler up to their first step that
another thread can observe on its own. -/
def senderHead (env : Env) (streams : List AVStream) (msg : P2PSignalMessage) : PeerM SenderPlan :=
  match msg.body with
  | .roomJoined roomId _ localId => do
      joinRoom env roomId localId
      pure (0, [.setState .waitingForReceiver])
  | .connectRequest targetId => senderConnectRequest env streams targetId
  | .offer description => senderOffer env msg.senderId description
  | .answer description => do
      let ret ← handleAnswer msg.senderId description
      pure (ret, [])
  | .candidate candidate mid => do
      let ret ← handleCandidate msg.senderId candidate mid
      pure (ret, [])
  | .probeRequest _ _ expectedPackets timeoutMs =>
      senderProbeRequest env msg.senderId expectedPackets timeoutMs
  | .streamRequest _ => senderStreamRequest env msg.senderId
  | .error _ _ => pure (0, [.setState .error])
  | _ => pure (0, [])

abbrev SenderM := EStateM Fault P2PRtpMuxContext

def onPeer {α : Type} (x : PeerM α) : SenderM α :=
  zoom P2PRtpMuxContext.p2pContext (fun c ctx => { ctx with p2pContext := c }) x

def runSenderOp (env : Env) (op : SenderOp) : SenderM Unit :=
  match op with
  | .setState newState => modify (setSenderState env.now newState)
  | .sendDescription node role => onPeer do
      let _ ← sendDescription env node role
      pure ()
  | .initPeerConnection pcId => onPeer do
      let _ ← initPeerConnection env pcId
      pure ()
  | .sendProbePackets node => onPeer do
      let _ ← sendProbePackets env node
      pure ()
  | .storeSelected node => onPeer (modify fun c => { c with selectedNode := some node })
  | .storeStatus node => onPeer (markSelected node)

def runSenderOps (env : Env) : List SenderOp → SenderM Unit
  | [] => pure ()
  | op :: ops => do
      runSenderOp env op
      runSenderOps env ops

def p2pRtpMuxSignalHandler (env : Env) (msg : P2PSignalMessage) : SenderM Int := do
  let ctx ← get
  let plan ← onPeer (senderHead env ctx.streams msg)
  runSenderOps env plan.2
  pure plan.1

/-- A callback that reports a connection still has to set the sender state. -/
def onPcStateChangeCallback (node : Ptr) (state : RtcState) : PeerM (List SenderOp) := do
  let _ ← readNode (some node)
  modifyNode node (setStatus (statusOfRtcState state))
  if state = .connected then pure [.setState .datachannelReady] else pure []

def Accepts (msg : P2PSignalMessage) (c : P2PContext) (p : Ptr) : Prop :=
  msg.type = .streamRequest ∧
    findPeerConnectionNodeByRemoteId c.peerConnectionNodeCaches msg.senderId = some p ∧
    ∃ n, c.peerConnectionNodeCaches.get? p = some n ∧ n.status = .connected ∧ tracksReady n = true

section SetState

variable (now : Int) (st : SenderState) (ctx : P2PRtpMuxContext)

theorem setSenderState_currentState : (setSenderState now st ctx).currentState = max ctx.currentState st := by
  unfold setSenderState
  split
  · next h => exact (max_eq_right (le_of_lt h)).symm
  · next h => exact (max_eq_left (not_lt.mp h)).symm

@[simp] theorem setSenderState_p2pContext : (setSenderState now st ctx).p2pContext = ctx.p2pContext := by
  unfold setSenderState
  split <;> rfl

@[simp] theorem setSenderState_streams : (setSenderState now st ctx).streams = ctx.streams := by
  unfold setSenderState
  split <;> rfl

end SetState

@[simp] theorem after_onPeer {α : Type} (x : PeerM α) (ctx : P2PRtpMuxContext) :
    after (onPeer x) ctx = { ctx with p2pContext := after x ctx.p2pContext } := after_zoom _ _ x ctx

@[simp] theorem value_onPeer {α : Type} (x : PeerM α) (ctx : P2PRtpMuxContext) :
    value (onPeer x) ctx = value x ctx.p2pContext := value_zoom _ _ x ctx

def PeerFrame (w : Permit) (a b : P2PRtpMuxContext) : Prop := Frame w a.p2pContext b.p2pContext

instance (w : Permit) : IsPreorder P2PRtpMuxContext (PeerFrame w) where
  refl := fun a => Frame.refl a.p2pContext
  trans := fun _ _ _ => Frame.trans

section Frames

variable {w : Permit}

theorem frame_onPeer {α : Type} {x : PeerM α} (h : Keeps (Frame w) x) : Keeps (PeerFrame w) (onPeer x) :=
  keeps_zoom (fun _ _ hf => hf) h

theorem frame_setSenderState (now : Int) (st : SenderState) :
    Keeps (PeerFrame w) (modify (setSenderState now st) : SenderM PUnit) := by
  apply keeps_modify
  intro s
  rw [PeerFrame, setSenderState_p2pContext]
  exact Frame.refl _

def SenderOp.permit (env : Env) : SenderOp → Permit
  | .sendDescription _ _ =>
      { Permit.nothing with sent := fun msg => msg.type = .offer ∨ msg.type = .answer }
  | .storeSelected p => { Permit.nothing with selected := fun id => id = some p }
  | .storeStatus p => { Permit.nothing with marked := fun q st => q = p ∧ st = .selected }
  | .initPeerConnection _ => { Permit.nothing with closed := fun _ => env.failsCallback }
  | _ => Permit.nothing

theorem frame_runSenderOp (env : Env) (op : SenderOp) :
    Keeps (PeerFrame (op.permit env)) (runSenderOp env op) := by
  cases op with
  | sendDescription node role =>
      apply frame_onPeer
      refine keeps_bind (frame_sendDescription env node role ?_) (fun _ => keeps_pure _)
      intro msg hm
      change msg.type = .offer ∨ msg.type = .answer
      rw [P2PSignalMessage.type, hm, descriptionBody]
      split
      · exact Or.inl rfl
      · exact Or.inr rfl
  | setState st => exact frame_setSenderState env.now st
  | initPeerConnection pcId =>
      apply frame_onPeer
      exact keeps_bind (frame_initPeerConnection env pcId fun h => h) (fun _ => keeps_pure _)
  | sendProbePackets node =>
      exact frame_onPeer (keeps_bind (frame_sendProbePackets env node) (fun _ => keeps_pure _))
  | storeSelected p =>
      apply frame_onPeer
      exact frame_select rfl
  | storeStatus p =>
      apply frame_onPeer
      exact frame_markSelected ⟨rfl, rfl⟩

theorem frame_onPcStateChangeCallback (node : Ptr) (state : RtcState)
    (hm : w.marked node (statusOfRtcState state)) : Keeps (Frame w) (onPcStateChangeCallback node state) := by
  apply keeps_bind (frame_readNode _)
  intro _
  apply keeps_bind (frame_setStatus node hm)
  intro _
  split
  · exact keeps_pure _
  · exact keeps_pure _

theorem frame_senderConnectRequest (env : Env) (streams : List AVStream) (targetId : Option String)
    (c : P2PContext) (hc : CreatePermit w env c) (hf : env.failsCallback → ∀ pcId, w.closed pcId) :
    Frame w c (after (senderConnectRequest env streams targetId) c) := by
  refine related_bind (frame_findOrCreateNode env targetId targetId c hc ?_) ?_
  · intro hnone _ _ p hp
    rw [hnone] at hp
    cases hp
  · intro found _
    cases found with
    | error ret => exact Frame.refl _
    | ok node =>
        apply keeps_bind (frame_createSendMediaTracks _ _ _ _)
        intro ret
        split
        · exact keeps_pure _
        · apply keeps_bind (frame_createProbeTrack _ _)
          intro ret
          split
          · exact keeps_pure _
          · apply keeps_bind (frame_readNode _)
            intro n
            apply keeps_bind (frame_initPeerConnection _ _ fun h => hf h _)
            intro _
            split
            · exact keeps_throw _
            · exact keeps_bind (frame_setLocalDescription _ _) (fun _ => keeps_pure _)

theorem frame_senderOffer (env : Env) (senderId description : Option String) (c : P2PContext)
    (hc : CreatePermit w env c) : Frame w c (after (senderOffer env senderId description) c) := by
  refine related_bind (frame_findOrCreateNode env senderId senderId c hc ?_) ?_
  · intro hnone _ _ p hp
    rw [hnone] at hp
    cases hp
  · intro found _
    cases found with
    | error ret => exact Frame.refl _
    | ok node =>
        apply keeps_bind (frame_readNode _)
        intro n
        split
        · exact keeps_bind (frame_call fun _ => by trivial) (fun _ => keeps_pure _)
        · exact keeps_pure _

theorem frame_sendStreamReady (env : Env) (receiverId : Option String) (c : P2PContext)
    (h : ∀ streamId, w.sent ⟨c.localId, receiverId, .streamReady streamId⟩) :
    Frame w c (after (sendStreamReady env receiverId) c) := by
  rw [sendStreamReady, after_get_bind]
  split
  · exact Frame.refl c
  · exact keeps_bind (frame_sendSignalMessage env (h _)) (fun _ => keeps_pure _) c

/-- The sender tells the sender of an accepted stream request that the stream is
ready, and unlinks no node. -/
theorem frame_senderHead (env : Env) (streams : List AVStream) (msg : P2PSignalMessage)
    (c : P2PContext) (hh : HandlesPermit w env msg c)
    (hs : ∀ p streamId, Accepts msg c p → w.sent ⟨c.localId, msg.senderId, .streamReady streamId⟩)
    (hw : ∀ p, w.wiped p) : Frame w c (after (senderHead env streams msg) c) := by
  cases hb : msg.body with
  | roomJoined roomId role localId =>
      simp only [senderHead, hb]
      exact keeps_bind (frame_joinRoom env roomId localId (hh.named _ _ _ hb)) (fun _ => keeps_pure _) c
  | connectRequest targetId =>
      have hopens : opens msg := Or.inl (by rw [P2PSignalMessage.type, hb]; rfl)
      simp only [senderHead, hb]
      exact frame_senderConnectRequest env streams targetId c (hh.create hopens) (hh.fails hopens)
  | offer description =>
      have hopens : opens msg := Or.inr (by rw [P2PSignalMessage.type, hb]; rfl)
      simp only [senderHead, hb]
      exact frame_senderOffer env msg.senderId description c (hh.create hopens)
  | answer description =>
      simp only [senderHead, hb]
      exact keeps_bind (frame_handleAnswer _ _) (fun _ => keeps_pure _) c
  | candidate candidate mid =>
      simp only [senderHead, hb]
      refine keeps_bind (frame_handleCandidate _ _ _ ?_) (fun _ => keeps_pure _) c
      rintro pcId cand m rfl rfl
      exact hh.added pcId cand m hb
  | probeRequest probeId packetSize expectedPackets timeoutMs =>
      simp only [senderHead, hb, senderProbeRequest, after_get_bind]
      split
      · exact Frame.refl c
      · exact keeps_bind (frame_setNetworkQuality _ fun _ _ => Or.inr (hw _)) (fun _ => keeps_pure _) c
  | streamRequest streamId =>
      simp only [senderHead, hb, senderStreamRequest, after_get_bind]
      cases hf : findPeerConnectionNodeByRemoteId c.peerConnectionNodeCaches msg.senderId with
      | none => exact Frame.refl c
      | some p =>
          refine related_bind (frame_readNode _ c) ?_
          intro n hv
          rw [readNode_after]
          split
          · exact Frame.refl c
          · next hstatus =>
              split
              · exact Frame.refl c
              · next htracks =>
                  refine related_bind (frame_sendStreamReady env _ c ?_) (fun _ _ => Frame.refl _)
                  intro streamId
                  refine hs p streamId ⟨?_, hf, n, readNode_value hv, ?_, ?_⟩
                  · rw [P2PSignalMessage.type, hb]
                    rfl
                  · exact Decidable.not_not.mp hstatus
                  · simpa using htracks
  | _ =>
      simp only [senderHead, hb]
      exact Frame.refl c

end Frames

inductive Planned (c : P2PContext) (msg : P2PSignalMessage) : List SenderOp → Prop
  | nothing : Planned c msg []
  | roomJoined : msg.type = .roomJoined → Planned c msg [.setState .waitingForReceiver]
  | connectRequest (p : Ptr) : msg.type = .connectRequest →
      Planned c msg [.sendDescription p "offer", .setState .signaling]
  | offer (pcId : Int) : msg.type = .offer →
      Planned c msg [.setState .signaling, .initPeerConnection pcId]
  | emptyOffer (pcId : Int) : msg.type = .offer → Planned c msg [.initPeerConnection pcId]
  | probeRequest (p : Ptr) : msg.type = .probeRequest →
      Planned c msg [.setState .probing, .sendProbePackets p]
  | streamRequest (p : Ptr) : Accepts msg c p →
      Planned c msg [.setState .streaming, .storeSelected p, .storeStatus p]
  | error : msg.type = .error → Planned c msg [.setState .error]

variable {plan : SenderPlan} {c : P2PContext} {env : Env}

theorem senderConnectRequest_plan {streams : List AVStream} {targetId : Option String}
    (h : value (senderConnectRequest env streams targetId) c = some plan) :
    plan.2 = [] ∨ ∃ p, plan.2 = [.sendDescription p "offer", .setState .signaling] := by
  obtain ⟨found, _, h⟩ := value_bind_some h
  cases found with
  | error ret =>
      cases h
      exact Or.inl rfl
  | ok node =>
      obtain ⟨media, _, h⟩ := value_bind_some h
      cases media with
      | some code =>
          cases h
          exact Or.inl rfl
      | none =>
          obtain ⟨probe, _, h⟩ := value_bind_some h
          cases probe with
          | some code =>
              cases h
              exact Or.inl rfl
          | none =>
              obtain ⟨n, _, h⟩ := value_bind_some h
              obtain ⟨_, _, h⟩ := value_bind_some h
              cases node with
              | none => cases h
              | some p =>
                  obtain ⟨_, _, h⟩ := value_bind_some h
                  cases h
                  exact Or.inr ⟨p, rfl⟩

theorem senderOffer_plan {senderId description : Option String}
    (h : value (senderOffer env senderId description) c = some plan) :
    plan.2 = [] ∨ ∃ pcId, plan.2 = [.setState .signaling, .initPeerConnection pcId] ∨
      plan.2 = [.initPeerConnection pcId] := by
  obtain ⟨found, _, h⟩ := value_bind_some h
  cases found with
  | error ret =>
      cases h
      exact Or.inl rfl
  | ok node =>
      obtain ⟨n, _, h⟩ := value_bind_some h
      cases description with
      | none =>
          cases h
          exact Or.inr ⟨n.pcId, Or.inr rfl⟩
      | some sdp =>
          rw [value_call_bind] at h
          cases h
          exact Or.inr ⟨n.pcId, Or.inl rfl⟩

theorem senderStreamRequest_plan {msg : P2PSignalMessage} (ht : msg.type = .streamRequest)
    (h : value (senderStreamRequest env msg.senderId) c = some plan) : plan.2 = [] ∨ ∃ p, Accepts msg c p ∧
      plan.2 = [.setState .streaming, .storeSelected p, .storeStatus p] := by
  rw [senderStreamRequest, value_get_bind] at h
  cases hf : findPeerConnectionNodeByRemoteId c.peerConnectionNodeCaches msg.senderId with
  | none =>
      rw [hf] at h
      cases h
      exact Or.inl rfl
  | some p =>
      rw [hf] at h
      obtain ⟨n, hn, h⟩ := value_bind_some h
      split at h
      · cases h
        exact Or.inl rfl
      · next hstatus =>
          split at h
          · cases h
            exact Or.inl rfl
          · next htracks =>
              obtain ⟨_, _, h⟩ := value_bind_some h
              cases h
              refine Or.inr ⟨p, ⟨ht, hf, n, readNode_value hn, ?_, ?_⟩, rfl⟩
              · exact Decidable.not_not.mp hstatus
              · simpa using htracks

theorem senderHead_planned {streams : List AVStream} {msg : P2PSignalMessage}
    (h : value (senderHead env streams msg) c = some plan) : Planned c msg plan.2 := by
  have htype : ∀ body, msg.body = body → msg.type = body.type := fun body hb => by
    rw [P2PSignalMessage.type, hb]
  cases hb : msg.body with
  | roomJoined roomId role localId =>
      simp only [senderHead, hb] at h
      obtain ⟨_, _, h⟩ := value_bind_some h
      cases h
      exact .roomJoined (htype _ hb)
  | connectRequest targetId =>
      simp only [senderHead, hb] at h
      rcases senderConnectRequest_plan h with hp | ⟨p, hp⟩
      · rw [hp]
        exact .nothing
      · rw [hp]
        exact .connectRequest p (htype _ hb)
  | offer description =>
      simp only [senderHead, hb] at h
      rcases senderOffer_plan h with hp | ⟨pcId, hp | hp⟩
      · rw [hp]
        exact .nothing
      · rw [hp]
        exact .offer pcId (htype _ hb)
      · rw [hp]
        exact .emptyOffer pcId (htype _ hb)
  | answer description =>
      simp only [senderHead, hb] at h
      obtain ⟨_, _, h⟩ := value_bind_some h
      cases h
      exact .nothing
  | candidate candidate mid =>
      simp only [senderHead, hb] at h
      obtain ⟨_, _, h⟩ := value_bind_some h
      cases h
      exact .nothing
  | probeRequest probeId packetSize expectedPackets timeoutMs =>
      simp only [senderHead, hb, senderProbeRequest, value_get_bind] at h
      split at h
      · cases h
        exact .nothing
      · obtain ⟨_, _, h⟩ := value_bind_some h
        cases h
        exact .probeRequest _ (htype _ hb)
  | streamRequest streamId =>
      simp only [senderHead, hb] at h
      rcases senderStreamRequest_plan (htype _ hb) h with hp | ⟨p, hacc, hp⟩
      · rw [hp]
        exact .nothing
      · rw [hp]
        exact .streamRequest p hacc
  | error errorCode errorMsg =>
      simp only [senderHead, hb] at h
      cases h
      exact .error (htype _ hb)
  | _ =>
      simp only [senderHead, hb] at h
      cases h
      exact .nothing

end P2PFFmpeg.Sender
