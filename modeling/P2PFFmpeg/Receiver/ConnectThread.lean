import P2PFFmpeg.Receiver.Handler

namespace P2PFFmpeg.Receiver

open Library Library.Program Message Peer

/-- Where the connect thread is in p2p_pending_for_probing_node, called from
p2p_connect_thread_fn. Every read of current_state and every store another
thread can see is a step of its own; a loop over the nodes is one step. -/
inductive ConnectPc
  | start
  | whileHead
  | checkTimeout
  | checkError
  | switch
  | initProbes
  | sendProbes
  | retryForever
  | setProbing
  | enterProbing
  | pollHead
  | poll
  | afterPolling
  | setProbeCompleted
  | countAvailable
  | selectBest
  | storeSelected (bestNode : Ptr)
  | storeStatus (bestNode : Ptr)
  | setRequestingStream
  | requestStream
  | setError (ret : Int)
  | returned (ret : Int)
  | clearActive
  | exited
  deriving DecidableEq, Repr

structure ConnectThread where
  pc : ConnectPc
  startTime : Int
  probeStartTime : Int

def ConnectThread.goto (t : ConnectThread) (pc : ConnectPc) : ConnectThread := { t with pc := pc }

def probeTimeout : Int := 30 * 1000000

def initProbe (env : Env) (curr : Ptr) (n : PeerConnectionNode) (connectedNodes : Nat) : PeerM Nat :=
  if n.status = .connected then do
    modifyNode curr (setNetworkQuality fun _ => probeDataInit env.now)
    pure (connectedNodes + 1)
  else pure connectedNodes

def requestEnv (env : Env) (curr : Ptr) : Env :=
  { env with
    allocMessage := env.allocProbeRequest curr
    sendMessage := env.sendProbeRequest curr }

def sendProbe (env : Env) (curr : Ptr) (n : PeerConnectionNode) (probeSent : Nat) : PeerM Nat :=
  if n.status = .connected then do
    let ret ← sendProbeRequestToPublisher (requestEnv env curr) curr
    if 0 ≤ ret then pure (probeSent + 1) else pure probeSent
  else pure probeSent

def completeProbe (curr : Ptr) : PeerM Unit :=
  modifyNode curr (setNetworkQuality fun data => { data with phase := .complete })

def forceComplete (curr : Ptr) (n : PeerConnectionNode) (_ : Unit) : PeerM Unit :=
  if n.status = .connected ∧ n.networkQuality.phase ≠ .complete then completeProbe curr else pure ()

def pollNode (env : Env) (curr : Ptr) (n : PeerConnectionNode) (count : Nat × Nat) :
    PeerM (Nat × Nat) :=
  if n.status = .connected then
    if n.networkQuality.phase = .complete then pure (count.1 + 1, count.2 + 1)
    else if 0 < n.networkQuality.timeoutMs ∧ 0 < n.networkQuality.probeStartTime ∧
        n.networkQuality.timeoutMs ≤ (env.now - n.networkQuality.probeStartTime).tdiv 1000 then do
      completeProbe curr
      pure (count.1 + 1, count.2 + 1)
    else pure (count.1 + 1, count.2)
  else pure count

def countNode (_ : Ptr) (n : PeerConnectionNode) (available : Nat) : PeerM Nat :=
  if n.status = .connected ∧ n.networkQuality.phase = .complete then pure (available + 1)
  else pure available

def walk {α : Type} (body : Ptr → PeerConnectionNode → α → PeerM α) (a : α) : PeerM α := do
  let ctx ← get
  walkNodes body ctx.peerConnectionNodeCaches.addrs a

def dispatch : ReceiverState → ConnectPc
  | .datachannelReady => .initProbes
  | .probing => .enterProbing
  | .probeCompleted => .countAvailable
  | .requestingStream => .requestStream
  | _ => .whileHead

def connectStep (env : Env) (t : ConnectThread) : ReceiverM ConnectThread := do
  let ctx ← get
  match t.pc with
  | .start => pure { t with pc := .whileHead, startTime := env.now }
  | .whileHead =>
      pure (t.goto (if ctx.currentState = .streaming then .returned 0 else .checkTimeout))
  | .checkTimeout =>
      pure (t.goto (if ctx.waitTimeout * 1000000 < env.now - t.startTime
        then .returned averrorEtimedout else .checkError))
  | .checkError =>
      pure (t.goto (if ctx.currentState = .error then .returned averrorExternal else .switch))
  | .switch => pure (t.goto (dispatch ctx.currentState))
  | .initProbes => do
      let connectedNodes ← onPeer (walk (initProbe env) 0)
      pure (t.goto (if connectedNodes = 0 then .whileHead else .sendProbes))
  | .sendProbes => do
      let probeSent ← onPeer (walk (sendProbe env) 0)
      pure (t.goto (if probeSent = 0 then .retryForever else .setProbing))
  | .retryForever => pure t
  | .setProbing => do
      modify (p2pSetReceiverState env.now .probing)
      pure (t.goto .whileHead)
  | .enterProbing => pure { t with pc := .pollHead, probeStartTime := ctx.stateEnterTime }
  | .pollHead => pure (t.goto (if ctx.currentState = .probing then .poll else .afterPolling))
  | .poll =>
      if probeTimeout < env.now - t.probeStartTime then do
        onPeer (walk forceComplete ())
        pure (t.goto .afterPolling)
      else do
        let count ← onPeer (walk (pollNode env) (0, 0))
        pure (t.goto (if count.1 = 0 then .setError averrorEinval
          else if count.1 ≤ count.2 then .afterPolling else .pollHead))
  | .afterPolling =>
      pure (t.goto (if ctx.currentState = .probing then .setProbeCompleted else .whileHead))
  | .setProbeCompleted => do
      modify (p2pSetReceiverState env.now .probeCompleted)
      pure (t.goto .whileHead)
  | .countAvailable => do
      let available ← onPeer (walk countNode 0)
      pure (t.goto (if available = 0 then .setError averrorEinval else .selectBest))
  | .selectBest => do
      let best ← onPeer selectBestNode
      pure (t.goto (match best with
        | none => .setError averrorEinval
        | some p => .storeSelected p))
  | .storeSelected p => do
      onPeer (modify fun c => { c with selectedNode := some p })
      pure (t.goto (.storeStatus p))
  | .storeStatus p => do
      onPeer (markSelected p)
      pure (t.goto .setRequestingStream)
  | .setRequestingStream => do
      modify (p2pSetReceiverState env.now .requestingStream)
      pure (t.goto .whileHead)
  | .requestStream =>
      match ctx.p2pContext.selectedNode with
      | none => pure (t.goto (.setError averrorEinval))
      | some p => do
          let ret ← onPeer (sendStreamRequest env (some p))
          pure (t.goto (if 0 ≤ ret then .whileHead else .setError ret))
  | .setError ret => do
      modify (p2pSetReceiverState env.now .error)
      pure (t.goto (.returned ret))
  | .returned ret => do
      doWhen (ret = 0) (modify fun c => { c with p2pConnectReady := true })
      pure (t.goto .clearActive)
  | .clearActive => do
      modify fun c => { c with p2pConnectThreadActive := false }
      pure (t.goto .exited)
  | .exited => pure t

inductive ConnectEdge (s : P2PRtpDemuxContext) : ConnectPc → ConnectPc → Prop
  | start : ConnectEdge s .start .whileHead
  | streaming : s.currentState = .streaming → ConnectEdge s .whileHead (.returned 0)
  | notStreaming : s.currentState ≠ .streaming → ConnectEdge s .whileHead .checkTimeout
  | timeout : ConnectEdge s .checkTimeout (.returned averrorEtimedout)
  | inTime : ConnectEdge s .checkTimeout .checkError
  | failed : s.currentState = .error → ConnectEdge s .checkError (.returned averrorExternal)
  | notFailed : s.currentState ≠ .error → ConnectEdge s .checkError .switch
  | dispatch : ConnectEdge s .switch (dispatch s.currentState)
  | noneConnected : ConnectEdge s .initProbes .whileHead
  | connected : ConnectEdge s .initProbes .sendProbes
  | noneSent : ConnectEdge s .sendProbes .retryForever
  | sent : ConnectEdge s .sendProbes .setProbing
  | retry : ConnectEdge s .retryForever .retryForever
  | probing : ConnectEdge s .setProbing .whileHead
  | enter : ConnectEdge s .enterProbing .pollHead
  | polling : s.currentState = .probing → ConnectEdge s .pollHead .poll
  | notProbing : s.currentState ≠ .probing → ConnectEdge s .pollHead .afterPolling
  | polled : ConnectEdge s .poll .afterPolling
  | pollAgain : ConnectEdge s .poll .pollHead
  | pollEmpty : ConnectEdge s .poll (.setError averrorEinval)
  | stillProbing : s.currentState = .probing → ConnectEdge s .afterPolling .setProbeCompleted
  | leftProbing : s.currentState ≠ .probing → ConnectEdge s .afterPolling .whileHead
  | completed : ConnectEdge s .setProbeCompleted .whileHead
  | noneAvailable : ConnectEdge s .countAvailable (.setError averrorEinval)
  | available : ConnectEdge s .countAvailable .selectBest
  | noneBest : ConnectEdge s .selectBest (.setError averrorEinval)
  | best (p : Ptr) : p ∈ s.p2pContext.peerConnectionNodeCaches.addrs →
      ConnectEdge s .selectBest (.storeSelected p)
  | selected (p : Ptr) : ConnectEdge s (.storeSelected p) (.storeStatus p)
  | status (p : Ptr) : ConnectEdge s (.storeStatus p) .setRequestingStream
  | requesting : ConnectEdge s .setRequestingStream .whileHead
  | noneSelected : ConnectEdge s .requestStream (.setError averrorEinval)
  | requested : ConnectEdge s .requestStream .whileHead
  | requestFailed (ret : Int) : ret < 0 → ConnectEdge s .requestStream (.setError ret)
  | error (ret : Int) : ConnectEdge s (.setError ret) (.returned ret)
  | returned (ret : Int) : ConnectEdge s (.returned ret) .clearActive
  | cleared : ConnectEdge s .clearActive .exited
  | exited : ConnectEdge s .exited .exited

theorem connectStep_edge {env : Env} {t t' : ConnectThread} {s : P2PRtpDemuxContext}
    (h : value (connectStep env t) s = some t') : ConnectEdge s t.pc t'.pc := by
  obtain ⟨pc, startTime, probeStartTime⟩ := t
  rw [connectStep, value_get_bind] at h
  cases pc with
  | start =>
      cases h
      exact .start
  | whileHead =>
      cases h
      simp only [ConnectThread.goto]
      split
      · next hs => exact .streaming hs
      · next hs => exact .notStreaming hs
  | checkTimeout =>
      cases h
      simp only [ConnectThread.goto]
      split
      · exact .timeout
      · exact .inTime
  | checkError =>
      cases h
      simp only [ConnectThread.goto]
      split
      · next hs => exact .failed hs
      · next hs => exact .notFailed hs
  | switch =>
      cases h
      exact .dispatch
  | initProbes =>
      obtain ⟨connectedNodes, _, h⟩ := value_bind_some h
      cases h
      simp only [ConnectThread.goto]
      split
      · exact .noneConnected
      · exact .connected
  | sendProbes =>
      obtain ⟨probeSent, _, h⟩ := value_bind_some h
      cases h
      simp only [ConnectThread.goto]
      split
      · exact .noneSent
      · exact .sent
  | retryForever =>
      cases h
      exact .retry
  | setProbing =>
      cases h
      exact .probing
  | enterProbing =>
      cases h
      exact .enter
  | pollHead =>
      cases h
      simp only [ConnectThread.goto]
      split
      · next hs => exact .polling hs
      · next hs => exact .notProbing hs
  | poll =>
      simp only at h
      split at h
      · obtain ⟨_, _, h⟩ := value_bind_some h
        cases h
        exact .polled
      · obtain ⟨count, _, h⟩ := value_bind_some h
        cases h
        simp only [ConnectThread.goto]
        split
        · exact .pollEmpty
        · split
          · exact .polled
          · exact .pollAgain
  | afterPolling =>
      cases h
      simp only [ConnectThread.goto]
      split
      · next hs => exact .stillProbing hs
      · next hs => exact .leftProbing hs
  | setProbeCompleted =>
      cases h
      exact .completed
  | countAvailable =>
      obtain ⟨available, _, h⟩ := value_bind_some h
      cases h
      simp only [ConnectThread.goto]
      split
      · exact .noneAvailable
      · exact .available
  | selectBest =>
      obtain ⟨best, hbest, h⟩ := value_bind_some h
      cases h
      cases best with
      | none => exact .noneBest
      | some p =>
          rw [value_onPeer] at hbest
          exact .best p (selectBestNode_linked hbest)
  | storeSelected p =>
      obtain ⟨_, _, h⟩ := value_bind_some h
      cases h
      exact .selected p
  | storeStatus p =>
      obtain ⟨_, _, h⟩ := value_bind_some h
      cases h
      exact .status p
  | setRequestingStream =>
      cases h
      exact .requesting
  | requestStream =>
      simp only at h
      split at h
      · cases h
        exact .noneSelected
      · obtain ⟨ret, _, h⟩ := value_bind_some h
        cases h
        simp only [ConnectThread.goto]
        split
        · exact .requested
        · next hr => exact .requestFailed ret (Int.not_le.mp hr)
  | setError ret =>
      cases h
      exact .error ret
  | returned ret =>
      obtain ⟨_, _, h⟩ := value_bind_some h
      cases h
      exact .returned ret
  | clearActive =>
      cases h
      exact .cleared
  | exited =>
      cases h
      exact .exited

def ConnectPc.sets : ConnectPc → Option ReceiverState
  | .setProbing => some .probing
  | .setProbeCompleted => some .probeCompleted
  | .setRequestingStream => some .requestingStream
  | .setError _ => some .error
  | _ => none

theorem connectStep_storeSelected {env : Env} {t : ConnectThread} {p : Ptr}
    (h : t.pc = .storeSelected p) (s : P2PRtpDemuxContext) : after (connectStep env t) s =
      { s with p2pContext := { s.p2pContext with selectedNode := some p } } := by
  simp only [connectStep, after_get_bind, h, after_bind_pure, after_onPeer]
  rfl

theorem connectStep_currentState (env : Env) (t : ConnectThread) (s : P2PRtpDemuxContext) :
    (after (connectStep env t) s).currentState = raised s.currentState t.pc.sets := by
  obtain ⟨pc, startTime, probeStartTime⟩ := t
  rw [connectStep, after_get_bind]
  cases pc with
  | setProbing | setProbeCompleted | setRequestingStream | setError =>
      exact setReceiverState_currentState _ _ _
  | initProbes | sendProbes | countAvailable | selectBest | storeSelected | storeStatus =>
      simp only [after_bind_pure, after_onPeer, ConnectPc.sets, raised]
  | poll =>
      simp only [ConnectPc.sets, raised]
      split <;> simp only [after_bind_pure, after_onPeer]
  | requestStream =>
      simp only [ConnectPc.sets, raised]
      split
      · rfl
      · simp only [after_bind_pure, after_onPeer]
  | returned ret =>
      simp only [ConnectPc.sets, raised, doWhen]
      split <;> rfl
  | _ => rfl

theorem connectStep_p2pConnectReady (env : Env) (t : ConnectThread) (s : P2PRtpDemuxContext) :
    (after (connectStep env t) s).p2pConnectReady =
      (s.p2pConnectReady || decide (t.pc = .returned 0)) := by
  obtain ⟨pc, startTime, probeStartTime⟩ := t
  rw [connectStep, after_get_bind]
  cases pc with
  | setProbing | setProbeCompleted | setRequestingStream | setError =>
      refine (setReceiverState_p2pConnectReady _ _ _).trans ?_
      simp
  | initProbes | sendProbes | countAvailable | selectBest | storeSelected | storeStatus =>
      simp only [after_bind_pure, after_onPeer]
      simp
  | poll =>
      simp only
      split <;> simp only [after_bind_pure, after_onPeer] <;> simp
  | requestStream =>
      simp only
      split
      · simp
      · simp only [after_bind_pure, after_onPeer]
        simp
  | returned ret =>
      by_cases hr : ret = 0
      · subst hr
        simp only [doWhen, decide_true, Bool.or_true]
        rfl
      · simp only [doWhen, hr, decide_false, Bool.or_false, ConnectPc.returned.injEq]
        rfl
  | _ =>
      simp only [reduceCtorEq, decide_false, Bool.or_false]
      rfl

section Frames

variable {w : Permit} {s : P2PRtpDemuxContext}

theorem frame_walk {α : Type} {body : Ptr → PeerConnectionNode → α → PeerM α}
    (hbody : ∀ p n a, Keeps (Frame w) (body p n a)) (a : α) : Keeps (PeerFrame w) (onPeer (walk body a)) := by
  apply frame_onPeer
  apply keeps_get_bind
  intro ctx
  exact frame_walkNodes hbody _ _

theorem frame_initProbe (env : Env) (hw : ∀ p, w.wiped p) (curr : Ptr) (n : PeerConnectionNode)
    (k : Nat) : Keeps (Frame w) (initProbe env curr n k) := by
  unfold initProbe
  split
  · exact keeps_bind (frame_setNetworkQuality _ fun _ _ => Or.inr (hw curr)) (fun _ => keeps_pure _)
  · exact keeps_pure _

theorem frame_sendProbe (env : Env) (curr : Ptr) (n : PeerConnectionNode) (k : Nat)
    (h : ∀ msg, msg.type = .probeRequest → w.sent msg) (hw : w.wiped curr) :
    Keeps (Frame w) (sendProbe env curr n k) := by
  unfold sendProbe
  split
  · apply keeps_bind (frame_sendProbeRequestToPublisher _ curr h hw)
    intro ret
    split
    · exact keeps_pure _
    · exact keeps_pure _
  · exact keeps_pure _

theorem frame_completeProbe (curr : Ptr) : Keeps (Frame w) (completeProbe curr) :=
  frame_setNetworkQuality _ fun _ _ => Or.inl (Or.inl rfl)

theorem frame_forceComplete (curr : Ptr) (n : PeerConnectionNode) (u : Unit) :
    Keeps (Frame w) (forceComplete curr n u) := by
  unfold forceComplete
  split
  · exact frame_completeProbe curr
  · exact keeps_pure _

theorem frame_pollNode (env : Env) (curr : Ptr) (n : PeerConnectionNode) (count : Nat × Nat) :
    Keeps (Frame w) (pollNode env curr n count) := by
  unfold pollNode
  split
  · split
    · exact keeps_pure _
    · split
      · exact keeps_bind (frame_completeProbe curr) (fun _ => keeps_pure _)
      · exact keeps_pure _
  · exact keeps_pure _

theorem frame_countNode (curr : Ptr) (n : PeerConnectionNode) (k : Nat) :
    Keeps (Frame w) (countNode curr n k) := by
  unfold countNode
  split
  · exact keeps_pure _
  · exact keeps_pure _

/-- The thread selects, marks and initialises metrics only where its program
counter says so. -/
theorem frame_connectStep (env : Env) (t : ConnectThread)
    (hs : ∀ p, t.pc = .storeSelected p → w.selected (some p))
    (hm : ∀ p, t.pc = .storeStatus p → w.marked p .selected)
    (hw : t.pc = .initProbes ∨ t.pc = .sendProbes → ∀ p, w.wiped p)
    (hr : ∀ msg, msg.type = .probeRequest ∨ msg.type = .streamRequest → w.sent msg) :
    Keeps (PeerFrame w) (connectStep env t) := by
  obtain ⟨pc, startTime, probeStartTime⟩ := t
  apply keeps_get_bind
  intro ctx
  cases pc with
  | setProbing | setProbeCompleted | setRequestingStream | setError =>
      exact keeps_bind (frame_setReceiverState _ _) (fun _ => keeps_pure _)
  | initProbes =>
      exact keeps_bind (frame_walk (frame_initProbe env (hw (Or.inl rfl))) _) (fun _ => keeps_pure _)
  | sendProbes =>
      refine keeps_bind (frame_walk (fun p n a => ?_) _) (fun _ => keeps_pure _)
      exact frame_sendProbe env p n a (fun msg h => hr msg (Or.inl h)) (hw (Or.inr rfl) p)
  | poll =>
      simp only
      split
      · exact keeps_bind (frame_walk frame_forceComplete _) (fun _ => keeps_pure _)
      · exact keeps_bind (frame_walk (frame_pollNode env) _) (fun _ => keeps_pure _)
  | countAvailable => exact keeps_bind (frame_walk frame_countNode _) (fun _ => keeps_pure _)
  | selectBest => exact keeps_bind (frame_onPeer frame_selectBestNode) (fun _ => keeps_pure _)
  | storeSelected p =>
      exact keeps_bind (frame_onPeer (frame_select (hs p rfl))) (fun _ => keeps_pure _)
  | storeStatus p =>
      exact keeps_bind (frame_onPeer (frame_markSelected (hm p rfl))) (fun _ => keeps_pure _)
  | requestStream =>
      simp only
      split
      · exact keeps_pure _
      · refine keeps_bind (frame_onPeer ?_) (fun _ => keeps_pure _)
        exact frame_sendStreamRequest env _ (fun msg h => hr msg (Or.inr h))
  | returned ret =>
      refine keeps_bind (keeps_doWhen _ ?_) (fun _ => keeps_pure _)
      exact keeps_modify (fun a => Frame.refl a.p2pContext)
  | clearActive =>
      refine keeps_bind (keeps_modify ?_) (fun _ => keeps_pure _)
      exact fun a => Frame.refl a.p2pContext
  | _ => exact keeps_pure _

end Frames

end P2PFFmpeg.Receiver
