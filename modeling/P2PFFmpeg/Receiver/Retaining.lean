import P2PFFmpeg.Peer.Invariant
import P2PFFmpeg.Receiver.Runs

namespace P2PFFmpeg.Receiver

open Library Library.Program Library.Concurrent Message Peer

inductive ConnectPc.Measures (env : Env) :
    ConnectPc → (NetworkQualityMetrics → NetworkQualityMetrics) → Prop
  | wipe : Measures env .initProbes fun _ => probeDataInit env.now
  | request : Measures env .sendProbes fun data =>
      { data with
        expectedPackets := totalPackets
        timeoutMs := probeTimeoutMs
        probeStartTime := env.now }
  | complete : Measures env .poll fun data => { data with phase := .complete }
  | score : Measures env .selectBest recordScore

def Callback.Measures : Callback → Ptr → (NetworkQualityMetrics → NetworkQualityMetrics) → Prop
  | .stateChange env node state, p, f => state = .connected ∧ p = node ∧ f = fun _ => probeDataInit env.now
  | .event e, p, f => e.measures p f
  | .joinRoom _, _, _ => False

def Measures (s : State) : Label → Ptr → (NetworkQualityMetrics → NetworkQualityMetrics) → Prop
  | .callback callback, p, f => callback.Measures p f
  | .thread env, _, f => s.thread.pc.Measures env f
  | _, _, _ => False

def PeerRetains (P : Ptr → PeerConnectionNode → Prop) (bound : Ptr) (a b : P2PRtpDemuxContext) : Prop :=
  Retains P bound a.p2pContext b.p2pContext

variable {P : Ptr → PeerConnectionNode → Prop} {bound : Ptr}
  {measured : Ptr → (NetworkQualityMetrics → NetworkQualityMetrics) → Prop}

instance : IsPreorder P2PRtpDemuxContext (PeerRetains P bound) where
  refl := fun a => Retains.refl a.p2pContext
  trans := fun _ _ _ h g => Trans.trans (r := Retains P bound) (s := Retains P bound) h g

theorem retains_onPeer {α : Type} {x : PeerM α} (h : Keeps (Retains P bound) x) :
    Keeps (PeerRetains P bound) (onPeer x) :=
  keeps_zoom (fun _ _ hr => hr) h

theorem retains_setReceiverState (now : Int) (st : ReceiverState) :
    Keeps (PeerRetains P bound) (modify (p2pSetReceiverState now st) : ReceiverM PUnit) := by
  apply keeps_modify
  intro s
  exact retains_of_nodes (by rw [setReceiverState_p2pContext])

theorem retains_walk {α : Type} {body : Ptr → PeerConnectionNode → α → PeerM α}
    (hbody : ∀ p n a, Keeps (Retains P bound) (body p n a)) (a : α) :
    Keeps (PeerRetains P bound) (onPeer (walk body a)) := by
  apply retains_onPeer
  apply keeps_get_bind
  intro ctx
  exact keeps_walkNodes hbody _ _

variable (ht : Tolerates P bound (fun _ => True) measured)

include ht

theorem retains_receiverConnectRequest (env : Env) (senderId targetId : Option String) :
    Keeps (Retains P bound) (receiverConnectRequest env senderId targetId) := by
  apply keeps_bind (retains_findOrCreateNode ht _ _ _)
  intro found
  cases found with
  | error ret => exact keeps_pure _
  | ok node =>
      apply keeps_bind (retains_readNode _)
      intro n
      exact keeps_bind (retains_initPeerConnection _ _) (fun _ => keeps_pure _)

theorem retains_receiverOffer (env : Env) (senderId description : Option String) :
    Keeps (Retains P bound) (receiverOffer env senderId description) := by
  apply keeps_bind (retains_findOrCreateNode ht _ _ _)
  intro found
  cases found with
  | error ret => exact keeps_pure _
  | ok node =>
      cases node with
      | none => exact keeps_pure _
      | some p =>
          cases description with
          | none => exact keeps_pure _
          | some sdp =>
              apply keeps_bind (retains_readNode _)
              intro n
              apply keeps_bind (retains_call _)
              intro _
              apply keeps_bind (retains_initPeerConnection _ _)
              intro _
              exact keeps_bind (retains_setLocalDescription _ _) (fun _ => keeps_pure _)

omit ht in
theorem retains_receiverStreamReady (senderId : Option String) :
    Keeps (Retains P bound) (receiverStreamReady senderId) := by
  apply keeps_get_bind
  intro ctx
  split
  · split
    · exact keeps_pure _
    · exact keeps_pure _
  · exact keeps_pure _

theorem retains_receiverHead (env : Env) (msg : P2PSignalMessage) :
    Keeps (Retains P bound) (receiverHead env msg) := by
  cases hb : msg.body with
  | roomJoined roomId role localId =>
      simp only [receiverHead, hb]
      exact keeps_bind (retains_joinRoom _ _ _) (fun _ => keeps_pure _)
  | connectRequest targetId =>
      simp only [receiverHead, hb]
      exact retains_receiverConnectRequest ht _ _ _
  | offer description =>
      simp only [receiverHead, hb]
      exact retains_receiverOffer ht _ _ _
  | answer description =>
      simp only [receiverHead, hb]
      exact keeps_bind (retains_handleAnswer _ _) (fun _ => keeps_pure _)
  | candidate candidate mid =>
      simp only [receiverHead, hb]
      exact keeps_bind (retains_handleCandidate _ _ _) (fun _ => keeps_pure _)
  | streamReady streamId =>
      simp only [receiverHead, hb]
      exact retains_receiverStreamReady _
  | _ =>
      simp only [receiverHead, hb]
      exact keeps_pure _

omit ht in
theorem retains_runReceiverOp (env : Env) (op : ReceiverOp) :
    Keeps (PeerRetains P bound) (runReceiverOp env op) := by
  cases op with
  | setState st => exact retains_setReceiverState _ _
  | sendDescription node role =>
      exact retains_onPeer (keeps_bind (retains_sendDescription _ _ _) (fun _ => keeps_pure _))

theorem retains_onPcStateChangeCallback (env : Env) (node : Ptr) (state : RtcState)
    (hm : state = .connected → measured node fun _ => probeDataInit env.now) :
    Keeps (Retains P bound) (onPcStateChangeCallback env node state) := by
  apply keeps_bind (retains_readNode _)
  intro _
  apply keeps_bind (retains_setStatus ht _ _)
  intro _
  split
  · next hstate =>
      exact keeps_bind (retains_setNetworkQuality ht (hm hstate)) (fun _ => keeps_pure _)
  · exact keeps_pure _

theorem retains_initProbe (env : Env) (hm : ∀ p, measured p fun _ => probeDataInit env.now) (curr : Ptr)
    (n : PeerConnectionNode) (k : Nat) : Keeps (Retains P bound) (initProbe env curr n k) := by
  unfold initProbe
  split
  · exact keeps_bind (retains_setNetworkQuality ht (hm curr)) (fun _ => keeps_pure _)
  · exact keeps_pure _

theorem retains_sendProbe (env : Env) (curr : Ptr) (n : PeerConnectionNode) (k : Nat)
    (hm : measured curr fun data =>
      { data with
        expectedPackets := totalPackets
        timeoutMs := probeTimeoutMs
        probeStartTime := env.now }) :
    Keeps (Retains P bound) (sendProbe env curr n k) := by
  unfold sendProbe
  split
  · apply keeps_bind (retains_sendProbeRequestToPublisher ht (requestEnv env curr) hm)
    intro ret
    split
    · exact keeps_pure _
    · exact keeps_pure _
  · exact keeps_pure _

theorem retains_completeProbe {curr : Ptr}
    (hm : measured curr fun data => { data with phase := .complete }) :
    Keeps (Retains P bound) (completeProbe curr) :=
  retains_setNetworkQuality ht hm

theorem retains_forceComplete {curr : Ptr} (n : PeerConnectionNode) (u : Unit)
    (hm : measured curr fun data => { data with phase := .complete }) :
    Keeps (Retains P bound) (forceComplete curr n u) := by
  unfold forceComplete
  split
  · exact retains_completeProbe ht hm
  · exact keeps_pure _

theorem retains_pollNode (env : Env) {curr : Ptr} (n : PeerConnectionNode) (count : Nat × Nat)
    (hm : measured curr fun data => { data with phase := .complete }) :
    Keeps (Retains P bound) (pollNode env curr n count) := by
  unfold pollNode
  split
  · split
    · exact keeps_pure _
    · split
      · exact keeps_bind (retains_completeProbe ht hm) (fun _ => keeps_pure _)
      · exact keeps_pure _
  · exact keeps_pure _

omit ht in
theorem retains_countNode (curr : Ptr) (n : PeerConnectionNode) (k : Nat) :
    Keeps (Retains P bound) (countNode curr n k) := by
  unfold countNode
  split
  · exact keeps_pure _
  · exact keeps_pure _

theorem retains_connectStep (env : Env) (t : ConnectThread) (hm : ∀ p f, t.pc.Measures env f → measured p f) :
    Keeps (PeerRetains P bound) (connectStep env t) := by
  obtain ⟨pc, startTime, probeStartTime⟩ := t
  apply keeps_get_bind
  intro ctx
  cases pc with
  | setProbing | setProbeCompleted | setRequestingStream | setError =>
      exact keeps_bind (retains_setReceiverState _ _) (fun _ => keeps_pure _)
  | initProbes =>
      refine keeps_bind (retains_walk (retains_initProbe ht env ?_) _) (fun _ => keeps_pure _)
      exact fun p => hm p _ .wipe
  | sendProbes =>
      refine keeps_bind (retains_walk (fun p n a => ?_) _) (fun _ => keeps_pure _)
      exact retains_sendProbe ht env p n a (hm p _ .request)
  | poll =>
      have hcomplete := fun p => hm p _ .complete
      simp only
      split
      · exact keeps_bind (retains_walk (fun p n u => retains_forceComplete ht n u (hcomplete p)) _)
          (fun _ => keeps_pure _)
      · exact keeps_bind (retains_walk (fun p n a => retains_pollNode ht env n a (hcomplete p)) _)
          (fun _ => keeps_pure _)
  | countAvailable => exact keeps_bind (retains_walk retains_countNode _) (fun _ => keeps_pure _)
  | selectBest =>
      refine keeps_bind (retains_onPeer (retains_selectBestNode ht ?_)) (fun _ => keeps_pure _)
      exact fun p => hm p _ .score
  | storeSelected p =>
      exact keeps_bind (retains_onPeer fun _ => retains_of_nodes rfl) (fun _ => keeps_pure _)
  | storeStatus p =>
      exact keeps_bind (retains_onPeer (retains_markSelected ht p)) (fun _ => keeps_pure _)
  | requestStream =>
      simp only
      split
      · exact keeps_pure _
      · exact keeps_bind (retains_onPeer (retains_sendStreamRequest _ _)) (fun _ => keeps_pure _)
  | returned ret =>
      refine keeps_bind (keeps_doWhen _ ?_) (fun _ => keeps_pure _)
      exact keeps_modify (fun a => Retains.refl a.p2pContext)
  | clearActive =>
      refine keeps_bind (keeps_modify ?_) (fun _ => keeps_pure _)
      exact fun a => Retains.refl a.p2pContext
  | _ => exact keeps_pure _

theorem retains_callback (callback : Callback) (hm : ∀ p f, callback.Measures p f → measured p f) :
    Keeps (PeerRetains P bound) callback.run := by
  cases callback with
  | joinRoom now => exact keeps_bind (retains_setReceiverState _ _) (fun _ => keeps_pure _)
  | stateChange env node state =>
      refine retains_onPeer (retains_onPcStateChangeCallback ht env node state ?_)
      exact fun hstate => hm _ _ ⟨hstate, rfl, rfl⟩
  | event event =>
      refine keeps_bind (retains_onPeer ?_) (fun _ => keeps_pure _)
      exact retains_handle ht event (fun _ => trivial) hm

theorem next_retains {s t : State} {l : Label} (h : threads.next s l = some t)
    (hm : ∀ p f, Measures s l p f → measured p f) : Retains P bound s.peer t.peer := by
  change PeerRetains P bound s.context t.context
  cases next_moves h with
  | @message env msg _ hr =>
      rw [hr.context]
      simp only [threads, after_bind_pure]
      exact retains_onPeer (retains_receiverHead ht env msg) s.context
  | @handlerOp env op _ _ hr =>
      rw [hr.context]
      exact retains_runReceiverOp env op s.context
  | @callbackOp env op _ _ hr =>
      rw [hr.context]
      exact retains_runReceiverOp env op s.context
  | @callback event hr =>
      rw [hr.context]
      exact retains_callback ht event hm s.context
  | @thread env hr =>
      rw [hr.context]
      exact retains_connectStep ht env s.thread hm s.context

end P2PFFmpeg.Receiver
