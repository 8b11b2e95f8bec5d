import P2PFFmpeg.Library.Linked
import P2PFFmpeg.Library.Program
import P2PFFmpeg.Signal.Message
import P2PFFmpeg.Util.Error

namespace P2PFFmpeg.Peer

open Library Library.Program Json Message

inductive RtcState
  | new | connecting | connected | disconnected | failed | closed | other
  deriving DecidableEq, Repr

inductive RtcIceState
  | new | checking | connected | completed | failed | disconnected | closed | other
  deriving DecidableEq, Repr

inductive PcCallback
  | localDescription | localCandidate | stateChange | iceStateChange | gatheringStateChange
  | signalingStateChange | dataChannel | track
  deriving DecidableEq, Repr

inductive ChannelCallback
  | opened | error | closed | message
  deriving DecidableEq, Repr

inductive PeerConnectionStatus
  | disconnected | connecting | connected | networkProbing | selected | closed | failed
  deriving DecidableEq, Repr

inductive PeerConnectionTrackType
  | unknown | video | audio | dataChannel | probeChannel
  deriving DecidableEq, Repr

inductive ProbingPhase
  | slowStart | bandwidth | verification | complete
  deriving DecidableEq, Repr

/-- Times are in microseconds and round trips in milliseconds; doubles are exact
rationals, and a minimum of none is INFINITY. -/
structure NetworkQualityMetrics where
  startTime : Int
  lastRecvTime : Int
  packetsSent : Int
  packetsReceived : Int
  rttSum : ℚ
  rttCount : Int
  bytesReceived : Nat
  packetLossRate : ℚ
  bandwidthKbps : ℚ
  iceConnectivityScore : Int
  finalScore : ℚ
  phase : ProbingPhase
  expectedPackets : Int
  timeoutMs : Int
  probeStartTime : Int
  minRtt : Option ℚ
  maxRtt : ℚ

def NetworkQualityMetrics.Asked (data : NetworkQualityMetrics) : Prop :=
  0 < data.timeoutMs ∧ 0 < data.probeStartTime

def NetworkQualityMetrics.Covered (data : NetworkQualityMetrics) : Prop :=
  data.phase = .complete ∨ data.Asked

def NetworkQualityMetrics.zero : NetworkQualityMetrics where
  startTime := 0
  lastRecvTime := 0
  packetsSent := 0
  packetsReceived := 0
  rttSum := 0
  rttCount := 0
  bytesReceived := 0
  packetLossRate := 0
  bandwidthKbps := 0
  iceConnectivityScore := 0
  finalScore := 0
  phase := .slowStart
  expectedPackets := 0
  timeoutMs := 0
  probeStartTime := 0
  minRtt := some 0
  maxRtt := 0

structure PeerConnectionTrack where
  streamIndex : Int
  trackType : PeerConnectionTrackType
  trackId : Int

structure PeerConnectionNode where
  remoteId : Option String
  pcId : Int
  status : PeerConnectionStatus
  trackCaches : Linked PeerConnectionTrack
  videoTrack : Option Ptr
  audioTrack : Option Ptr
  probeTrack : Option Ptr
  networkQuality : NetworkQualityMetrics

/-- The calls into the WebRTC library, the messages handed to the signalling
socket among them, and the frees, in the order they happen. -/
inductive RtcCall
  | createPeerConnection (pcId : Int)
  | deletePeerConnection (pcId : Int)
  | setUserPointer (id : Int) (node : Option Ptr)
  | setCallback (pcId : Int) (callback : PcCallback)
  | setChannelCallback (id : Int) (callback : ChannelCallback)
  | setLocalDescription (pcId : Int) (role : String)
  | setRemoteDescription (pcId : Int) (description role : String)
  | addRemoteCandidate (pcId : Int) (candidate mid : String)
  | addTrack (pcId trackId : Int)
  | deleteTrack (trackId : Int)
  | createDataChannel (pcId channelId : Int)
  | deleteDataChannel (channelId : Int)
  | sendMessage (msg : P2PSignalMessage)
  | sendJson (json : CJson)
  | sendProbePacket (channelId sequenceNumber packetSize : Int) (phase : ProbingPhase)
  | freeNode (node : Ptr)
  | freeTrack (node track : Ptr)

structure P2PContext where
  localId : Option String
  roomId : Option String
  peerConnectionNodeCaches : Linked PeerConnectionNode
  selectedNode : Option Ptr
  calls : List RtcCall

/-- What the calls made by one handler invocation or one thread step return. -/
structure Env where
  now : Int
  createPeerConnection : Int
  allocNode : Bool
  strdup : Bool
  setCallback : PcCallback → Int
  allocMessage : Bool
  localDescription : Option String
  sendMessage : Int
  allocTrack : Nat → Bool
  createSendTrack : Nat → Int
  createDataChannel : Int
  setChannelCallback : Int → ChannelCallback → Int
  allocProbeTrack : Bool
  sendProbePacket : Nat → Int
  allocProbeRequest : Ptr → Bool
  sendProbeRequest : Ptr → Int
  probeId : String

def Env.succeeding (now pcId : Int) : Env where
  now := now
  createPeerConnection := pcId
  allocNode := true
  strdup := true
  setCallback := fun _ => 0
  allocMessage := true
  localDescription := some "sdp"
  sendMessage := 0
  allocTrack := fun _ => true
  createSendTrack := fun index => 100 * pcId + index
  createDataChannel := 100 * pcId + 50
  setChannelCallback := fun _ _ => 0
  allocProbeTrack := true
  sendProbePacket := fun _ => 0
  allocProbeRequest := fun _ => true
  sendProbeRequest := fun _ => 0
  probeId := "probe"

inductive Fault
  | nullNode | nullString | nullMessage | nullTrack | danglingNode | danglingTrack | abort
  deriving DecidableEq, Repr

abbrev PeerM := EStateM Fault P2PContext

def call (c : RtcCall) : PeerM Unit := modify fun ctx => { ctx with calls := ctx.calls ++ [c] }

@[simp] theorem after_call_bind {α : Type} (c : RtcCall) (f : Unit → PeerM α) (s : P2PContext) :
    after (call c >>= f) s = after (f ()) { s with calls := s.calls ++ [c] } := rfl

@[simp] theorem value_call_bind {α : Type} (c : RtcCall) (f : Unit → PeerM α) (s : P2PContext) :
    value (call c >>= f) s = value (f ()) { s with calls := s.calls ++ [c] } := rfl

@[simp] theorem fault_call_bind {α : Type} (c : RtcCall) (f : Unit → PeerM α) (s : P2PContext) :
    fault (call c >>= f) s = fault (f ()) { s with calls := s.calls ++ [c] } := rfl

def modifyNodes (f : Linked PeerConnectionNode → Linked PeerConnectionNode) : PeerM Unit :=
  modify fun ctx => { ctx with peerConnectionNodeCaches := f ctx.peerConnectionNodeCaches }

def modifyNode (p : Ptr) (f : PeerConnectionNode → PeerConnectionNode) : PeerM Unit :=
  modifyNodes fun nodes => nodes.modify p f

def readNode (node : Option Ptr) : PeerM PeerConnectionNode := do
  let ctx ← get
  match node with
  | none => throw .nullNode
  | some p =>
      match ctx.peerConnectionNodeCaches.get? p with
      | some n => pure n
      | none => throw .danglingNode

def walkNodes {α : Type} (body : Ptr → PeerConnectionNode → α → PeerM α) : List Ptr → α → PeerM α
  | [], a => pure a
  | p :: ps, a => do
      let n ← readNode (some p)
      let a ← body p n a
      walkNodes body ps a

def hasRemoteId (remoteId : Option String) (n : PeerConnectionNode) : Bool :=
  n.remoteId.isSome && n.remoteId == remoteId

def findPeerConnectionNodeByRemoteId (nodes : Linked PeerConnectionNode)
    (remoteId : Option String) : Option Ptr :=
  match remoteId with
  | none => none
  | some _ => nodes.find? (hasRemoteId remoteId)

def findPeerConnectionNodeByPcId (nodes : Linked PeerConnectionNode) (pcId : Int) : Option Ptr :=
  nodes.find? (fun n => n.pcId == pcId)

/-- The node is unlinked and freed; its connection is left open. -/
def removePeerConnectionNodeFromList (remoteId : Option String) : PeerM Int := do
  let ctx ← get
  match remoteId with
  | none => pure averrorInvaliddata
  | some _ =>
      match ctx.peerConnectionNodeCaches.find? (hasRemoteId remoteId) with
      | none => pure 0
      | some p => do
          modifyNodes fun nodes => nodes.unlink (hasRemoteId remoteId)
          call (.freeNode p)
          pure 0

/-- An older node with the same id is removed before the new one is linked. -/
def appendPeerConnectionNodeToList (newNode : PeerConnectionNode) : PeerM Int := do
  let ctx ← get
  match findPeerConnectionNodeByRemoteId ctx.peerConnectionNodeCaches newNode.remoteId with
  | none => do
      modifyNodes fun nodes => nodes.link newNode
      pure 0
  | some _ => do
      let ret ← removePeerConnectionNodeFromList newNode.remoteId
      if ret ≠ 0 then pure ret
      else do
        modifyNodes fun nodes => nodes.link newNode
        pure 0

end P2PFFmpeg.Peer
