import P2PFFmpeg.Peer.Connection
import Mathlib.Algebra.Order.Field.Rat

namespace P2PFFmpeg.Peer

open Library Library.Program Message

def probeDataInit (now : Int) : NetworkQualityMetrics :=
  { NetworkQualityMetrics.zero with
    startTime := now
    iceConnectivityScore := -1
    minRtt := none }

def probePacketSizes : List Int := [128, 256, 512, 1024, 1400]

def packetsPerSize : Int := 2

def totalPackets : Int := probePacketSizes.length * packetsPerSize

def probeTimeoutMs : Int := 5000 * 1000

def sizeofProbePacketHeader : UInt32 := 32

def sizeofProbePacketPadding : UInt32 := 1468

def sendProbePacketsFrom (env : Env) (node : Ptr) (trackId : Int) : List Nat → PeerM Int
  | [] => pure 0
  | i :: is => do
      let n ← readNode (some node)
      let size := probePacketSizes.getD (i / packetsPerSize.toNat) 0
      call (.sendProbePacket trackId i size n.networkQuality.phase)
      if env.sendProbePacket i ≠ 0 then pure (-1)
      else do
        modifyNode node (setNetworkQuality fun data =>
          { data with packetsSent := data.packetsSent + 1 })
        sendProbePacketsFrom env node trackId is

def sendProbePackets (env : Env) (node : Ptr) : PeerM Int := do
  let n ← readNode (some node)
  match n.probeTrack with
  | none => pure (-1)
  | some t =>
      match n.trackCaches.get? t with
      | none => throw .danglingTrack
      | some track =>
          if track.trackId ≤ 0 then pure (-1)
          else do
            modifyNode node (setNetworkQuality fun data =>
              { data with expectedPackets := totalPackets })
            sendProbePacketsFrom env node track.trackId (List.range totalPackets.toNat)

structure ProbePacketHeader where
  sequenceNumber : UInt32
  sendTime : Int
  packetSize : UInt32
  phase : ProbingPhase
  payloadCrc : UInt32
  deriving DecidableEq

def recordProbePacket (header : ProbePacketHeader) (now : Int) (data : NetworkQualityMetrics) :
    NetworkQualityMetrics :=
  let rtt : ℚ := (now - header.sendTime : Int) / 1000
  let received := data.packetsReceived + 1
  let bytes := data.bytesReceived + header.packetSize.toNat
  let duration : ℚ := (now - data.startTime : Int) / 1000000
  { data with
    packetsReceived := received
    bytesReceived := bytes
    lastRecvTime := now
    rttSum := data.rttSum + rtt
    rttCount := data.rttCount + 1
    minRtt := if data.rttCount + 1 = 1 then some rtt
      else some (match data.minRtt with | none => rtt | some m => min m rtt)
    maxRtt := if data.rttCount + 1 = 1 then rtt else max data.maxRtt rtt
    packetLossRate :=
      if 0 < data.expectedPackets then 1 - (received : ℚ) / data.expectedPackets else 0
    bandwidthKbps := if 0 < duration then (bytes * 8 / 1024 : ℚ) / duration else data.bandwidthKbps
    phase := if 0 < data.expectedPackets ∧ data.expectedPackets ≤ received then .complete
      else data.phase }

/-- The size is compared with the unsigned size of the header, so a negative
size passes the first check. crc is the checksum of the received payload. -/
def handleProbePacket (node : Ptr) (header : ProbePacketHeader) (size : Int32) (crc : UInt32)
    (now : Int) : PeerM Unit := do
  let _ ← readNode (some node)
  if size.toUInt32 < sizeofProbePacketHeader then pure ()
  else if size.toUInt32 ≠ header.packetSize then pure ()
  else if sizeofProbePacketPadding < header.packetSize - sizeofProbePacketHeader then throw .abort
  else if crc ≠ header.payloadCrc then throw .abort
  else modifyNode node (setNetworkQuality (recordProbePacket header now))

def clipDouble (value minVal maxVal : ℚ) : ℚ :=
  if value < minVal then minVal else if maxVal < value then maxVal else value

def maxRttMs : ℚ := 1000

def maxPacketLoss : ℚ := 1 / 10

def minBandwidthKbps : ℚ := 500

def calculateNodeScore (data : NetworkQualityMetrics) : ℚ :=
  if data.packetsReceived = 0 then 0
  else
    clipDouble (25 * (1 - data.rttSum / data.rttCount / maxRttMs)) 0 25 +
      clipDouble (25 * (1 - data.packetLossRate / maxPacketLoss)) 0 25 +
      clipDouble (25 * (data.bandwidthKbps / minBandwidthKbps)) 0 25 +
      clipDouble (data.iceConnectivityScore * 25 / 100) 0 25

def recordScore (data : NetworkQualityMetrics) : NetworkQualityMetrics :=
  if data.packetsReceived = 0 then data else { data with finalScore := calculateNodeScore data }

def scoreNode (curr : Ptr) (n : PeerConnectionNode) (best : Option Ptr × ℚ) :
    PeerM (Option Ptr × ℚ) := do
  modifyNode curr (setNetworkQuality recordScore)
  if best.2 < calculateNodeScore n.networkQuality
  then pure (some curr, calculateNodeScore n.networkQuality)
  else pure best

def selectBestNode : PeerM (Option Ptr) := do
  let ctx ← get
  let best ← walkNodes scoreNode ctx.peerConnectionNodeCaches.addrs (none, 0)
  pure best.1

def sendProbeRequestToPublisher (env : Env) (node : Ptr) : PeerM Int := do
  let n ← readNode (some node)
  let ctx ← get
  if env.allocMessage = false then pure averrorEnomem
  else do
    let msg : P2PSignalMessage :=
      { senderId := ctx.localId
        receiverId := n.remoteId
        body := .probeRequest (some env.probeId) 1024 (Int32.ofInt totalPackets)
          (Int32.ofInt probeTimeoutMs) }
    modifyNode node (setNetworkQuality fun data =>
      { data with
        expectedPackets := totalPackets
        timeoutMs := probeTimeoutMs
        probeStartTime := env.now })
    sendSignalMessage env msg

def sendStreamRequest (env : Env) (node : Option Ptr) : PeerM Int :=
  match node with
  | none => pure averrorEinval
  | some p => do
      let n ← readNode (some p)
      let ctx ← get
      if env.allocMessage = false then pure averrorEnomem
      else do
        let msg : P2PSignalMessage :=
          { senderId := ctx.localId
            receiverId := n.remoteId
            body := .streamRequest (some "main_stream") }
        sendSignalMessage env msg

variable {w : Permit}

theorem frame_sendProbePacketsFrom (env : Env) (node : Ptr) (trackId : Int) (is : List Nat) :
    Keeps (Frame w) (sendProbePacketsFrom env node trackId is) := by
  induction is with
  | nil => exact keeps_pure _
  | cons i is ih =>
      apply keeps_bind (frame_readNode _)
      intro n
      apply keeps_bind (frame_call fun _ => by trivial)
      intro _
      split
      · exact keeps_pure _
      · exact keeps_bind (frame_setNetworkQuality _ fun _ => Or.inl) (fun _ => ih)

theorem frame_sendProbePackets (env : Env) (node : Ptr) : Keeps (Frame w) (sendProbePackets env node) := by
  apply keeps_bind (frame_readNode _)
  intro n
  split
  · exact keeps_pure _
  · split
    · exact keeps_throw _
    · split
      · exact keeps_pure _
      · exact keeps_bind (frame_setNetworkQuality _ fun _ => Or.inl)
          (fun _ => frame_sendProbePacketsFrom env node _ _)

theorem covered_recordProbePacket (header : ProbePacketHeader) (now : Int)
    {data : NetworkQualityMetrics} (h : data.Covered) : (recordProbePacket header now data).Covered := by
  rcases h with h | h
  · left
    simp only [recordProbePacket]
    split
    · rfl
    · exact h
  · exact Or.inr h

theorem frame_handleProbePacket (node : Ptr) (header : ProbePacketHeader) (size : Int32)
    (crc : UInt32) (now : Int) : Keeps (Frame w) (handleProbePacket node header size crc now) := by
  apply keeps_bind (frame_readNode _)
  intro _
  split
  · exact keeps_pure _
  · split
    · exact keeps_pure _
    · split
      · exact keeps_throw _
      · split
        · exact keeps_throw _
        · exact frame_setNetworkQuality _ fun _ h => Or.inl (covered_recordProbePacket header now h)

theorem covered_recordScore {data : NetworkQualityMetrics} (h : data.Covered) :
    (recordScore data).Covered := by
  unfold recordScore
  split
  · exact h
  · exact h

theorem frame_selectBestNode : Keeps (Frame w) selectBestNode := by
  apply keeps_get_bind
  intro ctx
  refine keeps_bind (frame_walkNodes ?_ _ _) (fun _ => keeps_pure _)
  intro p n best
  apply keeps_bind (frame_setNetworkQuality _ fun _ h => Or.inl (covered_recordScore h))
  intro _
  split
  · exact keeps_pure _
  · exact keeps_pure _

theorem selectBestNode_linked {s : P2PContext} {p : Ptr} (h : value selectBestNode s = some (some p)) :
    p ∈ s.peerConnectionNodeCaches.addrs := by
  rw [selectBestNode, value_get_bind] at h
  obtain ⟨best, hbest, h⟩ := value_bind_some h
  have hmem : ∀ q, best.1 = some q → q ∈ s.peerConnectionNodeCaches.addrs := by
    refine walkNodes_value (fun best : Option Ptr × ℚ =>
      ∀ q, best.1 = some q → q ∈ s.peerConnectionNodeCaches.addrs) ?_ (by simp) hbest
    intro p hp n a b t ha hb q hq
    obtain ⟨_, _, hb⟩ := value_bind_some hb
    split at hb
    · cases hb
      cases hq
      exact hp
    · cases hb
      exact ha q hq
  exact hmem p (Option.some.inj h)

theorem frame_sendProbeRequestToPublisher (env : Env) (node : Ptr)
    (h : ∀ msg, msg.type = .probeRequest → w.sent msg) (hw : w.wiped node) :
    Keeps (Frame w) (sendProbeRequestToPublisher env node) := by
  apply keeps_bind (frame_readNode _)
  intro n
  apply keeps_get_bind
  intro ctx
  split
  · exact keeps_pure _
  · exact keeps_bind (frame_setNetworkQuality _ fun _ _ => Or.inr hw)
      (fun _ => frame_sendSignalMessage env (h _ rfl))

theorem frame_sendStreamRequest (env : Env) (node : Option Ptr)
    (h : ∀ msg, msg.type = .streamRequest → w.sent msg) : Keeps (Frame w) (sendStreamRequest env node) := by
  cases node with
  | none => exact keeps_pure _
  | some p =>
      apply keeps_bind (frame_readNode _)
      intro n
      apply keeps_get_bind
      intro ctx
      split
      · exact keeps_pure _
      · exact frame_sendSignalMessage env (h _ rfl)

end P2PFFmpeg.Peer
