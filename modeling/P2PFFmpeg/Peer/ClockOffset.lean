import P2PFFmpeg.Library.Program
import P2PFFmpeg.Peer.Invariant
import P2PFFmpeg.Peer.ProbeLoss
import P2PFFmpeg.Peer.Signaling
import Mathlib.Algebra.Order.Group.MinMax

namespace P2PFFmpeg.Peer

open Library Library.Program Message

def offsetMetrics (offset : Int) (data : NetworkQualityMetrics) : NetworkQualityMetrics :=
  { data with
    rttSum := data.rttSum - data.rttCount * (offset / 1000)
    minRtt := if data.rttCount = 0 then data.minRtt else data.minRtt.map fun m => m - offset / 1000
    maxRtt := if data.rttCount = 0 then data.maxRtt else data.maxRtt - offset / 1000 }

def offsetNode (offset : Ptr → Int) (p : Ptr) : PeerConnectionNode → PeerConnectionNode :=
  setNetworkQuality (offsetMetrics (offset p))

def offsetContext (offset : Ptr → Int) (c : P2PContext) : P2PContext :=
  { c with peerConnectionNodeCaches := c.peerConnectionNodeCaches.mapCells (offsetNode offset) }

def ProbePacketHeader.delay (offset : Int) (header : ProbePacketHeader) : ProbePacketHeader :=
  { header with sendTime := header.sendTime + offset }

def PcEvent.delay (offset : Ptr → Int) : PcEvent → PcEvent
  | .probeChannelMessage node header size crc now =>
      .probeChannelMessage node (header.delay (offset node)) size crc now
  | event => event

variable {offset : Ptr → Int}

section Metrics

theorem offsetMetrics_of_count {data : NetworkQualityMetrics} (o : Int) (h : data.rttCount = 0) :
    offsetMetrics o data = data := by
  cases data
  simp only at h
  subst h
  simp [offsetMetrics]

theorem offsetMetrics_zero (data : NetworkQualityMetrics) : offsetMetrics 0 data = data := by
  simp [offsetMetrics]

section Record

variable {data : NetworkQualityMetrics} (header : ProbePacketHeader) (now o : Int)

theorem record_rttSum : (recordProbePacket (header.delay o) now (offsetMetrics o data)).rttSum =
    (offsetMetrics o (recordProbePacket header now data)).rttSum := by
  simp only [recordProbePacket, offsetMetrics, ProbePacketHeader.delay]
  push_cast
  ring

theorem rtt_delay (sendTime now o : Int) :
    ((now - (sendTime + o) : Int) : ℚ) / 1000 = ((now - sendTime : Int) : ℚ) / 1000 - o / 1000 := by
  push_cast
  ring

theorem record_minRtt (h : 0 ≤ data.rttCount) :
    (recordProbePacket (header.delay o) now (offsetMetrics o data)).minRtt =
      (offsetMetrics o (recordProbePacket header now data)).minRtt := by
  have hnext : ¬ data.rttCount + 1 = 0 := by omega
  simp only [recordProbePacket, offsetMetrics, ProbePacketHeader.delay, rtt_delay, hnext, if_false]
  by_cases hzero : data.rttCount = 0
  · simp only [hzero, zero_add, if_true, Option.map_some]
  · have hone : ¬ data.rttCount + 1 = 1 := by omega
    simp only [if_neg hzero, if_neg hone, Option.map_some]
    cases data.minRtt with
    | none => simp only [Option.map_none]
    | some m => simp only [Option.map_some, min_sub_sub_right]

theorem record_maxRtt (h : 0 ≤ data.rttCount) :
    (recordProbePacket (header.delay o) now (offsetMetrics o data)).maxRtt =
      (offsetMetrics o (recordProbePacket header now data)).maxRtt := by
  have hnext : ¬ data.rttCount + 1 = 0 := by omega
  simp only [recordProbePacket, offsetMetrics, ProbePacketHeader.delay, rtt_delay, hnext, if_false]
  by_cases hzero : data.rttCount = 0
  · simp only [hzero, zero_add, if_true]
  · have hone : ¬ data.rttCount + 1 = 1 := by omega
    simp only [if_neg hzero, if_neg hone, max_sub_sub_right]

theorem offsetMetrics_record (h : 0 ≤ data.rttCount) :
    recordProbePacket (header.delay o) now (offsetMetrics o data) =
      offsetMetrics o (recordProbePacket header now data) := by
  have hrest : recordProbePacket (header.delay o) now (offsetMetrics o data) =
      { recordProbePacket header now data with
        rttSum := (recordProbePacket (header.delay o) now (offsetMetrics o data)).rttSum
        minRtt := (recordProbePacket (header.delay o) now (offsetMetrics o data)).minRtt
        maxRtt := (recordProbePacket (header.delay o) now (offsetMetrics o data)).maxRtt } := rfl
  rw [hrest, record_rttSum, record_minRtt header now o h, record_maxRtt header now o h]
  rfl

end Record

end Metrics

section Nodes

variable (c : P2PContext)

@[simp] theorem addrs_offsetContext : (offsetContext offset c).peerConnectionNodeCaches.addrs =
    c.peerConnectionNodeCaches.addrs := Linked.addrs_mapCells _

theorem get_offsetContext (p : Ptr) : (offsetContext offset c).peerConnectionNodeCaches.get? p =
    (c.peerConnectionNodeCaches.get? p).map (offsetNode offset p) := Linked.get?_mapCells _ p

theorem find_offsetContext (id : Option String) :
    findPeerConnectionNodeByRemoteId (offsetContext offset c).peerConnectionNodeCaches id =
      findPeerConnectionNodeByRemoteId c.peerConnectionNodeCaches id := by
  rw [find_some_iff, find_some_iff]
  exact Linked.find?_mapCells _ fun _ _ => rfl

theorem findByPcId_offsetContext (pcId : Int) :
    findPeerConnectionNodeByPcId (offsetContext offset c).peerConnectionNodeCaches pcId =
      findPeerConnectionNodeByPcId c.peerConnectionNodeCaches pcId :=
  Linked.find?_mapCells _ fun _ _ => rfl

end Nodes

section Connection

variable (offset)

theorem commutes_call (c : RtcCall) : Commutes (offsetContext offset) (call c) :=
  commutes_modify fun _ => rfl

theorem value_readNode_offset (p : Ptr) (s : P2PContext) :
    value (readNode (some p)) (offsetContext offset s) =
      (value (readNode (some p)) s).map (offsetNode offset p) := by
  have hget := @get_offsetContext offset s p
  cases hn : s.peerConnectionNodeCaches.get? p with
  | none =>
      rw [hn] at hget
      rw [readNode_none hn, readNode_none hget]
      rfl
  | some n =>
      rw [hn] at hget
      rw [readNode_some hn, readNode_some hget]
      rfl

variable {α : Type} {p : Ptr}

theorem mirrors_readNode_bind {f g : PeerConnectionNode → PeerM α} {s : P2PContext}
    (h : ∀ n, value (readNode (some p)) s = some n → Mirrors (offsetContext offset) (f n) (g (offsetNode offset p n)) s) :
    Mirrors (offsetContext offset) (readNode (some p) >>= f) (readNode (some p) >>= g) s := by
  rw [Mirrors, value_bind, value_bind, after_bind, after_bind, readNode_after, readNode_after,
    value_readNode_offset]
  cases hn : value (readNode (some p)) s with
  | none => exact ⟨rfl, rfl⟩
  | some n => exact h n hn

theorem commutes_readNode_bind {node : Option Ptr} {f : PeerConnectionNode → PeerM α}
    (h : ∀ p n, f (offsetNode offset p n) = f n) (hf : ∀ n, Commutes (offsetContext offset) (f n)) :
    Commutes (offsetContext offset) (readNode node >>= f) := by
  intro s
  cases node with
  | none => exact ⟨rfl, rfl⟩
  | some p =>
      refine mirrors_readNode_bind offset fun n _ => ?_
      rw [h]
      exact hf n s

theorem mirrors_modifyNode {f g : PeerConnectionNode → PeerConnectionNode} {s : P2PContext}
    (h : ∀ n, s.peerConnectionNodeCaches.get? p = some n →
      g (offsetNode offset p n) = offsetNode offset p (f n)) :
    Mirrors (offsetContext offset) (modifyNode p f) (modifyNode p g) s := by
  apply mirrors_modify
  exact congrArg (fun nodes => { s with peerConnectionNodeCaches := nodes }) (Linked.mapCells_modify _ h)

theorem commutes_modifyNode {f : PeerConnectionNode → PeerConnectionNode}
    (h : ∀ n, f (offsetNode offset p n) = offsetNode offset p (f n)) :
    Commutes (offsetContext offset) (modifyNode p f) :=
  fun _ => mirrors_modifyNode offset fun n _ => h n

theorem commutes_unlink {k : PeerConnectionNode → Bool} (h : ∀ p n, k (offsetNode offset p n) = k n) :
    Commutes (offsetContext offset) (modifyNodes fun nodes => nodes.unlink k) := by
  apply commutes_modify
  intro s
  have hnodes := @Linked.mapCells_unlink _ s.peerConnectionNodeCaches (offsetNode offset) k h
  exact congrArg (fun nodes => { s with peerConnectionNodeCaches := nodes }) hnodes

theorem commutes_link {n : PeerConnectionNode} (h : n.networkQuality.rttCount = 0) :
    Commutes (offsetContext offset) (modifyNodes fun nodes => nodes.link n) := by
  apply commutes_modify
  intro s
  have hnew : offsetNode offset s.peerConnectionNodeCaches.fresh n = n := by
    rw [offsetNode, setNetworkQuality, offsetMetrics_of_count _ h]
  have hnodes := @Linked.mapCells_link _ s.peerConnectionNodeCaches (offsetNode offset) n hnew
  exact congrArg (fun nodes => { s with peerConnectionNodeCaches := nodes }) hnodes

theorem commutes_walkNodes {body : Ptr → PeerConnectionNode → α → PeerM α}
    (h : ∀ p q n a, body p (offsetNode offset q n) a = body p n a)
    (hbody : ∀ p n a, Commutes (offsetContext offset) (body p n a)) (ps : List Ptr) (a : α) :
    Commutes (offsetContext offset) (walkNodes body ps a) := by
  induction ps generalizing a with
  | nil => exact commutes_pure _
  | cons p ps ih =>
      apply commutes_readNode_bind
      · intro q n
        rw [h]
      · intro n
        exact commutes_bind (hbody p n a) ih

theorem commutes_removeNode (id : Option String) :
    Commutes (offsetContext offset) (removePeerConnectionNodeFromList id) := by
  apply commutes_get_bind
  · intro s
    cases id with
    | none => rfl
    | some id =>
        have hfind := @find_offsetContext offset s (some id)
        rw [find_some_iff, find_some_iff] at hfind
        simp only [hfind]
  · intro s
    split
    · exact commutes_pure _
    · split
      · exact commutes_pure _
      · apply commutes_bind (commutes_unlink offset fun _ _ => rfl)
        intro _
        exact commutes_bind (commutes_call offset _) (fun _ => commutes_pure _)

theorem commutes_appendNode {n : PeerConnectionNode} (h : n.networkQuality.rttCount = 0) :
    Commutes (offsetContext offset) (appendPeerConnectionNodeToList n) := by
  have hlink : Commutes (offsetContext offset) (do modifyNodes fun nodes => nodes.link n; pure (0 : Int)) :=
    commutes_bind (commutes_link offset h) (fun _ => commutes_pure _)
  apply commutes_get_bind
  · intro s
    simp only [find_offsetContext]
  · intro s
    split
    · exact hlink
    · apply commutes_bind (commutes_removeNode offset _)
      intro ret
      split
      · exact commutes_pure _
      · exact hlink

theorem commutes_createPeerConnection (env : Env) (id : Option String) :
    Commutes (offsetContext offset) (createPeerConnection env id) := by
  apply commutes_bind (commutes_call offset _)
  intro _
  split
  · exact commutes_bind (commutes_call offset _) (fun _ => commutes_pure _)
  · split
    · exact commutes_bind (commutes_call offset _) (fun _ => commutes_pure _)
    · cases id with
      | none => exact commutes_throw _
      | some id => exact commutes_bind (commutes_appendNode offset rfl) (fun _ => commutes_pure _)

theorem commutes_registerCallbacks (env : Env) (pcId : Int) (callbacks : List PcCallback) :
    Commutes (offsetContext offset) (registerCallbacks env pcId callbacks) := by
  induction callbacks with
  | nil => exact commutes_pure _
  | cons callback callbacks ih =>
      apply commutes_bind (commutes_call offset _)
      intro _
      split
      · exact commutes_bind (commutes_call offset _) (fun _ => commutes_pure _)
      · exact ih

theorem commutes_initPeerConnection (env : Env) (pcId : Int) :
    Commutes (offsetContext offset) (initPeerConnection env pcId) := by
  apply commutes_get_bind
  · intro s
    simp only [findByPcId_offsetContext]
  · intro s
    exact commutes_bind (commutes_call offset _) (fun _ => commutes_registerCallbacks offset _ _ _)

theorem commutes_sendSignalMessage (env : Env) (msg : P2PSignalMessage) :
    Commutes (offsetContext offset) (sendSignalMessage env msg) :=
  commutes_bind (commutes_call offset _) (fun _ => commutes_pure _)

theorem commutes_setLocalDescription (node : Ptr) (role : String) :
    Commutes (offsetContext offset) (setLocalDescription node role) :=
  commutes_readNode_bind offset (fun _ _ => rfl) (fun _ => commutes_call offset _)

theorem commutes_sendDescription (env : Env) (node : Ptr) (role : String) :
    Commutes (offsetContext offset) (sendDescription env node role) := by
  apply commutes_readNode_bind offset (fun _ _ => rfl)
  intro n
  refine commutes_get_bind (fun _ => rfl) fun s => ?_
  split
  · exact commutes_throw _
  · exact commutes_sendSignalMessage offset _ _

theorem commutes_onPcLocalCandidateCallback (env : Env) (node : Ptr) (candidate mid : String) :
    Commutes (offsetContext offset) (onPcLocalCandidateCallback env node candidate mid) := by
  apply commutes_readNode_bind offset (fun _ _ => rfl)
  intro n
  refine commutes_get_bind (fun _ => rfl) fun s => ?_
  split
  · exact commutes_pure _
  · exact commutes_bind (commutes_sendSignalMessage offset _ _) (fun _ => commutes_pure _)

theorem commutes_setStatus (p : Ptr) (st : PeerConnectionStatus) :
    Commutes (offsetContext offset) (modifyNode p (setStatus st)) :=
  commutes_modifyNode offset fun _ => rfl

theorem commutes_markSelected (p : Ptr) : Commutes (offsetContext offset) (markSelected p) :=
  commutes_readNode_bind offset (fun _ _ => rfl) (fun _ => commutes_setStatus offset p _)

theorem commutes_joinRoom (env : Env) (roomId localId : Option String) :
    Commutes (offsetContext offset) (joinRoom env roomId localId) :=
  commutes_modify fun _ => rfl

theorem commutes_findOrCreateNode (env : Env) (lookupId createId : Option String) :
    Commutes (offsetContext offset) (findOrCreateNode env lookupId createId) := by
  apply commutes_get_bind
  · intro s
    simp only [find_offsetContext]
  · intro s
    split
    · exact commutes_pure _
    · apply commutes_bind (commutes_createPeerConnection offset env createId)
      intro ret
      split
      · exact commutes_pure _
      · apply commutes_get_bind
        · intro s
          simp only [find_offsetContext]
        · exact fun _ => commutes_pure _

theorem commutes_handleAnswer (senderId description : Option String) :
    Commutes (offsetContext offset) (handleAnswer senderId description) := by
  apply commutes_get_bind
  · intro s
    simp only [find_offsetContext]
  · intro s
    split
    · apply commutes_readNode_bind offset (fun _ _ => rfl)
      intro n
      exact commutes_bind (commutes_call offset _) (fun _ => commutes_pure _)
    · exact commutes_pure _

theorem commutes_handleCandidate (senderId candidate mid : Option String) :
    Commutes (offsetContext offset) (handleCandidate senderId candidate mid) := by
  apply commutes_get_bind
  · intro s
    simp only [find_offsetContext]
  · intro s
    split
    · apply commutes_readNode_bind offset (fun _ _ => rfl)
      intro n
      exact commutes_bind (commutes_call offset _) (fun _ => commutes_pure _)
    · exact commutes_pure _

end Connection

section Tracks

variable (offset)

theorem commutes_modifyTracks (node : Ptr) (f : Linked PeerConnectionTrack → Linked PeerConnectionTrack) :
    Commutes (offsetContext offset) (modifyTracks node f) :=
  commutes_modifyNode offset fun _ => rfl

theorem commutes_appendTrack (node : Ptr) (track : PeerConnectionTrack) :
    Commutes (offsetContext offset) (appendPeerConnectionTrackToList node track) := by
  apply commutes_readNode_bind offset (fun _ _ => rfl)
  intro n
  split
  · exact commutes_modifyTracks offset _ _
  · apply commutes_bind (commutes_modifyTracks offset _ _)
    intro _
    exact commutes_bind (commutes_call offset _) (fun _ => commutes_modifyTracks offset _ _)

theorem commutes_registerChannelCallbacks (env : Env) (trackId : Int) (callbacks : List ChannelCallback) :
    Commutes (offsetContext offset) (registerChannelCallbacks env trackId callbacks) := by
  induction callbacks with
  | nil => exact commutes_pure _
  | cons callback callbacks ih =>
      apply commutes_bind (commutes_call offset _)
      intro _
      split
      · exact commutes_pure _
      · exact ih

theorem commutes_setupTrackCommonLogic (env : Env) (node : Ptr) (track : PeerConnectionTrack) :
    Commutes (offsetContext offset) (setupTrackCommonLogic env node track) := by
  apply commutes_bind (commutes_appendTrack offset node track)
  intro _
  exact commutes_bind (commutes_call offset _) (fun _ => commutes_registerChannelCallbacks offset _ _ _)

theorem commutes_onPcDataChannelCallback (env : Env) (node : Ptr) (channelId : Int) :
    Commutes (offsetContext offset) (onPcDataChannelCallback env node channelId) := by
  apply commutes_readNode_bind offset (fun _ _ => rfl)
  intro n
  split
  · exact commutes_pure _
  · split
    · exact commutes_throw _
    · exact commutes_bind (commutes_setupTrackCommonLogic offset env node _) (fun _ => commutes_pure _)

theorem commutes_adoptProbeChannel (env : Env) (node : Ptr) (channelId : Int) (track : Ptr) :
    Commutes (offsetContext offset) (adoptProbeChannel env node channelId track) := by
  apply commutes_bind (commutes_call offset _)
  intro _
  apply commutes_bind (commutes_registerChannelCallbacks offset _ _ _)
  intro _
  apply commutes_readNode_bind offset (fun _ _ => rfl)
  intro n
  split
  · split
    · exact commutes_modifyNode offset fun _ => rfl
    · exact commutes_pure _
  · exact commutes_pure _

theorem commutes_onProbeChannelOpen (env : Env) (node : Ptr) (channelId : Int) :
    Commutes (offsetContext offset) (onProbeChannelOpen env node channelId) := by
  apply commutes_readNode_bind offset (fun _ _ => rfl)
  intro n
  split
  · exact commutes_adoptProbeChannel offset _ _ _ _
  · split
    · exact commutes_pure _
    · apply commutes_bind (commutes_setupTrackCommonLogic offset env node _)
      intro ret
      split
      · exact commutes_call offset _
      · exact commutes_adoptProbeChannel offset _ _ _ _

end Tracks

section Probe

variable (offset)

theorem commutes_setNetworkQuality {p : Ptr} {f : NetworkQualityMetrics → NetworkQualityMetrics}
    (h : ∀ data, f (offsetMetrics (offset p) data) = offsetMetrics (offset p) (f data)) :
    Commutes (offsetContext offset) (modifyNode p (setNetworkQuality f)) := by
  apply commutes_modifyNode
  intro n
  exact congrArg (fun data => { n with networkQuality := data }) (h n.networkQuality)

theorem commutes_wipe (p : Ptr) (now : Int) :
    Commutes (offsetContext offset) (modifyNode p (setNetworkQuality fun _ => probeDataInit now)) := by
  apply commutes_setNetworkQuality
  intro _
  rw [offsetMetrics_of_count _ rfl]

theorem commutes_sendProbeRequestToPublisher (env : Env) (node : Ptr) :
    Commutes (offsetContext offset) (sendProbeRequestToPublisher env node) := by
  apply commutes_readNode_bind offset (fun _ _ => rfl)
  intro n
  refine commutes_get_bind (fun _ => rfl) fun s => ?_
  split
  · exact commutes_pure _
  · refine commutes_bind (commutes_setNetworkQuality offset fun _ => ?_)
      (fun _ => commutes_sendSignalMessage offset _ _)
    rfl

theorem commutes_sendStreamRequest (env : Env) (node : Option Ptr) :
    Commutes (offsetContext offset) (sendStreamRequest env node) := by
  cases node with
  | none => exact commutes_pure _
  | some p =>
      apply commutes_readNode_bind offset (fun _ _ => rfl)
      intro n
      refine commutes_get_bind (fun _ => rfl) fun s => ?_
      split
      · exact commutes_pure _
      · exact commutes_sendSignalMessage offset _ _

theorem mirrors_handleProbePacket {node : Ptr} {header : ProbePacketHeader} (size : Int32) (crc : UInt32)
    (now : Int) {s : P2PContext}
    (h : ∀ n, s.peerConnectionNodeCaches.get? node = some n → 0 ≤ n.networkQuality.rttCount) :
    Mirrors (offsetContext offset) (handleProbePacket node header size crc now)
      (handleProbePacket node (header.delay (offset node)) size crc now) s := by
  refine mirrors_readNode_bind offset fun n _ => ?_
  refine mirrors_ite (commutes_pure _ s) (mirrors_ite (commutes_pure _ s) ?_)
  refine mirrors_ite (commutes_throw _ s) (mirrors_ite (commutes_throw _ s) ?_)
  apply mirrors_modifyNode
  intro m hm
  have hrecord := offsetMetrics_record header now (offset node) (h m hm)
  exact congrArg (fun data => { m with networkQuality := data }) hrecord

theorem mirrors_handle (event : PcEvent) {s : P2PContext}
    (h : ∀ p n, s.peerConnectionNodeCaches.get? p = some n → 0 ≤ n.networkQuality.rttCount) :
    Mirrors (offsetContext offset) event.handle (event.delay offset).handle s := by
  cases event with
  | localCandidate env node candidate mid => exact commutes_onPcLocalCandidateCallback offset _ _ _ _ s
  | iceStateChange node state =>
      apply commutes_setNetworkQuality
      exact fun _ => rfl
  | dataChannel env node channelId => exact commutes_onPcDataChannelCallback offset _ _ _ s
  | probeChannelOpen env node channelId => exact commutes_onProbeChannelOpen offset _ _ _ s
  | probeChannelMessage node header size crc now =>
      exact mirrors_handleProbePacket offset size crc now fun n => h node n

end Probe

end P2PFFmpeg.Peer
