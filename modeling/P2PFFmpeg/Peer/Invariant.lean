import P2PFFmpeg.Peer.Probe
import P2PFFmpeg.Peer.Tracks
import P2PFFmpeg.Peer.Signaling

namespace P2PFFmpeg.Peer

open Library Library.Program Message

inductive PcEvent
  | localCandidate (env : Env) (node : Ptr) (candidate mid : String)
  | iceStateChange (node : Ptr) (state : RtcIceState)
  | dataChannel (env : Env) (node : Ptr) (channelId : Int)
  | probeChannelOpen (env : Env) (node : Ptr) (channelId : Int)
  | probeChannelMessage (node : Ptr) (header : ProbePacketHeader) (size : Int32) (crc : UInt32)
      (now : Int)

def PcEvent.handle : PcEvent → PeerM Unit
  | .localCandidate env node candidate mid => onPcLocalCandidateCallback env node candidate mid
  | .iceStateChange node state => onPcIceStateChangeCallback node state
  | .dataChannel env node channelId => onPcDataChannelCallback env node channelId
  | .probeChannelOpen env node channelId => onProbeChannelOpen env node channelId
  | .probeChannelMessage node header size crc now => handleProbePacket node header size crc now

def PcEvent.sends : PcEvent → P2PSignalMessage → Prop
  | .localCandidate _ _ candidate mid, msg => msg.body = .candidate (some candidate) (some mid)
  | _, _ => False

theorem frame_handle {w : Permit} (event : PcEvent) (h : ∀ msg, event.sends msg → w.sent msg) :
    Keeps (Frame w) event.handle := by
  cases event with
  | localCandidate env node candidate mid =>
      apply frame_onPcLocalCandidateCallback
      exact h
  | iceStateChange node state => exact frame_setNetworkQuality _ fun _ => Or.inl
  | dataChannel env node channelId => exact frame_onPcDataChannelCallback _ _ _
  | probeChannelOpen env node channelId => exact frame_onProbeChannelOpen _ _ _
  | probeChannelMessage node header size crc now => exact frame_handleProbePacket _ _ _ _ _

section

def newNode (remoteId : Option String) (pcId : Int) : PeerConnectionNode where
  remoteId := remoteId
  pcId := pcId
  status := .disconnected
  trackCaches := .empty
  videoTrack := none
  audioTrack := none
  probeTrack := none
  networkQuality := .zero

def EveryNode (P : Ptr → PeerConnectionNode → Prop) (c : P2PContext) : Prop :=
  ∀ p n, c.peerConnectionNodeCaches.get? p = some n → P p n

structure Retains (P : Ptr → PeerConnectionNode → Prop) (bound : Ptr) (c d : P2PContext) : Prop where
  fresh : c.peerConnectionNodeCaches.fresh ≤ d.peerConnectionNodeCaches.fresh
  nodes : bound ≤ c.peerConnectionNodeCaches.fresh → EveryNode P c → EveryNode P d

/-- The changes of a node that a property survives: all but those of its tracks
and of its metrics, the linking of some tracks and some changes of the metrics. -/
structure Tolerates (P : Ptr → PeerConnectionNode → Prop) (bound : Ptr)
    (linked : PeerConnectionTrack → Prop)
    (measured : Ptr → (NetworkQualityMetrics → NetworkQualityMetrics) → Prop) : Prop where
  born : ∀ p id pcId, bound ≤ p → P p (newNode id pcId)
  status : ∀ p n st, P p n → P p (setStatus st n)
  link : ∀ p n t, linked t → P p n → P p { n with trackCaches := n.trackCaches.link t }
  unlink : ∀ p n k, P p n → P p { n with trackCaches := n.trackCaches.unlink k }
  media : ∀ p n kind t, P p n → P p (setMediaTrack kind t n)
  probe : ∀ p n t, P p n → P p (setProbeTrack t n)
  quality : ∀ p n f, measured p f → P p n → P p (setNetworkQuality f n)

variable {P : Ptr → PeerConnectionNode → Prop} {bound : Ptr} {linked : PeerConnectionTrack → Prop}
  {measured : Ptr → (NetworkQualityMetrics → NetworkQualityMetrics) → Prop}

instance : IsPreorder P2PContext (Retains P bound) where
  refl := fun _ => ⟨Nat.le_refl _, fun _ h => h⟩
  trans := fun _ _ _ h g => ⟨Nat.le_trans h.fresh g.fresh,
    fun hb hc => g.nodes (Nat.le_trans hb h.fresh) (h.nodes hb hc)⟩

theorem Retains.refl (c : P2PContext) : Retains P bound c c := Std.Refl.refl c

theorem retains_of_nodes {c d : P2PContext}
    (h : d.peerConnectionNodeCaches = c.peerConnectionNodeCaches) : Retains P bound c d where
  fresh := by rw [h]
  nodes := fun _ hc p n hn => hc p n (by rw [← h]; exact hn)

theorem retains_call (c : RtcCall) : Keeps (Retains P bound) (call c) :=
  fun _ => retains_of_nodes rfl

theorem retains_readNode (node : Option Ptr) : Keeps (Retains P bound) (readNode node) :=
  keeps_of_after_eq (readNode_after node)

theorem retains_modifyNode (p : Ptr) {f : PeerConnectionNode → PeerConnectionNode}
    (h : ∀ n, P p n → P p (f n)) : Keeps (Retains P bound) (modifyNode p f) := by
  intro s
  refine ⟨Nat.le_refl _, fun _ hs q n hn => ?_⟩
  change (s.peerConnectionNodeCaches.modify p f).get? q = some n at hn
  rw [Linked.get?_modify] at hn
  split at hn
  · next hq =>
      obtain ⟨m, hm, rfl⟩ := Option.map_eq_some_iff.mp hn
      subst hq
      exact h m (hs _ m hm)
  · exact hs q n hn

theorem retains_link (s : P2PContext) {n : PeerConnectionNode}
    (h : bound ≤ s.peerConnectionNodeCaches.fresh → P s.peerConnectionNodeCaches.fresh n) :
    Retains P bound s (after (modifyNodes fun nodes => nodes.link n) s) := by
  refine ⟨Nat.le_succ _, fun hb hs q m hm => ?_⟩
  change (s.peerConnectionNodeCaches.link n).get? q = some m at hm
  rw [Linked.get?_link] at hm
  split at hm
  · next hq =>
      cases hm
      exact hq ▸ h hb
  · exact hs q m hm

theorem retains_unlink (k : PeerConnectionNode → Bool) :
    Keeps (Retains P bound) (modifyNodes fun nodes => nodes.unlink k) := by
  intro s
  refine ⟨Nat.le_refl _, fun _ hs q m hm => ?_⟩
  exact hs q m (Linked.get?_of_unlink hm)

theorem keeps_walkNodes {R : P2PContext → P2PContext → Prop} [IsPreorder P2PContext R] {α : Type}
    {body : Ptr → PeerConnectionNode → α → PeerM α} (hbody : ∀ p n a, Keeps R (body p n a))
    (ps : List Ptr) (a : α) : Keeps R (walkNodes body ps a) := by
  induction ps generalizing a with
  | nil => exact keeps_pure _
  | cons p ps ih =>
      have hread : Keeps R (readNode (some p)) := keeps_of_after_eq (readNode_after _)
      exact keeps_bind hread (fun n => keeps_bind (hbody p n a) (fun b => ih b))

section Connection

theorem retains_removeNode (id : Option String) :
    Keeps (Retains P bound) (removePeerConnectionNodeFromList id) := by
  apply keeps_get_bind
  intro ctx
  split
  · exact keeps_pure _
  · split
    · exact keeps_pure _
    · apply keeps_bind (retains_unlink _)
      intro _
      exact keeps_bind (retains_call _) (fun _ => keeps_pure _)

theorem retains_appendNode {n : PeerConnectionNode} (h : ∀ p, bound ≤ p → P p n) :
    Keeps (Retains P bound) (appendPeerConnectionNodeToList n) := by
  have hlink : Keeps (Retains P bound) (do modifyNodes fun nodes => nodes.link n; pure (0 : Int)) :=
    keeps_bind (fun s => retains_link s (h _)) (fun _ => keeps_pure _)
  apply keeps_get_bind
  intro ctx
  split
  · exact hlink
  · apply keeps_bind (retains_removeNode _)
    intro ret
    split
    · exact keeps_pure _
    · exact hlink

theorem retains_createPeerConnection (ht : Tolerates P bound linked measured) (env : Env)
    (id : Option String) : Keeps (Retains P bound) (createPeerConnection env id) := by
  apply keeps_bind (retains_call _)
  intro _
  split
  · exact keeps_bind (retains_call _) (fun _ => keeps_pure _)
  · split
    · exact keeps_bind (retains_call _) (fun _ => keeps_pure _)
    · cases id with
      | none => exact keeps_throw _
      | some id =>
          exact keeps_bind (retains_appendNode fun p hp => ht.born p _ _ hp) (fun _ => keeps_pure _)

theorem retains_registerCallbacks (env : Env) (pcId : Int) (callbacks : List PcCallback) :
    Keeps (Retains P bound) (registerCallbacks env pcId callbacks) := by
  induction callbacks with
  | nil => exact keeps_pure _
  | cons callback callbacks ih =>
      apply keeps_bind (retains_call _)
      intro _
      split
      · exact keeps_bind (retains_call _) (fun _ => keeps_pure _)
      · exact ih

theorem retains_initPeerConnection (env : Env) (pcId : Int) :
    Keeps (Retains P bound) (initPeerConnection env pcId) := by
  apply keeps_get_bind
  intro ctx
  exact keeps_bind (retains_call _) (fun _ => retains_registerCallbacks _ _ _)

theorem retains_sendSignalMessage (env : Env) (msg : P2PSignalMessage) :
    Keeps (Retains P bound) (sendSignalMessage env msg) :=
  keeps_bind (retains_call _) (fun _ => keeps_pure _)

theorem retains_setLocalDescription (node : Ptr) (role : String) :
    Keeps (Retains P bound) (setLocalDescription node role) :=
  keeps_bind (retains_readNode _) (fun _ => retains_call _)

theorem retains_sendDescription (env : Env) (node : Ptr) (role : String) :
    Keeps (Retains P bound) (sendDescription env node role) := by
  apply keeps_bind (retains_readNode _)
  intro n
  apply keeps_get_bind
  intro ctx
  split
  · exact keeps_throw _
  · exact retains_sendSignalMessage _ _

theorem retains_onPcLocalCandidateCallback (env : Env) (node : Ptr) (candidate mid : String) :
    Keeps (Retains P bound) (onPcLocalCandidateCallback env node candidate mid) := by
  apply keeps_bind (retains_readNode _)
  intro n
  apply keeps_get_bind
  intro ctx
  split
  · exact keeps_pure _
  · exact keeps_bind (retains_sendSignalMessage _ _) (fun _ => keeps_pure _)

theorem retains_setStatus (ht : Tolerates P bound linked measured) (p : Ptr)
    (st : PeerConnectionStatus) : Keeps (Retains P bound) (modifyNode p (setStatus st)) :=
  retains_modifyNode p (fun n => ht.status p n st)

theorem retains_markSelected (ht : Tolerates P bound linked measured) (p : Ptr) :
    Keeps (Retains P bound) (markSelected p) :=
  keeps_bind (retains_readNode _) (fun _ => retains_setStatus ht p _)

theorem retains_setNetworkQuality (ht : Tolerates P bound linked measured) {p : Ptr}
    {f : NetworkQualityMetrics → NetworkQualityMetrics} (h : measured p f) :
    Keeps (Retains P bound) (modifyNode p (setNetworkQuality f)) :=
  retains_modifyNode p (fun n => ht.quality p n f h)

theorem retains_joinRoom (env : Env) (roomId localId : Option String) :
    Keeps (Retains P bound) (joinRoom env roomId localId) :=
  fun _ => retains_of_nodes rfl

theorem retains_findOrCreateNode (ht : Tolerates P bound linked measured) (env : Env)
    (lookupId createId : Option String) :
    Keeps (Retains P bound) (findOrCreateNode env lookupId createId) := by
  apply keeps_get_bind
  intro ctx
  split
  · exact keeps_pure _
  · apply keeps_bind (retains_createPeerConnection ht env createId)
    intro ret
    split
    · exact keeps_pure _
    · exact keeps_get_bind (fun _ => keeps_pure _)

theorem retains_handleAnswer (senderId description : Option String) :
    Keeps (Retains P bound) (handleAnswer senderId description) := by
  apply keeps_get_bind
  intro ctx
  split
  · apply keeps_bind (retains_readNode _)
    intro n
    exact keeps_bind (retains_call _) (fun _ => keeps_pure _)
  · exact keeps_pure _

theorem retains_handleCandidate (senderId candidate mid : Option String) :
    Keeps (Retains P bound) (handleCandidate senderId candidate mid) := by
  apply keeps_get_bind
  intro ctx
  split
  · apply keeps_bind (retains_readNode _)
    intro n
    exact keeps_bind (retains_call _) (fun _ => keeps_pure _)
  · exact keeps_pure _

end Connection

section Tracks

variable (ht : Tolerates P bound linked measured)

include ht

theorem retains_appendTrack (node : Ptr) {track : PeerConnectionTrack} (h : linked track) :
    Keeps (Retains P bound) (appendPeerConnectionTrackToList node track) := by
  have hlink : Keeps (Retains P bound) (modifyTracks node fun tracks => tracks.link track) :=
    retains_modifyNode node (fun n => ht.link node n track h)
  apply keeps_bind (retains_readNode _)
  intro n
  split
  · exact hlink
  · apply keeps_bind (retains_modifyNode node fun n => ht.unlink node n _)
    intro _
    exact keeps_bind (retains_call _) (fun _ => hlink)

omit ht in
theorem retains_registerChannelCallbacks (env : Env) (trackId : Int) (callbacks : List ChannelCallback) :
    Keeps (Retains P bound) (registerChannelCallbacks env trackId callbacks) := by
  induction callbacks with
  | nil => exact keeps_pure _
  | cons callback callbacks ih =>
      apply keeps_bind (retains_call _)
      intro _
      split
      · exact keeps_pure _
      · exact ih

theorem retains_setupTrackCommonLogic (env : Env) (node : Ptr) {track : PeerConnectionTrack}
    (h : linked track) : Keeps (Retains P bound) (setupTrackCommonLogic env node track) := by
  apply keeps_bind (retains_appendTrack ht node h)
  intro _
  exact keeps_bind (retains_call _) (fun _ => retains_registerChannelCallbacks _ _ _)

theorem retains_initSendTrackEx (env : Env) {stream : AVStream} (node : Ptr) {trackId : Int} {index : Nat}
    (h : stream.codecType ≠ .other → linked ⟨index, trackTypeOf stream.codecType, trackId⟩) :
    Keeps (Retains P bound) (initSendTrackEx env stream node trackId index) := by
  apply keeps_bind (retains_readNode _)
  intro n
  split
  · exact keeps_pure _
  · next hkind =>
      split
      · exact keeps_pure _
      · apply keeps_bind (retains_modifyNode node fun n => ht.media node n _ _)
        intro _
        apply keeps_bind (retains_setupTrackCommonLogic ht env node (h hkind))
        intro ret
        split
        · exact keeps_bind (keeps_doWhen _ (retains_call _)) (fun _ => keeps_pure _)
        · exact keeps_pure _

theorem retains_createSendMediaTrack (env : Env) {stream : AVStream} (node : Option Ptr) {index : Nat}
    (h : stream.codecType ≠ .other →
      ∀ trackId, linked ⟨index, trackTypeOf stream.codecType, trackId⟩) :
    Keeps (Retains P bound) (createSendMediaTrack env stream node index) := by
  unfold createSendMediaTrack
  split
  · exact keeps_pure _
  · next hkind =>
      apply keeps_bind (retains_readNode _)
      intro n
      split
      · split
        · exact keeps_throw _
        · split
          · exact keeps_pure _
          · apply keeps_bind (retains_call _)
            intro _
            apply keeps_bind (retains_initSendTrackEx ht env _ fun hk => h hk _)
            intro ret
            split
            · exact keeps_bind (retains_call _) (fun _ => keeps_pure _)
            · exact keeps_pure _
      · exact keeps_pure _

theorem retains_createSendMediaTracks (env : Env) (node : Option Ptr) (index : Nat) {streams : List AVStream}
    (h : ∀ i stream, streams[i]? = some stream → stream.codecType ≠ .other →
      ∀ trackId, linked ⟨(index + i : Nat), trackTypeOf stream.codecType, trackId⟩) :
    Keeps (Retains P bound) (createSendMediaTracks env node index streams) := by
  induction streams generalizing index with
  | nil => exact keeps_pure _
  | cons stream streams ih =>
      apply keeps_bind (retains_createSendMediaTrack ht env node (h 0 stream rfl))
      intro ret
      cases ret with
      | some code => exact keeps_pure _
      | none =>
          apply ih
          intro i st hst hkind trackId
          rw [Nat.add_assoc, Nat.add_comm 1]
          exact h (i + 1) st hst hkind trackId

theorem retains_initProbeTrackEx (env : Env) (node : Ptr) (h : ∀ id, linked (probeChannelTrack id)) :
    Keeps (Retains P bound) (initProbeTrackEx env node) := by
  apply keeps_bind (retains_readNode _)
  intro n
  apply keeps_bind (retains_call _)
  intro _
  split
  · exact keeps_pure _
  · apply keeps_bind (retains_setupTrackCommonLogic ht env node (h _))
    intro ret
    split
    · exact keeps_bind (retains_call _) (fun _ => keeps_pure _)
    · exact keeps_pure _

theorem retains_createProbeTrack (env : Env) (node : Option Ptr) (h : ∀ id, linked (probeChannelTrack id)) :
    Keeps (Retains P bound) (createProbeTrack env node) := by
  apply keeps_bind (retains_readNode _)
  intro n
  split
  · split
    · exact keeps_pure _
    · apply keeps_bind (retains_initProbeTrackEx ht env _ h)
      intro ret
      split
      · exact keeps_bind (retains_call _) (fun _ => keeps_pure _)
      · apply keeps_bind (retains_modifyNode _ fun n => ht.probe _ n _)
        exact fun _ => keeps_pure _
  · exact keeps_pure _

theorem retains_onPcDataChannelCallback (env : Env) (node : Ptr) (channelId : Int)
    (h : ∀ id, linked (probeChannelTrack id)) :
    Keeps (Retains P bound) (onPcDataChannelCallback env node channelId) := by
  apply keeps_bind (retains_readNode _)
  intro n
  split
  · exact keeps_pure _
  · split
    · exact keeps_throw _
    · exact keeps_bind (retains_setupTrackCommonLogic ht env node (h _)) (fun _ => keeps_pure _)

theorem retains_adoptProbeChannel (env : Env) (node : Ptr) (channelId : Int) (track : Ptr) :
    Keeps (Retains P bound) (adoptProbeChannel env node channelId track) := by
  apply keeps_bind (retains_call _)
  intro _
  apply keeps_bind (retains_registerChannelCallbacks _ _ _)
  intro _
  apply keeps_bind (retains_readNode _)
  intro n
  split
  · split
    · exact retains_modifyNode node (fun n => ht.probe node n _)
    · exact keeps_pure _
  · exact keeps_pure _

theorem retains_onProbeChannelOpen (env : Env) (node : Ptr) (channelId : Int)
    (h : ∀ id, linked (probeChannelTrack id)) :
    Keeps (Retains P bound) (onProbeChannelOpen env node channelId) := by
  apply keeps_bind (retains_readNode _)
  intro n
  split
  · exact retains_adoptProbeChannel ht _ _ _ _
  · split
    · exact keeps_pure _
    · apply keeps_bind (retains_setupTrackCommonLogic ht env node (h _))
      intro ret
      split
      · exact retains_call _
      · exact retains_adoptProbeChannel ht _ _ _ _

end Tracks

section Probe

variable (ht : Tolerates P bound linked measured)

include ht

variable {node : Ptr}

theorem retains_sendProbePacketsFrom (env : Env) (trackId : Int)
    (h : measured node fun data => { data with packetsSent := data.packetsSent + 1 }) (is : List Nat) :
    Keeps (Retains P bound) (sendProbePacketsFrom env node trackId is) := by
  induction is with
  | nil => exact keeps_pure _
  | cons i is ih =>
      apply keeps_bind (retains_readNode _)
      intro n
      apply keeps_bind (retains_call _)
      intro _
      split
      · exact keeps_pure _
      · exact keeps_bind (retains_setNetworkQuality ht h) (fun _ => ih)

theorem retains_sendProbePackets (env : Env)
    (hexpected : measured node fun data => { data with expectedPackets := totalPackets })
    (hsent : measured node fun data => { data with packetsSent := data.packetsSent + 1 }) :
    Keeps (Retains P bound) (sendProbePackets env node) := by
  apply keeps_bind (retains_readNode _)
  intro n
  split
  · exact keeps_pure _
  · split
    · exact keeps_throw _
    · split
      · exact keeps_pure _
      · exact keeps_bind (retains_setNetworkQuality ht hexpected)
          (fun _ => retains_sendProbePacketsFrom ht env _ hsent _)

theorem retains_handleProbePacket {header : ProbePacketHeader} (size : Int32) (crc : UInt32) {now : Int}
    (h : measured node (recordProbePacket header now)) :
    Keeps (Retains P bound) (handleProbePacket node header size crc now) := by
  apply keeps_bind (retains_readNode _)
  intro _
  split
  · exact keeps_pure _
  · split
    · exact keeps_pure _
    · split
      · exact keeps_throw _
      · split
        · exact keeps_throw _
        · exact retains_setNetworkQuality ht h

theorem retains_selectBestNode (h : ∀ p, measured p recordScore) :
    Keeps (Retains P bound) selectBestNode := by
  apply keeps_get_bind
  intro ctx
  refine keeps_bind (keeps_walkNodes ?_ _ _) (fun _ => keeps_pure _)
  intro p n best
  apply keeps_bind (retains_setNetworkQuality ht (h p))
  intro _
  split
  · exact keeps_pure _
  · exact keeps_pure _

theorem retains_sendProbeRequestToPublisher (env : Env) (h : measured node fun data =>
      { data with
        expectedPackets := totalPackets
        timeoutMs := probeTimeoutMs
        probeStartTime := env.now }) :
    Keeps (Retains P bound) (sendProbeRequestToPublisher env node) := by
  apply keeps_bind (retains_readNode _)
  intro n
  apply keeps_get_bind
  intro ctx
  split
  · exact keeps_pure _
  · exact keeps_bind (retains_setNetworkQuality ht h) (fun _ => retains_sendSignalMessage _ _)

omit ht in
theorem retains_sendStreamRequest (env : Env) (node : Option Ptr) :
    Keeps (Retains P bound) (sendStreamRequest env node) := by
  cases node with
  | none => exact keeps_pure _
  | some p =>
      apply keeps_bind (retains_readNode _)
      intro n
      apply keeps_get_bind
      intro ctx
      split
      · exact keeps_pure _
      · exact retains_sendSignalMessage _ _

end Probe

def PcEvent.measures : PcEvent → Ptr → (NetworkQualityMetrics → NetworkQualityMetrics) → Prop
  | .iceStateChange node state, p, f =>
      p = node ∧ f = fun data => { data with iceConnectivityScore := iceScore state }
  | .probeChannelMessage node header _ _ now, p, f => p = node ∧ f = recordProbePacket header now
  | _, _, _ => False

theorem retains_handle (ht : Tolerates P bound linked measured) (event : PcEvent)
    (hlinked : ∀ id, linked (probeChannelTrack id)) (hmeasured : ∀ p f, event.measures p f → measured p f) :
    Keeps (Retains P bound) event.handle := by
  cases event with
  | localCandidate env node candidate mid => exact retains_onPcLocalCandidateCallback _ _ _ _
  | iceStateChange node state => exact retains_setNetworkQuality ht (hmeasured _ _ ⟨rfl, rfl⟩)
  | dataChannel env node channelId => exact retains_onPcDataChannelCallback ht env node _ hlinked
  | probeChannelOpen env node channelId => exact retains_onProbeChannelOpen ht env node _ hlinked
  | probeChannelMessage node header size crc now =>
      exact retains_handleProbePacket ht size crc (hmeasured _ _ ⟨rfl, rfl⟩)

end

end P2PFFmpeg.Peer
