import P2PFFmpeg.Peer.Connection

namespace P2PFFmpeg.Peer

open Library Library.Program Message

inductive MediaType
  | video | audio | other
  deriving DecidableEq, Repr

structure AVStream where
  codecType : MediaType
  sampleRate : Int

def modifyTracks (node : Ptr)
    (f : Linked PeerConnectionTrack → Linked PeerConnectionTrack) : PeerM Unit :=
  modifyNode node fun n => { n with trackCaches := f n.trackCaches }

def hasTrackId (trackId : Int) (track : PeerConnectionTrack) : Bool := track.trackId == trackId

/-- The track is linked at the next address of the list; an older track with the
same id is freed first. -/
def appendPeerConnectionTrackToList (node : Ptr) (newTrack : PeerConnectionTrack) : PeerM Unit := do
  let n ← readNode (some node)
  match n.trackCaches.find? (hasTrackId newTrack.trackId) with
  | none => modifyTracks node fun tracks => tracks.link newTrack
  | some t => do
      modifyTracks node fun tracks => tracks.unlink (hasTrackId newTrack.trackId)
      call (.freeTrack node t)
      modifyTracks node fun tracks => tracks.link newTrack

def registerChannelCallbacks (env : Env) (trackId : Int) : List ChannelCallback → PeerM Int
  | [] => pure 0
  | callback :: callbacks => do
      call (.setChannelCallback trackId callback)
      if env.setChannelCallback trackId callback < 0 then pure averrorExternal
      else registerChannelCallbacks env trackId callbacks

def trackCallbacks : PeerConnectionTrackType → List ChannelCallback
  | .probeChannel => [.opened, .error, .closed, .message]
  | _ => [.opened, .error, .closed]

def setupTrackCommonLogic (env : Env) (node : Ptr) (track : PeerConnectionTrack) : PeerM Int := do
  appendPeerConnectionTrackToList node track
  call (.setUserPointer track.trackId (some node))
  registerChannelCallbacks env track.trackId (trackCallbacks track.trackType)

def trackTypeOf : MediaType → PeerConnectionTrackType
  | .video => .video
  | .audio => .audio
  | .other => .unknown

def mediaTrack (n : PeerConnectionNode) : MediaType → Option Ptr
  | .video => n.videoTrack
  | .audio => n.audioTrack
  | .other => none

def setMediaTrack (kind : MediaType) (track : Ptr) (n : PeerConnectionNode) : PeerConnectionNode :=
  match kind with
  | .video => { n with videoTrack := some track }
  | .audio => { n with audioTrack := some track }
  | .other => n

/-- The node refers to the track before the set-up that may fail. -/
def initSendTrackEx (env : Env) (stream : AVStream) (node : Ptr) (trackId : Int) (index : Nat) :
    PeerM Int := do
  let n ← readNode (some node)
  if stream.codecType = .other then pure averrorEinval
  else if stream.codecType = .audio ∧ stream.sampleRate ≠ 48000 then pure averrorEinval
  else do
    modifyNode node (setMediaTrack stream.codecType n.trackCaches.fresh)
    let track : PeerConnectionTrack :=
      { streamIndex := index
        trackType := trackTypeOf stream.codecType
        trackId := trackId }
    let ret ← setupTrackCommonLogic env node track
    if ret < 0 then do
      doWhen (0 < trackId) (call (.deleteTrack trackId))
      pure ret
    else pure 0

/-- One round of the loop over the streams in the CONNECT_REQUEST branch; the
video and the audio case differ in the field they fill. A result ends the branch. -/
def createSendMediaTrack (env : Env) (stream : AVStream) (node : Option Ptr) (index : Nat) :
    PeerM (Option Int) :=
  if stream.codecType = .other then pure none
  else do
    let n ← readNode node
    match node, mediaTrack n stream.codecType with
    | some p, none =>
        -- the new track is written to before it is checked
        if env.allocTrack index = false then throw .nullTrack
        else if env.createSendTrack index < 0 then pure (some (env.createSendTrack index))
        else do
          call (.addTrack n.pcId (env.createSendTrack index))
          let ret ← initSendTrackEx env stream p (env.createSendTrack index) index
          if ret < 0 then do
            call (.freeTrack p n.trackCaches.fresh)
            pure (some ret)
          else pure none
    | _, _ => pure none

def createSendMediaTracks (env : Env) (node : Option Ptr) : Nat → List AVStream → PeerM (Option Int)
  | _, [] => pure none
  | index, stream :: streams => do
      let ret ← createSendMediaTrack env stream node index
      match ret with
      | some code => pure (some code)
      | none => createSendMediaTracks env node (index + 1) streams

def setProbeTrack (track : Ptr) (n : PeerConnectionNode) : PeerConnectionNode :=
  { n with probeTrack := some track }

def probeChannelTrack (channelId : Int) : PeerConnectionTrack :=
  { streamIndex := -1
    trackType := .probeChannel
    trackId := channelId }

def initProbeTrackEx (env : Env) (node : Ptr) : PeerM Int := do
  let n ← readNode (some node)
  call (.createDataChannel n.pcId env.createDataChannel)
  if env.createDataChannel ≤ 0 then pure averrorExternal
  else do
    let ret ← setupTrackCommonLogic env node (probeChannelTrack env.createDataChannel)
    if ret < 0 then do
      call (.deleteDataChannel env.createDataChannel)
      pure ret
    else pure 0

def createProbeTrack (env : Env) (node : Option Ptr) : PeerM (Option Int) := do
  let n ← readNode node
  match node, n.probeTrack with
  | some p, none =>
      if env.allocProbeTrack = false then pure (some averrorEnomem)
      else do
        let ret ← initProbeTrackEx env p
        if ret < 0 then do
          call (.freeTrack p n.trackCaches.fresh)
          pure (some ret)
        else do
          modifyNode p (setProbeTrack n.trackCaches.fresh)
          pure none
  | _, _ => pure none

def onPcDataChannelCallback (env : Env) (node : Ptr) (channelId : Int) : PeerM Unit := do
  let n ← readNode (some node)
  match n.trackCaches.find? (hasTrackId channelId) with
  | some _ => pure ()
  | none =>
      if env.allocProbeTrack = false then throw .nullTrack
      else do
        let _ ← setupTrackCommonLogic env node (probeChannelTrack channelId)
        pure ()

def adoptProbeChannel (env : Env) (node : Ptr) (channelId : Int) (track : Ptr) : PeerM Unit := do
  call (.setUserPointer channelId (some node))
  let _ ← registerChannelCallbacks { env with setChannelCallback := fun _ _ => 0 } channelId
    (trackCallbacks .probeChannel)
  let n ← readNode (some node)
  match n.probeTrack, n.trackCaches.get? track with
  | none, some t =>
      if t.trackType = .probeChannel then modifyNode node (setProbeTrack track) else pure ()
  | _, _ => pure ()

def onProbeChannelOpen (env : Env) (node : Ptr) (channelId : Int) : PeerM Unit := do
  let n ← readNode (some node)
  match n.trackCaches.find? (hasTrackId channelId) with
  | some t => adoptProbeChannel env node channelId t
  | none =>
      if env.allocProbeTrack = false then pure ()
      else do
        let ret ← setupTrackCommonLogic env node (probeChannelTrack channelId)
        if ret < 0 then call (.freeTrack node n.trackCaches.fresh)
        else adoptProbeChannel env node channelId n.trackCaches.fresh

variable {w : Permit}

theorem frame_modifyTracks (node : Ptr) (f : Linked PeerConnectionTrack → Linked PeerConnectionTrack) :
    Keeps (Frame w) (modifyTracks node f) :=
  frame_modifyNode node (fun _ => ⟨rfl, rfl, Or.inl rfl, Or.inl⟩)

theorem frame_appendPeerConnectionTrackToList (node : Ptr) (newTrack : PeerConnectionTrack) :
    Keeps (Frame w) (appendPeerConnectionTrackToList node newTrack) := by
  apply keeps_bind (frame_readNode _)
  intro n
  split
  · exact frame_modifyTracks _ _
  · apply keeps_bind (frame_modifyTracks _ _)
    intro _
    exact keeps_bind (frame_call fun _ => by trivial) (fun _ => frame_modifyTracks _ _)

theorem frame_registerChannelCallbacks (env : Env) (trackId : Int) (callbacks : List ChannelCallback) :
    Keeps (Frame w) (registerChannelCallbacks env trackId callbacks) := by
  induction callbacks with
  | nil => exact keeps_pure _
  | cons callback callbacks ih =>
      apply keeps_bind (frame_call fun _ => by trivial)
      intro _
      split
      · exact keeps_pure _
      · exact ih

theorem readNode_linked {p : Ptr} {s : P2PContext} {n : PeerConnectionNode}
    (h : value (readNode (some p)) s = some n) : p ∈ s.peerConnectionNodeCaches.addrs :=
  Linked.mem_addrs_iff.mpr ⟨n, readNode_value h⟩

theorem frame_setUserPointer {s : P2PContext} {node : Ptr} (id : Int)
    (h : node ∈ s.peerConnectionNodeCaches.addrs ∨ w.lost node) :
    Frame w s (after (call (.setUserPointer id (some node))) s) := frame_call_at h

theorem frame_setupTrackCommonLogic (env : Env) (node : Ptr) (track : PeerConnectionTrack) :
    Keeps (Frame w) (setupTrackCommonLogic env node track) := by
  intro s
  have happend := @frame_appendPeerConnectionTrackToList w node track s
  refine related_bind happend ?_
  intro _ hv
  refine related_bind (frame_setUserPointer _ ?_) (fun _ _ => frame_registerChannelCallbacks _ _ _ _)
  obtain ⟨n, hn, _⟩ := value_bind_some hv
  by_cases hl : w.lost node
  · exact Or.inr hl
  · exact Or.inl (happend.linked hl (readNode_linked hn))

theorem frame_setMediaTrack (node : Ptr) (kind : MediaType) (track : Ptr) :
    Keeps (Frame w) (modifyNode node (setMediaTrack kind track)) := by
  apply frame_modifyNode
  intro n
  cases kind <;> exact ⟨rfl, rfl, Or.inl rfl, Or.inl⟩

theorem frame_initSendTrackEx (env : Env) (stream : AVStream) (node : Ptr) (trackId : Int)
    (index : Nat) : Keeps (Frame w) (initSendTrackEx env stream node trackId index) := by
  apply keeps_bind (frame_readNode _)
  intro n
  split
  · exact keeps_pure _
  · split
    · exact keeps_pure _
    · apply keeps_bind (frame_setMediaTrack _ _ _)
      intro _
      apply keeps_bind (frame_setupTrackCommonLogic _ _ _)
      intro ret
      split
      · exact keeps_bind (keeps_doWhen _ (frame_call fun _ => by trivial)) (fun _ => keeps_pure _)
      · exact keeps_pure _

theorem frame_createSendMediaTrack (env : Env) (stream : AVStream) (node : Option Ptr)
    (index : Nat) : Keeps (Frame w) (createSendMediaTrack env stream node index) := by
  unfold createSendMediaTrack
  split
  · exact keeps_pure _
  · apply keeps_bind (frame_readNode _)
    intro n
    split
    · split
      · exact keeps_throw _
      · split
        · exact keeps_pure _
        · apply keeps_bind (frame_call fun _ => by trivial)
          intro _
          apply keeps_bind (frame_initSendTrackEx _ _ _ _ _)
          intro ret
          split
          · exact keeps_bind (frame_call fun _ => by trivial) (fun _ => keeps_pure _)
          · exact keeps_pure _
    · exact keeps_pure _

theorem frame_createSendMediaTracks (env : Env) (node : Option Ptr) (index : Nat)
    (streams : List AVStream) : Keeps (Frame w) (createSendMediaTracks env node index streams) := by
  induction streams generalizing index with
  | nil => exact keeps_pure _
  | cons stream streams ih =>
      apply keeps_bind (frame_createSendMediaTrack _ _ _ _)
      intro ret
      cases ret with
      | some code => exact keeps_pure _
      | none => exact ih _

theorem frame_setProbeTrack (node track : Ptr) : Keeps (Frame w) (modifyNode node (setProbeTrack track)) :=
  frame_modifyNode node (fun _ => ⟨rfl, rfl, Or.inl rfl, Or.inl⟩)

theorem frame_initProbeTrackEx (env : Env) (node : Ptr) : Keeps (Frame w) (initProbeTrackEx env node) := by
  apply keeps_bind (frame_readNode _)
  intro n
  apply keeps_bind (frame_call fun _ => by trivial)
  intro _
  split
  · exact keeps_pure _
  · apply keeps_bind (frame_setupTrackCommonLogic _ _ _)
    intro ret
    split
    · exact keeps_bind (frame_call fun _ => by trivial) (fun _ => keeps_pure _)
    · exact keeps_pure _

theorem frame_createProbeTrack (env : Env) (node : Option Ptr) :
    Keeps (Frame w) (createProbeTrack env node) := by
  apply keeps_bind (frame_readNode _)
  intro n
  split
  · split
    · exact keeps_pure _
    · apply keeps_bind (frame_initProbeTrackEx _ _)
      intro ret
      split
      · exact keeps_bind (frame_call fun _ => by trivial) (fun _ => keeps_pure _)
      · exact keeps_bind (frame_setProbeTrack _ _) (fun _ => keeps_pure _)
  · exact keeps_pure _

theorem frame_onPcDataChannelCallback (env : Env) (node : Ptr) (channelId : Int) :
    Keeps (Frame w) (onPcDataChannelCallback env node channelId) := by
  apply keeps_bind (frame_readNode _)
  intro n
  split
  · exact keeps_pure _
  · split
    · exact keeps_throw _
    · exact keeps_bind (frame_setupTrackCommonLogic _ _ _) (fun _ => keeps_pure _)

theorem frame_adoptProbeChannel (env : Env) {node : Ptr} (channelId : Int) (track : Ptr)
    {s : P2PContext} (h : node ∈ s.peerConnectionNodeCaches.addrs ∨ w.lost node) :
    Frame w s (after (adoptProbeChannel env node channelId track) s) := by
  refine related_bind (frame_setUserPointer channelId h) ?_
  intro _ _
  refine keeps_bind (frame_registerChannelCallbacks _ _ _) ?_ _
  intro _
  apply keeps_bind (frame_readNode _)
  intro n
  split
  · split
    · exact frame_setProbeTrack _ _
    · exact keeps_pure _
  · exact keeps_pure _

theorem frame_onProbeChannelOpen (env : Env) (node : Ptr) (channelId : Int) :
    Keeps (Frame w) (onProbeChannelOpen env node channelId) := by
  intro s
  refine related_bind (frame_readNode _ s) ?_
  intro n hn
  rw [readNode_after]
  have hlinked := readNode_linked hn
  split
  · exact frame_adoptProbeChannel _ _ _ (Or.inl hlinked)
  · split
    · exact Frame.refl s
    · have hsetup := @frame_setupTrackCommonLogic w env node (probeChannelTrack channelId) s
      refine related_bind hsetup ?_
      intro ret _
      split
      · exact frame_call (fun _ => by trivial) _
      · apply frame_adoptProbeChannel
        by_cases hl : w.lost node
        · exact Or.inr hl
        · exact Or.inl (hsetup.linked hl hlinked)

end P2PFFmpeg.Peer
