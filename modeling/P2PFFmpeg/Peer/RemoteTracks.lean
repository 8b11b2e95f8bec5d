import P2PFFmpeg.Library.Program
import P2PFFmpeg.Peer.Tracks
import Mathlib.Data.List.Infix

namespace P2PFFmpeg.Peer

open Library Library.Program Message

inductive RtcDirection
  | unknown | sendonly | recvonly | sendrecv | inactive
  deriving DecidableEq, Repr

inductive RecvCodec
  | h264 | h265 | vp8 | vp9 | opus | aac | pcmS16le
  deriving DecidableEq, Repr

structure RecvStream where
  codecType : MediaType
  codecId : RecvCodec
  deriving DecidableEq, Repr

/-- The peer with the streams of its avctx. -/
structure RemoteContext where
  p2pContext : P2PContext
  streams : List RecvStream

abbrev RemoteM := EStateM Fault RemoteContext

def onNodes {α : Type} (x : PeerM α) : RemoteM α :=
  zoom RemoteContext.p2pContext (fun c ctx => { ctx with p2pContext := c }) x

/-- A remote track, and what the calls return that its callback makes. -/
structure RemoteTrack where
  trackId : Int
  direction : RtcDirection
  description : String
  allocTrack : Bool
  newStream : Bool
  urlContext : Int
  setChannelCallback : ChannelCallback → Int
  allocContext : Bool
  trackDescription : Int
  openInput : Int
  fdopen : Int

def strcmp (a b : String) : Int := if a = b then 0 else if a < b then -1 else 1

def strstr (haystack needle : String) : Bool := needle.toList <:+: haystack.toList

def trackSdp (description : String) : String :=
  if description.utf8ByteSize + 1 ≤ 1024 then description else ""

def videoCodecId (codec : String) : RecvCodec :=
  if strstr codec "h264" then .h264
  else if strstr codec "h265" || strstr codec "hevc" then .h265
  else if strstr codec "vp8" then .vp8
  else if strstr codec "vp9" then .vp9
  else .h264

def audioCodecId (codec : String) : RecvCodec :=
  if strstr codec "opus" then .opus
  else if strstr codec "aac" then .aac
  else if strstr codec "pcm" then .pcmS16le
  else .opus

/-- An environment that only answers the registration of callbacks. -/
def RemoteTrack.env (a : RemoteTrack) : Env :=
  { Env.succeeding 0 0 with setChannelCallback := fun _ => a.setChannelCallback }

def RemoteTrack.track (a : RemoteTrack) (kind : MediaType) (index : Nat) : PeerConnectionTrack where
  streamIndex := index
  trackType := trackTypeOf kind
  trackId := a.trackId

def openRecvTrack (a : RemoteTrack) (node : Ptr) (kind : MediaType) (index : Nat) : PeerM Int :=
  if a.urlContext < 0 then pure a.urlContext
  else do
    let ret ← setupTrackCommonLogic a.env node (a.track kind index)
    if ret < 0 then pure ret
    else if a.allocContext = false then pure averrorEnomem
    else if a.trackDescription < 0 then pure a.trackDescription
    else if a.openInput < 0 then pure a.openInput
    else if a.fdopen < 0 then pure a.fdopen
    else pure 0

def initRecvTrackEx (a : RemoteTrack) (node : Ptr) (kind : MediaType) (index : Nat) : PeerM Int := do
  let ret ← openRecvTrack a node kind index
  if ret < 0 then do
    doWhen (0 < a.trackId) (call (.deleteTrack a.trackId))
    pure ret
  else pure 0

def newStream (stream : RecvStream) : RemoteM Nat := do
  let ctx ← get
  modify fun ctx => { ctx with streams := ctx.streams ++ [stream] }
  pure ctx.streams.length

def keepBareTrack (kind : MediaType) (n : PeerConnectionNode) : PeerConnectionNode :=
  setMediaTrack kind n.trackCaches.fresh { n with trackCaches := n.trackCaches.reserve }

def createRecvTrack (a : RemoteTrack) (node : Ptr) (stream : RecvStream) : RemoteM Unit := do
  let n ← onNodes (readNode (some node))
  match mediaTrack n stream.codecType with
  | some _ => pure ()
  | none =>
      if a.allocTrack = false then pure ()
      else if a.newStream = false then onNodes (modifyNode node (keepBareTrack stream.codecType))
      else do
        let index ← newStream stream
        let ret ← onNodes (initRecvTrackEx a node stream.codecType index)
        if ret < 0 then onNodes (call (.freeTrack node n.trackCaches.fresh))
        else onNodes (modifyNode node (setMediaTrack stream.codecType n.trackCaches.fresh))

def appendUnknownTrack (a : RemoteTrack) (node : Ptr) : RemoteM Unit :=
  if a.allocTrack = false then pure ()
  else onNodes (appendPeerConnectionTrackToList node
    { streamIndex := 0, trackType := .unknown, trackId := a.trackId })

/-- The codec is an argument of rtcGetTrackPayloadTypesForCodec, so that its
buffer stays empty; the results of strcmp stand as conditions. -/
def classifyTrack (sdp : String) (a : RemoteTrack) (node : Ptr) : RemoteM Unit :=
  let codec := ""
  if strcmp sdp "m=video" ≠ 0 ∨ strstr codec "h264" ∨ strstr codec "h265" ∨ strstr codec "vp8" ∨
      strstr codec "vp9" then
    createRecvTrack a node ⟨.video, videoCodecId codec⟩
  else if strcmp sdp "m=audio" ≠ 0 ∨ strstr codec "opus" ∨ strstr codec "aac" ∨ strstr codec "pcm" then
    createRecvTrack a node ⟨.audio, audioCodecId codec⟩
  else appendUnknownTrack a node

def onPcTrackCallback (a : RemoteTrack) (node : Ptr) : RemoteM Unit := do
  let _ ← onNodes (readNode (some node))
  if a.direction = .sendonly then pure () else classifyTrack (trackSdp a.description) a node

def announceTracks (node : Ptr) : List RemoteTrack → RemoteM Unit
  | [] => pure ()
  | a :: tracks => do
      onPcTrackCallback a node
      announceTracks node tracks

theorem strcmp_ne_zero (a b : String) : strcmp a b ≠ 0 ↔ a ≠ b := by
  unfold strcmp
  split
  · next h => simp [h]
  · next h =>
      split
      · simp [h]
      · simp [h]

theorem trackSdp_ne_video (description : String) :
    trackSdp description ≠ "m=video" ↔ description ≠ "m=video" := by
  unfold trackSdp
  split
  · rfl
  · next hlong =>
      refine ⟨fun _ h => hlong ?_, fun _ => by decide⟩
      rw [h]
      decide

def RemoteTrack.stream (a : RemoteTrack) : RecvStream :=
  if a.description = "m=video" then ⟨.audio, .opus⟩ else ⟨.video, .h264⟩

theorem onPcTrackCallback_eq {a : RemoteTrack} (h : a.direction ≠ .sendonly) (node : Ptr) :
    onPcTrackCallback a node =
      (onNodes (readNode (some node)) >>= fun _ => createRecvTrack a node a.stream) := by
  have hvideo : strcmp (trackSdp a.description) "m=video" ≠ 0 ↔ a.description ≠ "m=video" :=
    (strcmp_ne_zero _ _).trans (trackSdp_ne_video _)
  unfold onPcTrackCallback classifyTrack RemoteTrack.stream
  simp only [if_neg h]
  by_cases hd : a.description = "m=video"
  · rw [hd]
    rfl
  · rw [if_pos (Or.inl (hvideo.mpr hd)), if_neg hd]
    rfl

def nodeAt (p : Ptr) (c : P2PContext) : Option PeerConnectionNode := c.peerConnectionNodeCaches.get? p

def remoteAt (p : Ptr) (s : RemoteContext) : Option (PeerConnectionNode × List RecvStream) :=
  (nodeAt p s.p2pContext).map fun n => (n, s.streams)

def appendTrack (track : PeerConnectionTrack) (n : PeerConnectionNode) : PeerConnectionNode :=
  { n with trackCaches := (n.trackCaches.unlink (hasTrackId track.trackId)).link track }

def registered (env : Env) (trackId : Int) (callbacks : List ChannelCallback) : Int :=
  if callbacks.any fun callback => env.setChannelCallback trackId callback < 0 then averrorExternal
  else 0

section NodeAt

variable {p : Ptr} {n : PeerConnectionNode}

theorem turns_readNode : Turns (nodeAt p) n (readNode (some p)) n n :=
  fun s hs => ⟨readNode_some hs, by rw [readNode_after, hs]⟩

theorem turns_call (c : RtcCall) : Turns (nodeAt p) n (call c) () n := turns_modify fun _ hs => hs

theorem turns_modifyNode (f : PeerConnectionNode → PeerConnectionNode) :
    Turns (nodeAt p) n (modifyNode p f) () (f n) := by
  apply turns_modify
  intro s hs
  change (s.peerConnectionNodeCaches.modify p f).get? p = some (f n)
  rw [Linked.get?_modify, if_pos rfl, show s.peerConnectionNodeCaches.get? p = some n from hs]
  rfl

theorem turns_appendTrack (track : PeerConnectionTrack) :
    Turns (nodeAt p) n (appendPeerConnectionTrackToList p track) () (appendTrack track n) := by
  apply turns_bind turns_readNode
  cases hf : n.trackCaches.find? (hasTrackId track.trackId) with
  | none =>
      rw [appendTrack, Linked.unlink_of_find?_none hf]
      exact turns_modifyNode _
  | some t =>
      apply turns_bind (turns_modifyNode _)
      exact turns_bind (turns_call _) (turns_modifyNode _)

theorem turns_registerChannelCallbacks (env : Env) (trackId : Int) (callbacks : List ChannelCallback) :
    Turns (nodeAt p) n (registerChannelCallbacks env trackId callbacks)
      (registered env trackId callbacks) n := by
  induction callbacks with
  | nil => exact turns_pure 0
  | cons callback callbacks ih =>
      apply turns_bind (turns_call _)
      by_cases hneg : env.setChannelCallback trackId callback < 0
      · simpa [registered, hneg] using turns_pure averrorExternal
      · simpa [registered, hneg] using ih

theorem turns_setupTrackCommonLogic (env : Env) (track : PeerConnectionTrack) :
    Turns (nodeAt p) n (setupTrackCommonLogic env p track)
      (registered env track.trackId (trackCallbacks track.trackType)) (appendTrack track n) := by
  apply turns_bind (turns_appendTrack track)
  exact turns_bind (turns_call _) (turns_registerChannelCallbacks _ _ _)

end NodeAt

def RemoteTrack.opens (a : RemoteTrack) (kind : MediaType) : Int :=
  if a.urlContext < 0 then a.urlContext
  else if registered a.env a.trackId (trackCallbacks (trackTypeOf kind)) < 0 then averrorExternal
  else if a.allocContext = false then averrorEnomem
  else if a.trackDescription < 0 then a.trackDescription
  else if a.openInput < 0 then a.openInput
  else if a.fdopen < 0 then a.fdopen
  else 0

def RemoteTrack.leaves (a : RemoteTrack) (kind : MediaType) (index : Nat) (n : PeerConnectionNode) :
    PeerConnectionNode :=
  if a.urlContext < 0 then n else appendTrack (a.track kind index) n

theorem registered_cases (env : Env) (trackId : Int) (callbacks : List ChannelCallback) :
    registered env trackId callbacks = 0 ∨ registered env trackId callbacks = averrorExternal := by
  unfold registered
  split
  · exact Or.inr rfl
  · exact Or.inl rfl

theorem RemoteTrack.opens_nonpos (a : RemoteTrack) (kind : MediaType) :
    a.opens kind < 0 ∨ a.opens kind = 0 := by
  unfold RemoteTrack.opens
  split
  · next h => exact Or.inl h
  · split
    · exact Or.inl (by decide)
    · split
      · exact Or.inl (by decide)
      · split
        · next h => exact Or.inl h
        · split
          · next h => exact Or.inl h
          · split
            · next h => exact Or.inl h
            · exact Or.inr rfl

section RemoteAt

variable {p : Ptr} {n : PeerConnectionNode} {streams : List RecvStream}

theorem turns_openRecvTrack (a : RemoteTrack) (kind : MediaType) (index : Nat) :
    Turns (nodeAt p) n (openRecvTrack a p kind index) (a.opens kind) (a.leaves kind index n) := by
  unfold openRecvTrack RemoteTrack.opens RemoteTrack.leaves
  by_cases hurl : a.urlContext < 0
  · simpa only [if_pos hurl] using turns_pure a.urlContext
  · simp only [if_neg hurl]
    apply turns_bind (turns_setupTrackCommonLogic _ _)
    rw [show (a.track kind index).trackId = a.trackId from rfl,
      show (a.track kind index).trackType = trackTypeOf kind from rfl]
    split
    · next hneg =>
        rcases registered_cases a.env a.trackId (trackCallbacks (trackTypeOf kind)) with h | h
        · rw [h] at hneg
          exact absurd hneg (by decide)
        · rw [h]
          exact turns_pure _
    · split
      · exact turns_pure _
      · split
        · exact turns_pure _
        · split
          · exact turns_pure _
          · split
            · exact turns_pure _
            · exact turns_pure _

theorem turns_initRecvTrackEx (a : RemoteTrack) (kind : MediaType) (index : Nat) :
    Turns (nodeAt p) n (initRecvTrackEx a p kind index) (a.opens kind) (a.leaves kind index n) := by
  apply turns_bind (turns_openRecvTrack a kind index)
  rcases a.opens_nonpos kind with hneg | hzero
  · rw [if_pos hneg]
    exact turns_bind (turns_doWhen _ (turns_call _)) (turns_pure _)
  · rw [hzero]
    exact turns_pure 0

theorem turns_onNodes {α : Type} {x : PeerM α} {r : α} {m : PeerConnectionNode}
    (h : Turns (nodeAt p) n x r m) : Turns (remoteAt p) (n, streams) (onNodes x) r (m, streams) := by
  refine turns_zoom ?_ ?_ h
  · intro t ht
    obtain ⟨k, hk, hkn⟩ := Option.map_eq_some_iff.mp ht
    cases hkn
    exact hk
  · intro t s ht hs
    obtain ⟨k, _, hkn⟩ := Option.map_eq_some_iff.mp ht
    cases hkn
    simp [remoteAt, hs]

theorem turns_newStream (stream : RecvStream) :
    Turns (remoteAt p) (n, streams) (newStream stream) streams.length (n, streams ++ [stream]) := by
  apply turns_get_bind
  intro s hs
  obtain ⟨k, hk, hkn⟩ := Option.map_eq_some_iff.mp hs
  cases hkn
  refine turns_bind (turns_modify ?_) (turns_pure _)
  intro t ht
  obtain ⟨m, hm, hmn⟩ := Option.map_eq_some_iff.mp ht
  obtain ⟨rfl, hstreams⟩ := Prod.mk.inj hmn
  simp [remoteAt, hm, hstreams]

def RemoteTrack.creates (a : RemoteTrack) (stream : RecvStream)
    (b : PeerConnectionNode × List RecvStream) : PeerConnectionNode × List RecvStream :=
  let kind := stream.codecType
  let left := a.leaves kind b.2.length b.1
  if (mediaTrack b.1 kind).isSome ∨ a.allocTrack = false then b
  else if a.newStream = false then (keepBareTrack kind b.1, b.2)
  else if a.opens kind < 0 then (left, b.2 ++ [stream])
  else (setMediaTrack kind b.1.trackCaches.fresh left, b.2 ++ [stream])

theorem turns_createRecvTrack (a : RemoteTrack) (stream : RecvStream) :
    Turns (remoteAt p) (n, streams) (createRecvTrack a p stream) ()
      (a.creates stream (n, streams)) := by
  apply turns_bind (turns_onNodes turns_readNode)
  unfold RemoteTrack.creates
  cases hm : mediaTrack n stream.codecType with
  | some t =>
      rw [if_pos (Or.inl (by simp [hm]))]
      exact turns_pure ()
  | none =>
      by_cases halloc : a.allocTrack = false
      · simpa only [if_pos halloc, if_pos (Or.inr halloc)] using turns_pure ()
      · have hbusy : ¬ ((mediaTrack n stream.codecType).isSome = true ∨ a.allocTrack = false) := by
          simp [hm, halloc]
        simp only [if_neg halloc, if_neg hbusy]
        by_cases hnew : a.newStream = false
        · simpa only [if_pos hnew] using turns_onNodes (turns_modifyNode _)
        · simp only [if_neg hnew]
          apply turns_bind (turns_newStream stream)
          apply turns_bind (turns_onNodes (turns_initRecvTrackEx a _ _))
          by_cases hret : a.opens stream.codecType < 0
          · simpa only [if_pos hret] using turns_onNodes (turns_call _)
          · simpa only [if_neg hret] using turns_onNodes (turns_modifyNode _)

def announced (tracks : List RemoteTrack) (b : PeerConnectionNode × List RecvStream) :
    PeerConnectionNode × List RecvStream :=
  tracks.foldl (fun b a => a.creates a.stream b) b

theorem turns_announceTracks {tracks : List RemoteTrack} (h : ∀ a ∈ tracks, a.direction ≠ .sendonly) :
    Turns (remoteAt p) (n, streams) (announceTracks p tracks) () (announced tracks (n, streams)) := by
  induction tracks generalizing n streams with
  | nil => exact turns_pure ()
  | cons a tracks ih =>
      have hfirst : Turns (remoteAt p) (n, streams) (onPcTrackCallback a p) ()
          (a.creates a.stream (n, streams)) := by
        rw [onPcTrackCallback_eq (h a List.mem_cons_self)]
        exact turns_bind (turns_onNodes turns_readNode) (turns_createRecvTrack a _)
      exact turns_bind hfirst (ih fun b hb => h b (List.mem_cons_of_mem a hb))

end RemoteAt

end P2PFFmpeg.Peer
