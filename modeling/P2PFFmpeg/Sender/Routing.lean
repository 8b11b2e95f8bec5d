import P2PFFmpeg.Output.Muxer
import P2PFFmpeg.Peer.Invariant
import P2PFFmpeg.Sender.StartUp

namespace P2PFFmpeg.Sender

open Library Library.Program Library.Transition Library.Concurrent Message Peer Util

/-- A stream of the output as the handler of the signalling messages sees it. -/
def outputStream (st : Output.AVStream) : AVStream where
  codecType :=
    match st.codecType with
    | .video => .video
    | .audio => .audio
    | _ => .other
  sampleRate := st.sampleRate

def ffRtpMuxer (audioFrameDuration : Output.AVStream → Nat → Int) : Output.AVOutputFormat where
  notimestamps := false
  tsNonstrict := true
  interleavePacket := none
  audioFrameDuration := audioFrameDuration

def chainedStream (st : Output.AVStream) : Output.AVStream :=
  { st with
    avgFrameRate := ⟨0, 0⟩
    curDts := none
    privPts := ⟨0, 0, 0⟩
    ptsBuffer := List.replicate (Output.maxReorderDelay + 1) none }

def rtpContext (rtp : Output.AVOutputFormat) (st : Output.AVStream) : Output.AVFormatContext where
  oformat := rtp
  streams := [chainedStream st]
  packetBuffer := []
  nbInterleavedStreams := 0
  interleavePacket := .passthrough
  maxInterleaveDelta := 10000000

def ffRtpChainMuxOpen (rtp : Output.AVOutputFormat) (header : Output.HeaderAnswer)
    (st : Output.AVStream) : Except Int Output.AVFormatContext :=
  let started := Output.avformatWriteHeader (rtpContext rtp st) header
  if started.1 ≠ 0 then .error started.1 else .ok started.2

/-- The muxer that create_send_track has opened for a track: the one of the
stream whose index the track carries. -/
def rtpCtx (rtp : Output.AVOutputFormat) (headers : Nat → Output.HeaderAnswer)
    (avctx : Output.AVFormatContext) (track : PeerConnectionTrack) :
    Option Output.AVFormatContext :=
  (avctx.stream track.streamIndex).bind fun st =>
    (ffRtpChainMuxOpen rtp (headers track.streamIndex.toNat) st).toOption

def hasStreamIndex (streamIndex : Int) (track : PeerConnectionTrack) : Bool :=
  track.streamIndex == streamIndex

/-- The muxer and the packet that p2p_rtp_muxer_write_packet passes to
av_write_frame. -/
def p2pRtpMuxerWritePacket (rtpctx : PeerConnectionTrack → Option Output.AVFormatContext)
    (ctx : P2PRtpMuxContext) (pkt : AVPacket) : Option (Output.AVFormatContext × AVPacket) := do
  if ctx.currentState ≠ .streaming then none
  else do
    let p ← ctx.p2pContext.selectedNode
    let node ← ctx.p2pContext.peerConnectionNodeCaches.get? p
    let t ← node.trackCaches.find? (hasStreamIndex pkt.streamIndex)
    let track ← node.trackCaches.get? t
    let muxer ← rtpctx track
    pure (muxer, pkt)

structure Routed (muxer : Output.AVFormatContext) (pkt : AVPacket) : Prop where
  streamIndex : pkt.streamIndex = 0
  accepted : Output.checkPacket muxer pkt = true

def CreatedFor (streams : List AVStream) (track : PeerConnectionTrack) : Prop :=
  track.streamIndex = -1 ∨ ∃ (i : Nat) (st : AVStream), streams[i]? = some st ∧
    st.codecType ≠ .other ∧ track.streamIndex = i

def TracksOf (streams : List AVStream) (_ : Ptr) (n : PeerConnectionNode) : Prop :=
  ∀ q t, n.trackCaches.get? q = some t → CreatedFor streams t

section Tracks

variable {streams : List AVStream}

theorem createdFor_probe (id : Int) : CreatedFor streams (probeChannelTrack id) := Or.inl rfl

theorem createdFor_media (i : Nat) (st : AVStream) (hst : streams[i]? = some st)
    (hkind : st.codecType ≠ .other) (trackId : Int) :
    CreatedFor streams ⟨(0 + i : Nat), trackTypeOf st.codecType, trackId⟩ :=
  Or.inr ⟨i, st, hst, hkind, by simp⟩

theorem tracksOf_tolerates :
    Tolerates (TracksOf streams) 0 (CreatedFor streams) (fun _ _ => True) where
  born := fun p id pcId _ q t ht => by cases ht
  status := fun p n st h => h
  link := by
    intro p n t ht h q u hu
    simp only [Linked.get?_link] at hu
    split at hu
    · cases hu
      exact ht
    · exact h q u hu
  unlink := by
    intro p n k h q u hu
    exact h q u (Linked.get?_of_unlink hu)
  media := fun p n kind t h => by cases kind <;> exact h
  probe := fun p n t h => h
  quality := fun p n f _ h => h

def PeerRetains (streams : List AVStream) (a b : P2PRtpMuxContext) : Prop :=
  Retains (TracksOf streams) 0 a.p2pContext b.p2pContext ∧ b.streams = a.streams

instance : IsPreorder P2PRtpMuxContext (PeerRetains streams) where
  refl := fun a => ⟨.refl a.p2pContext, rfl⟩
  trans := fun _ _ _ h g => ⟨Trans.trans h.1 g.1, g.2.trans h.2⟩

theorem retains_onPeer {α : Type} {x : PeerM α} (h : Keeps (Retains (TracksOf streams) 0) x) :
    Keeps (PeerRetains streams) (onPeer x) :=
  keeps_zoom (fun _ _ hr => ⟨hr, rfl⟩) h

theorem retains_setSenderState (now : Int) (st : SenderState) :
    Keeps (PeerRetains streams) (modify (setSenderState now st) : SenderM PUnit) := by
  apply keeps_modify
  intro s
  exact ⟨retains_of_nodes (by rw [setSenderState_p2pContext]), setSenderState_streams now st s⟩

theorem retains_senderConnectRequest (env : Env) (targetId : Option String) :
    Keeps (Retains (TracksOf streams) 0) (senderConnectRequest env streams targetId) := by
  apply keeps_bind (retains_findOrCreateNode tracksOf_tolerates _ _ _)
  intro found
  cases found with
  | error ret => exact keeps_pure _
  | ok node =>
      apply keeps_bind (retains_createSendMediaTracks tracksOf_tolerates _ _ _ createdFor_media)
      intro ret
      cases ret with
      | some code => exact keeps_pure _
      | none =>
          apply keeps_bind (retains_createProbeTrack tracksOf_tolerates _ _ createdFor_probe)
          intro ret
          cases ret with
          | some code => exact keeps_pure _
          | none =>
              apply keeps_bind (retains_readNode _)
              intro n
              apply keeps_bind (retains_initPeerConnection _ _)
              intro _
              cases node with
              | none => exact keeps_throw _
              | some p =>
                  exact keeps_bind (retains_setLocalDescription _ _) (fun _ => keeps_pure _)

theorem retains_senderOffer (env : Env) (senderId description : Option String) :
    Keeps (Retains (TracksOf streams) 0) (senderOffer env senderId description) := by
  apply keeps_bind (retains_findOrCreateNode tracksOf_tolerates _ _ _)
  intro found
  cases found with
  | error ret => exact keeps_pure _
  | ok node =>
      apply keeps_bind (retains_readNode _)
      intro n
      cases description with
      | none => exact keeps_pure _
      | some sdp => exact keeps_bind (retains_call _) (fun _ => keeps_pure _)

theorem retains_sendStreamReady (env : Env) (receiverId : Option String) :
    Keeps (Retains (TracksOf streams) 0) (sendStreamReady env receiverId) := by
  apply keeps_get_bind
  intro ctx
  split
  · exact keeps_pure _
  · exact keeps_bind (retains_sendSignalMessage _ _) (fun _ => keeps_pure _)

theorem retains_senderStreamRequest (env : Env) (senderId : Option String) :
    Keeps (Retains (TracksOf streams) 0) (senderStreamRequest env senderId) := by
  apply keeps_get_bind
  intro ctx
  split
  · exact keeps_pure _
  · apply keeps_bind (retains_readNode _)
    intro n
    split
    · exact keeps_pure _
    · split
      · exact keeps_pure _
      · exact keeps_bind (retains_sendStreamReady _ _) (fun _ => keeps_pure _)

theorem retains_senderHead (env : Env) (msg : P2PSignalMessage) :
    Keeps (Retains (TracksOf streams) 0) (senderHead env streams msg) := by
  cases hb : msg.body with
  | roomJoined roomId role localId =>
      simp only [senderHead, hb]
      exact keeps_bind (retains_joinRoom _ _ _) (fun _ => keeps_pure _)
  | connectRequest targetId =>
      simp only [senderHead, hb]
      exact retains_senderConnectRequest _ _
  | offer description =>
      simp only [senderHead, hb]
      exact retains_senderOffer _ _ _
  | answer description =>
      simp only [senderHead, hb]
      exact keeps_bind (retains_handleAnswer _ _) (fun _ => keeps_pure _)
  | candidate candidate mid =>
      simp only [senderHead, hb]
      exact keeps_bind (retains_handleCandidate _ _ _) (fun _ => keeps_pure _)
  | probeRequest probeId packetSize expectedPackets timeoutMs =>
      simp only [senderHead, hb]
      apply keeps_get_bind
      intro ctx
      split
      · exact keeps_pure _
      · apply keeps_bind (retains_setNetworkQuality tracksOf_tolerates trivial)
        exact fun _ => keeps_pure _
  | streamRequest streamId =>
      simp only [senderHead, hb]
      exact retains_senderStreamRequest _ _
  | _ =>
      simp only [senderHead, hb]
      exact keeps_pure _

theorem retains_runSenderOp (env : Env) (op : SenderOp) :
    Keeps (PeerRetains streams) (runSenderOp env op) := by
  cases op with
  | setState st => exact retains_setSenderState _ _
  | sendDescription node role =>
      exact retains_onPeer (keeps_bind (retains_sendDescription _ _ _) (fun _ => keeps_pure _))
  | initPeerConnection pcId =>
      exact retains_onPeer (keeps_bind (retains_initPeerConnection _ _) (fun _ => keeps_pure _))
  | sendProbePackets node =>
      apply retains_onPeer
      apply keeps_bind (retains_sendProbePackets tracksOf_tolerates _ trivial trivial)
      exact fun _ => keeps_pure _
  | storeSelected node => exact retains_onPeer (fun _ => retains_of_nodes rfl)
  | storeStatus node => exact retains_onPeer (retains_markSelected tracksOf_tolerates _)

theorem retains_callback (callback : Callback) : Keeps (PeerRetains streams) callback.run := by
  cases callback with
  | stateChange node state =>
      apply retains_onPeer
      apply keeps_bind (retains_readNode _)
      intro _
      apply keeps_bind (retains_setStatus tracksOf_tolerates _ _)
      intro _
      split
      · exact keeps_pure _
      · exact keeps_pure _
  | event event =>
      refine keeps_bind (retains_onPeer ?_) (fun _ => keeps_pure _)
      exact retains_handle tracksOf_tolerates event createdFor_probe fun _ _ _ => trivial

theorem retains_nextPacket (input : MuxInput) : Keeps (PeerRetains streams) (nextPacket input) := by
  unfold nextPacket
  split
  · exact keeps_pure _
  · refine keeps_bind (retains_onPeer ?_) (fun _ => keeps_pure _)
    apply keeps_get_bind
    intro ctx
    split
    · exact retains_call _
    · exact keeps_pure _

theorem retains_muxStep (input : MuxInput) (pc : MuxPc) : Keeps (PeerRetains streams) (muxStep input pc) := by
  apply keeps_get_bind
  intro ctx
  cases pc with
  | setIdle | setJoiningRoom | setWaitingForReceiver =>
      exact keeps_bind (retains_setSenderState _ _) (fun _ => keeps_pure _)
  | connect =>
      simp only
      split
      · exact keeps_pure _
      · refine keeps_bind (retains_onPeer ?_) (fun _ => keeps_pure _)
        apply keeps_get_bind
        intro c
        split
        · exact keeps_pure _
        · exact retains_sendSignalMessage _ _
  | initReturned ret =>
      simp only
      split
      · exact keeps_of_after_eq writeHeader_after
      · exact keeps_pure _
  | headerReturned ret =>
      simp only
      split
      · exact retains_nextPacket input
      · exact keeps_pure _
  | packetNode streamIndex => exact keeps_of_after_eq (writePacket_after input streamIndex)
  | packetReturned ret => exact retains_nextPacket input
  | _ => exact keeps_pure _

theorem next_retains {s t : State} {l : Label} (h : threads.next s l = some t) :
    PeerRetains s.context.streams s.context t.context := by
  cases next_moves h with
  | @message env msg _ hr =>
      rw [hr.context]
      simp only [threads, after_get_bind, after_bind_pure]
      exact retains_onPeer (retains_senderHead env msg) s.context
  | @handlerOp env op _ _ hr =>
      rw [hr.context]
      exact retains_runSenderOp env op s.context
  | @callbackOp env op _ _ hr =>
      rw [hr.context]
      exact retains_runSenderOp env op s.context
  | @callback event hr =>
      rw [hr.context]
      exact retains_callback event s.context
  | @thread input hr =>
      rw [hr.context]
      exact retains_muxStep input s.thread s.context

end Tracks

/-- Every track in the lists of the sender is a probe's, or was created for a
stream of the output. -/
theorem tracksOf_reachable {s : State} (h : system.Reachable s) :
    EveryNode (TracksOf s.context.streams) s.peer := by
  refine System.Reachable.invariant (fun s => EveryNode (TracksOf s.context.streams) s.peer) ?_ ?_ h
  · rintro s ⟨streams, roomId, waitTimeout, rfl⟩ p n hn
    cases hn
  · intro s l t _ hs hn
    obtain ⟨hr, hstreams⟩ := next_retains hn
    simp only [hstreams]
    exact hr.nodes (Nat.zero_le _) hs

theorem stream_outputStream {avctx : Output.AVFormatContext} {i : Nat} {st : AVStream}
    (h : (avctx.streams.map outputStream)[i]? = some st) (hkind : st.codecType ≠ .other) :
    ∃ out, avctx.stream i = some out ∧ out.codecType ≠ .attachment := by
  rw [List.getElem?_map, Option.map_eq_some_iff] at h
  obtain ⟨out, hout, rfl⟩ := h
  refine ⟨out, ?_, ?_⟩
  · rw [Output.AVFormatContext.stream, if_pos (Int.natCast_nonneg i), Int.toNat_natCast, hout]
  · intro hatt
    simp [outputStream, hatt] at hkind

theorem avformatWriteHeader_codecs (s : Output.AVFormatContext) (header : Output.HeaderAnswer) :
    (Output.avformatWriteHeader s header).2.streams.map (·.codecType) =
      s.streams.map (·.codecType) := by
  have hpts : ∀ st : Output.AVStream, (Output.initPts st).codecType = st.codecType := by
    intro st
    unfold Output.initPts
    split <;> rfl
  have hstarted : ∀ i : Nat, (s.streams.zipIdx i).map (fun x => x.1.codecType) =
      s.streams.map (·.codecType) := by
    intro i
    conv_rhs => rw [← List.zipIdx_map_fst i s.streams, List.map_map]
    rfl
  simp only [Output.avformatWriteHeader]
  split
  · simp [Function.comp_def, hstarted]
  · split
    · simp [Function.comp_def, hstarted]
    · simp [Function.comp_def, hstarted, hpts]

variable {muxer : Output.AVFormatContext}

theorem ffRtpChainMuxOpen_streams {rtp : Output.AVOutputFormat} {header : Output.HeaderAnswer}
    {st : Output.AVStream} (h : ffRtpChainMuxOpen rtp header st = .ok muxer) :
    ∃ out, muxer.streams = [out] ∧ out.codecType = st.codecType := by
  simp only [ffRtpChainMuxOpen] at h
  split at h
  · cases h
  · cases h
    have hcodecs := avformatWriteHeader_codecs (rtpContext rtp st) header
    change _ = [st.codecType] at hcodecs
    obtain ⟨out, rest, hstreams, hout, hrest⟩ := List.map_eq_cons_iff.mp hcodecs
    rw [List.map_eq_nil_iff] at hrest
    exact ⟨out, by rw [hstreams, hrest], hout⟩

/-- The selected receiver has a track for the stream of the packet. -/
structure HasTrack (rtpctx : PeerConnectionTrack → Option Output.AVFormatContext)
    (ctx : P2PRtpMuxContext) (pkt : AVPacket) (track : PeerConnectionTrack)
    (muxer : Output.AVFormatContext) : Prop where
  streaming : ctx.currentState = .streaming
  created : ∃ p n t, ctx.p2pContext.selectedNode = some p ∧
    ctx.p2pContext.peerConnectionNodeCaches.get? p = some n ∧
    n.trackCaches.find? (hasStreamIndex pkt.streamIndex) = some t ∧
    n.trackCaches.get? t = some track
  opened : rtpctx track = some muxer

theorem HasTrack.streamIndex {rtpctx : PeerConnectionTrack → Option Output.AVFormatContext}
    {ctx : P2PRtpMuxContext} {pkt : AVPacket} {track : PeerConnectionTrack}
    (h : HasTrack rtpctx ctx pkt track muxer) : track.streamIndex = pkt.streamIndex := by
  obtain ⟨p, n, t, _, _, hf, ht⟩ := h.created
  obtain ⟨u, hu, hk⟩ := Linked.find?_get hf
  rw [ht] at hu
  cases hu
  simpa [hasStreamIndex] using hk

theorem p2pRtpMuxerWritePacket_eq_some {rtpctx : PeerConnectionTrack → Option Output.AVFormatContext}
    {ctx : P2PRtpMuxContext} {pkt out : AVPacket} :
    p2pRtpMuxerWritePacket rtpctx ctx pkt = some (muxer, out) ↔
      out = pkt ∧ ∃ track, HasTrack rtpctx ctx pkt track muxer := by
  unfold p2pRtpMuxerWritePacket
  constructor
  · intro h
    split at h
    · cases h
    · next hstate =>
        simp only [Option.bind_eq_bind, Option.bind_eq_some_iff, Option.pure_def, Option.some.injEq,
          Prod.mk.injEq] at h
        obtain ⟨p, hp, n, hn, t, ht, track, htrack, m, hm, rfl, rfl⟩ := h
        exact ⟨rfl, track, not_not.mp hstate, ⟨p, n, t, hp, hn, ht, htrack⟩, hm⟩
  · rintro ⟨rfl, track, hstate, ⟨p, n, t, hp, hn, ht, htrack⟩, hm⟩
    rw [if_neg (not_not.mpr hstate)]
    simp [hp, hn, ht, htrack, hm]

/-- The packet reaches the muxer of its own track in a form that it takes. -/
def WritesToTrack (rtpctx : PeerConnectionTrack → Option Output.AVFormatContext)
    (ctx : P2PRtpMuxContext) (pkt : AVPacket) : Prop :=
  ∃ muxer out, p2pRtpMuxerWritePacket rtpctx ctx pkt = some (muxer, out) ∧ Routed muxer out

theorem rtpCtx_opened {rtp : Output.AVOutputFormat} {headers : Nat → Output.HeaderAnswer}
    {avctx : Output.AVFormatContext} {track : PeerConnectionTrack}
    (h : rtpCtx rtp headers avctx track = some muxer) :
    ∃ st header, avctx.stream track.streamIndex = some st ∧
      ffRtpChainMuxOpen rtp header st = .ok muxer := by
  obtain ⟨st, hst, hopen⟩ := Option.bind_eq_some_iff.mp h
  refine ⟨st, headers track.streamIndex.toNat, hst, ?_⟩
  cases hr : ffRtpChainMuxOpen rtp (headers track.streamIndex.toNat) st with
  | error ret => simp [hr, Except.toOption] at hopen
  | ok m =>
      simp only [hr, Except.toOption, Option.some.injEq] at hopen
      rw [hopen]

/-- Among the packets whose stream has a track, exactly those of the first
stream of the output are in the form that the muxer of the track takes. -/
theorem writesToTrack_iff {rtp : Output.AVOutputFormat} {headers : Nat → Output.HeaderAnswer}
    {avctx : Output.AVFormatContext} {s : State} (hs : system.Reachable s)
    (hstreams : s.context.streams = avctx.streams.map outputStream) {pkt : AVPacket}
    {track : PeerConnectionTrack} {muxer : Output.AVFormatContext}
    (h : HasTrack (rtpCtx rtp headers avctx) s.context pkt track muxer) :
    WritesToTrack (rtpCtx rtp headers avctx) s.context pkt ↔ pkt.streamIndex = 0 := by
  constructor
  · rintro ⟨_, out, hout, hrouted⟩
    obtain ⟨rfl, _⟩ := p2pRtpMuxerWritePacket_eq_some.mp hout
    exact hrouted.streamIndex
  · intro hzero
    refine ⟨muxer, pkt, p2pRtpMuxerWritePacket_eq_some.mpr ⟨rfl, track, h⟩, hzero, ?_⟩
    have hindex := h.streamIndex.trans hzero
    obtain ⟨st, header, hst, hopen⟩ := rtpCtx_opened h.opened
    have hkind : st.codecType ≠ .attachment := by
      obtain ⟨p, n, t, _, hn, _, htrack⟩ := h.created
      rcases tracksOf_reachable hs p n hn t track htrack with hprobe | ⟨i, u, hu, hmedium, hi⟩
      · rw [hindex] at hprobe
        cases hprobe
      · rw [hstreams] at hu
        obtain ⟨out, hout, hatt⟩ := stream_outputStream hu hmedium
        rw [hi, hout] at hst
        cases hst
        exact hatt
    obtain ⟨out, hout, hcodec⟩ := ffRtpChainMuxOpen_streams hopen
    have hfirst : muxer.stream 0 = some out := by
      rw [Output.AVFormatContext.stream, hout]
      rfl
    simp [Output.checkPacket, hzero, hfirst, hcodec, hkind]

def twoStreams : Output.AVFormatContext :=
  let video : Output.AVStream := ⟨⟨1, 90000⟩, ⟨30, 1⟩, .video, .other, 0, 0, false, none, ⟨0, 0, 0⟩, []⟩
  { rtpContext (ffRtpMuxer fun _ _ => 0) video with
    streams := [video, { video with timeBase := ⟨1, 48000⟩, codecType := .audio, sampleRate := 48000 }] }

def headerWritten : Nat → Output.HeaderAnswer := fun _ => ⟨0, []⟩

def twoTracks : List Label := receiverConnects "a" 1 0 ++ streamRequested "a"

def State.twoStreams : State := .initial (Sender.twoStreams.streams.map outputStream) none 30

def packetOf (streamIndex : Int) : AVPacket := { AVPacket.blank with streamIndex := streamIndex }

theorem twoTracks_track {streamIndex : Int} (hrun : (system.run twoTracks State.twoStreams).map
    (fun s => (p2pRtpMuxerWritePacket (rtpCtx (ffRtpMuxer fun _ _ => 0) headerWritten twoStreams)
      s.context (packetOf streamIndex)).isSome) = some true) : ∃ s track muxer, system.Reachable s ∧
      s.context.streams = twoStreams.streams.map outputStream ∧
      HasTrack (rtpCtx (ffRtpMuxer fun _ _ => 0) headerWritten twoStreams) s.context
        (packetOf streamIndex) track muxer := by
  obtain ⟨s, hs, hhanded⟩ := Option.map_eq_some_iff.mp hrun
  obtain ⟨⟨muxer, out⟩, hout⟩ := Option.isSome_iff_exists.mp hhanded
  obtain ⟨_, track, htrack⟩ := p2pRtpMuxerWritePacket_eq_some.mp hout
  have hstreams : s.context.streams = State.twoStreams.context.streams :=
    @System.Run.related _ _ system (fun a b => b.context.streams = a.context.streams)
      (fun _ => rfl) (fun _ _ _ h g => g.trans h) (fun _ _ _ hn => (next_retains hn).2) _ _ _
      (.of_run hs)
  exact ⟨s, track, muxer, .of_run ⟨_, _, _, rfl⟩ hs, hstreams, htrack⟩

theorem writesToTrack_first : ∃ s, system.Reachable s ∧
    WritesToTrack (rtpCtx (ffRtpMuxer fun _ _ => 0) headerWritten twoStreams) s.context
      (packetOf 0) := by
  obtain ⟨s, track, muxer, hs, hstreams, h⟩ := @twoTracks_track 0 (by decide +kernel)
  exact ⟨s, hs, (writesToTrack_iff hs hstreams h).mpr rfl⟩

/-- A packet of the audio stream has its track, and is refused there. -/
theorem second_stream_not_written :
    ¬ ∀ rtp headers avctx (s : State) pkt track muxer, system.Reachable s →
      s.context.streams = avctx.streams.map outputStream →
      HasTrack (rtpCtx rtp headers avctx) s.context pkt track muxer →
      WritesToTrack (rtpCtx rtp headers avctx) s.context pkt := by
  intro h
  obtain ⟨s, track, muxer, hs, hstreams, htrack⟩ := @twoTracks_track 1 (by decide +kernel)
  obtain ⟨_, out, hout, hrouted⟩ := h _ _ _ s _ track muxer hs hstreams htrack
  obtain ⟨rfl, _⟩ := p2pRtpMuxerWritePacket_eq_some.mp hout
  exact absurd hrouted.streamIndex (by decide)

end P2PFFmpeg.Sender
