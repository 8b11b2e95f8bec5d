import P2PFFmpeg.Demux.Interleaving
import P2PFFmpeg.Demux.Playback
import P2PFFmpeg.Peer.Classification

/-!
The codec types of the output's streams, which the reader and the track callback add side
by side.
-/

namespace P2PFFmpeg.Demux

open Util Library Library.Transition
open Peer (RemoteTrack MediaType)

/-- The demuxer with the codec types of its output's streams, and the streams made
for the video tracks that were opened. -/
structure OutputState where
  demux : P2PRtpDemuxContext
  types : List AVMediaType
  videoTracks : List Int
  reader : Reader
deriving DecidableEq, Repr

/-- A step of the reader, or of another thread: a remote track is announced for
which its node has no track yet, a node is selected, the connect thread is through. -/
inductive OutputLabel
  | track (a : RemoteTrack)
  | select (node : Option PeerConnectionNode)
  | connected
  | read (env : Env)

def avMediaType : MediaType → AVMediaType
  | .video => .video
  | .audio => .audio
  | .other => .other

/-- `on_pc_track_callback`: the new stream has the default time base, and a track
that is opened is kept as the node's. -/
def OutputState.announce (s : OutputState) (a : RemoteTrack) : OutputState :=
  if a.direction = .sendonly ∨ a.allocTrack = false ∨ a.newStream = false then s
  else { s with
    demux := { s.demux with streams := s.demux.streams ++ [⟨1, 90000⟩] }
    types := s.types ++ [avMediaType a.stream.codecType]
    videoTracks :=
      if a.stream.codecType = .video ∧ a.opens .video = 0 then
        s.videoTracks ++ [(s.demux.streams.length : Int)]
      else s.videoTracks }

def OutputState.knows (s : OutputState) (node : Option PeerConnectionNode) : Bool :=
  (node.bind (·.videoTrack)).all fun track => track.rtpCtx.isNone || s.videoTracks.contains track.streamIndex

def addedType (env : Env) : Reader → List AVMediaType
  | .adding (src :: _) i _ =>
      if src.codecType ≠ .other ∧ env.avformatNewStream i then [src.codecType] else []
  | _ => []

def OutputState.read (build : Build) (env : Env) (s : OutputState) :
    Option (OutputState × Option (Int × AVPacket)) :=
  (advance build env s.demux s.reader).map fun stage =>
    ({ s with demux := stage.ctx, types := s.types ++ addedType env s.reader, reader := stage.reader },
      stage.returned)

/-- The header has initialised the demuxer, which has no stream and no node yet. -/
def outputs (build : Build) : System OutputState OutputLabel where
  init s := ∃ signaling room env ctx url, ctx.streams = [] ∧ ctx.reads = [] ∧ ctx.selectedNode = none ∧
    s = ⟨(p2pRtpDemuxInit signaling room env ctx).2, [], [], .header url⟩
  next s l := match l with
    | .track a => some (s.announce a)
    | .select node => if s.knows node then some { s with demux := { s.demux with selectedNode := node } } else none
    | .connected => some { s with demux := { s.demux with p2pConnectReady := true } }
    | .read env => (s.read build env).map (·.1)

/-- The packet is one that was read, rescaled once for an output stream of its
codec type. -/
structure Delivered (types : List AVMediaType) (s : P2PRtpDemuxContext) (pkt : AVPacket) : Prop where
  inRange : 0 ≤ pkt.streamIndex ∧ pkt.streamIndex < s.streams.length
  source : ∃ taken ∈ s.reads, ∃ dstTb, atIndex s.streams pkt.streamIndex = some dstTb ∧
    atIndex types pkt.streamIndex = some taken.stream.codecType ∧
    pkt = onto taken.pkt taken.stream.timeBase dstTb pkt.streamIndex

def IsOutput (types : List AVMediaType) (kind : AVMediaType) (i : Int) : Prop :=
  0 ≤ i → atIndex types i = some kind

def P2PRtpDemuxContext.videoTrack (s : P2PRtpDemuxContext) : Option PeerConnectionTrack :=
  s.selectedNode.bind (·.videoTrack)

/-- The demuxer's indices and its node's video track fit the output's streams. -/
structure Fits (types : List AVMediaType) (s : P2PRtpDemuxContext) : Prop where
  length : types.length = s.streams.length
  video : IsOutput types .video s.outputVideoStreamIndex
  audio : IsOutput types .audio s.outputAudioStreamIndex
  cdnVideo : IsOutput types .video s.cdnVideoStreamIndex
  track : ∀ track rtp, s.videoTrack = some track → track.rtpCtx = some rtp →
    atIndex types track.streamIndex = some .video ∧ ∀ st ∈ rtp.streams, st.codecType = .video

structure Holds (types : List AVMediaType) (s : P2PRtpDemuxContext) : Prop where
  out : IsOutput types .video s.sw.pendingPktOutStreamIndex
  taken : ∃ taken ∈ s.reads, taken.stream.codecType = .video ∧ s.sw.pendingPkt = taken.pkt ∧
    s.sw.pendingPktSrcTb = taken.stream.timeBase

section Fits

variable {types : List AVMediaType} {s t : P2PRtpDemuxContext} {kind : AVMediaType} {i : Int}

theorem IsOutput.append (h : IsOutput types kind i) (added : List AVMediaType) :
    IsOutput (types ++ added) kind i :=
  fun hi => atIndex_append (h hi) added

theorem atIndex_length {α : Type} (l : List α) (a : α) : atIndex (l ++ [a]) (l.length : Int) = some a := by
  unfold atIndex
  rw [if_pos (Int.natCast_nonneg _), Int.toNat_natCast, List.getElem?_append_right (Nat.le_refl _), Nat.sub_self]
  rfl

theorem Fits.of_same (h : Fits types s) (hstreams : t.streams = s.streams)
    (hvideo : t.outputVideoStreamIndex = s.outputVideoStreamIndex)
    (haudio : t.outputAudioStreamIndex = s.outputAudioStreamIndex)
    (hcdn : t.cdnVideoStreamIndex = s.cdnVideoStreamIndex) (hnode : t.selectedNode = s.selectedNode) :
    Fits types t where
  length := hstreams ▸ h.length
  video := hvideo ▸ h.video
  audio := haudio ▸ h.audio
  cdnVideo := hcdn ▸ h.cdnVideo
  track track rtp htrack hrtp := h.track track rtp (by
    rw [← htrack]
    unfold P2PRtpDemuxContext.videoTrack
    rw [hnode]) hrtp

theorem videoTrack_of_rtpCtx {rtp : AVFormatContext} (h : s.rtpCtx = some rtp) :
    ∃ track, s.videoTrack = some track ∧ track.rtpCtx = some rtp := by
  obtain ⟨node, hnode, htrack⟩ := Option.bind_eq_some_iff.mp h
  obtain ⟨track, htrack, hrtp⟩ := Option.bind_eq_some_iff.mp htrack
  refine ⟨track, ?_, hrtp⟩
  rw [P2PRtpDemuxContext.videoTrack, hnode]
  exact htrack

theorem Fits.setRtp (h : Fits types s) {rtp rtp' : AVFormatContext} (hrtp : s.rtpCtx = some rtp)
    (hstreams : rtp'.streams = rtp.streams) : Fits types (s.setRtp rtp') where
  length := h.length
  video := h.video
  audio := h.audio
  cdnVideo := h.cdnVideo
  track track r htrack hr := by
    obtain ⟨old, hold, holdRtp⟩ := videoTrack_of_rtpCtx hrtp
    have hnew : (s.setRtp rtp').videoTrack = some { old with rtpCtx := some rtp' } := by
      unfold P2PRtpDemuxContext.videoTrack P2PRtpDemuxContext.setRtp at *
      obtain ⟨node, hnode, htrack⟩ := Option.bind_eq_some_iff.mp hold
      simp [hnode, htrack]
    rw [hnew] at htrack
    cases htrack
    cases hr
    rw [hstreams]
    exact h.track old rtp hold holdRtp

theorem avReadFrame_streams (s : AVFormatContext) : (avReadFrame s).2.2.streams = s.streams := by
  unfold avReadFrame
  split
  · rfl
  · rfl
  · rfl

theorem P2pReads.fits {out : AVPacket} {tb : AVRational} {r : P2pRead} (h : P2pReads s out i tb r)
    (hs : Fits types s) : Fits types r.ctx := by
  cases h with
  | closed => exact hs
  | failed playing _ => exact hs.setRtp playing (avReadFrame_streams _)
  | @packet rtp pkt rest st playing _ _ =>
      have hmoved : Fits types (s.setRtp { rtp with frames := rest }) := hs.setRtp playing rfl
      exact hmoved.of_same rfl rfl rfl rfl rfl

theorem CdnReads.fits {out pkt : AVPacket} {ret : Int} (h : CdnReads s out ret pkt t) (hs : Fits types s) :
    Fits types t := by
  cases h with
  | closed => exact hs
  | failed | dropped | packet => exact hs.of_same rfl rfl rfl rfl rfl

theorem Fits.chooseOutput (h : Fits types s) (hi : IsOutput types .video i) :
    Fits types (chooseOutput s i) where
  length := h.length
  video := by
    unfold Demux.chooseOutput
    dsimp only
    split
    · exact hi
    · exact h.video
  audio := h.audio
  cdnVideo := h.cdnVideo
  track := h.track

theorem Fits.hold (h : Fits types s) {source : ActiveSource} {target : SwitchTarget} {st : AVStream}
    {pkt : AVPacket} (hmem : ⟨source, st, pkt⟩ ∈ s.reads) (hst : st.codecType = .video) :
    Fits types (hold s source target pkt st.timeBase) ∧ Holds types (hold s source target pkt st.timeBase) :=
  ⟨h.of_same rfl rfl rfl rfl rfl, h.video, _, hmem, hst, rfl, rfl⟩

structure Ready (types : List AVMediaType) (s : P2PRtpDemuxContext) : Prop where
  fits : Fits types s
  holds : s.sw.pendingPktValid = true → Holds types s

theorem Fits.ready (h : Fits types s) (hv : s.sw.pendingPktValid = false) : Ready types s :=
  ⟨h, fun hvalid => by rw [hv] at hvalid; cases hvalid⟩

end Fits

section Search

variable {types : List AVMediaType} {build : Build} {env : Env} {s t : P2PRtpDemuxContext}

theorem searchP2p_ready {turns i : Nat} (h : searchP2p env turns i s = some t) (hs : Fits types s)
    (hv : s.sw.pendingPktValid = false) : Ready types t := by
  induction turns generalizing i s with
  | zero =>
      cases h
      exact hs.ready hv
  | succ turns ih =>
      obtain ⟨r, hr, h⟩ := Option.bind_eq_some_iff.mp h
      have hreads := readOneFromP2p_cases hr
      have hfits := hreads.fits hs
      have hvalid := hreads.still.1.valid.trans hv
      cases hreads with
      | closed =>
          cases h
          exact hfits.ready hvalid
      | failed _ failed =>
          rw [if_pos failed] at h
          cases h
          exact hfits.ready hvalid
      | @packet rtp pkt rest st playing frames stream =>
          rw [if_neg (by decide : ¬(0 : Int) < 0)] at h
          have hafter := rtpCtx_setRtp playing { rtp with frames := rest }
          obtain ⟨track, htrack, htrackRtp⟩ := videoTrack_of_rtpCtx hafter
          obtain ⟨hindex, hvideo⟩ := hfits.track track _ htrack htrackRtp
          have hselected : ((s.setRtp { rtp with frames := rest }).take .p2p st pkt).selectedNode.bind
              (·.videoTrack) = some track := htrack
          simp only [hselected, htrackRtp, stream, Option.bind_some] at h
          obtain ⟨suitable, hsuitable, h⟩ := Option.bind_eq_some_iff.mp h
          have hchosen := hfits.chooseOutput fun _ => hindex
          split at h
          · split at h
            · cases h
              obtain ⟨hheld, hholds⟩ := @Fits.hold _ _ hchosen .p2p .toP2p st pkt (mem_take _ _ _ _)
                (hvideo st (mem_of_atIndex stream))
              exact ⟨hheld, fun _ => hholds⟩
            · exact ih h (hchosen.of_same rfl rfl rfl rfl rfl) hvalid
          · exact ih h hfits hvalid

theorem searchCdn_ready {turns i : Nat} (h : searchCdn env turns i s = some t) (hs : Fits types s)
    (hv : s.sw.pendingPktValid = false) : Ready types t := by
  induction turns generalizing i s with
  | zero =>
      cases h
      exact hs.ready hv
  | succ turns ih =>
      unfold searchCdn at h
      cases hcdn : s.cdnFmtCtx with
      | none =>
          rw [hcdn] at h
          cases h
      | some cdn =>
          rw [hcdn] at h
          dsimp only at h
          rcases avReadFrame_cases cdn with hneg | ⟨tmp, rest, _, hread⟩
          · rw [if_pos hneg] at h
            cases h
            exact Fits.ready (hs.of_same rfl rfl rfl rfl rfl) hv
          rw [hread, if_neg (by decide : ¬(0 : Int) < 0)] at h
          obtain ⟨st, hst, h⟩ := Option.bind_eq_some_iff.mp h
          have htaken : Fits types ((s.setCdn { cdn with frames := rest }).take .cdn st tmp) :=
            hs.of_same rfl rfl rfl rfl rfl
          split at h
          · exact ih h htaken hv
          next hvideo =>
          obtain ⟨suitable, hsuitable, h⟩ := Option.bind_eq_some_iff.mp h
          have hchosen := htaken.chooseOutput htaken.cdnVideo
          split at h
          · split at h
            · cases h
              obtain ⟨hheld, hholds⟩ := hchosen.hold (mem_take _ _ _ _) (not_not.mp hvideo)
              exact ⟨hheld, fun _ => hholds⟩
            · exact ih h (hchosen.of_same rfl rfl rfl rfl rfl) hv
          · exact ih h htaken hv

theorem tryPrepareSwitchToP2p_ready {ret : Int} (h : tryPrepareSwitchToP2p build env s = some (ret, t))
    (hs : Fits types s) (hv : s.sw.pendingPktValid = false) : Ready types t := by
  unfold tryPrepareSwitchToP2p at h
  split at h
  · cases h
    exact hs.ready hv
  split at h
  · cases h
    exact hs.ready hv
  obtain ⟨u, hu, h⟩ := Option.map_eq_some_iff.mp h
  cases h
  exact searchP2p_ready hu hs hv

theorem tryPrepareSwitchToCdn_ready {ret : Int} (h : tryPrepareSwitchToCdn build env s = some (ret, t))
    (hs : Fits types s) (hv : s.sw.pendingPktValid = false) : Ready types t := by
  unfold tryPrepareSwitchToCdn at h
  split at h
  · cases h
    exact hs.ready hv
  split at h
  · cases h
    exact hs.ready hv
  obtain ⟨u, hu, h⟩ := Option.map_eq_some_iff.mp h
  cases h
  exact searchCdn_ready hu hs hv

theorem offerRepair_fits (h : offerRepair build env s = some t) (hs : Fits types s) : Fits types t := by
  unfold offerRepair at h
  dsimp only at h
  split at h
  · obtain ⟨rtp, hrtp, rfl⟩ := Option.map_eq_some_iff.mp h
    split
    · exact hs.setRtp hrtp rfl
    · exact hs
  · cases h
    exact hs

theorem switchSource_fits (h : switchSource build env s = some t) (hs : Fits types s) : Fits types t := by
  unfold switchSource at h
  split at h
  · exact offerRepair_fits h (hs.of_same rfl rfl rfl rfl rfl)
  · cases h
    exact hs.of_same rfl rfl rfl rfl rfl
  · cases h
    exact hs

theorem commit_delivers {avPacketRef : Bool} {out pkt : AVPacket} {ret : Int}
    (h : commitPendingSwitchIfReady build env avPacketRef s out = some (ret, pkt, t)) (hs : Ready types s) :
    Fits types t ∧ (ret = 1 → Delivered types t pkt) := by
  have hcommit := commit_cases h
  refine ⟨?_, fun hret => ?_⟩
  · unfold commitPendingSwitchIfReady at h
    split at h
    · cases h
      exact hs.fits
    obtain ⟨u, hu, h⟩ := Option.bind_eq_some_iff.mp h
    obtain ⟨dstTb, _, h⟩ := Option.map_eq_some_iff.mp h
    have hfits := switchSource_fits hu hs.fits
    cases avPacketRef with
    | true | false =>
        cases h
        exact hfits.of_same rfl rfl rfl rfl rfl
  · cases hcommit with
    | idle | lost => cases hret
    | handed dstTb held dst done switched commits =>
        obtain ⟨hout, taken, hmem, hvideo, hpkt, htb⟩ := hs.holds held
        have hrange := atIndex_range dst
        refine ⟨?_, taken, switched.reads ▸ hmem, dstTb, ?_, ?_, ?_⟩
        · rw [switched.streams]
          exact hrange
        · rw [switched.streams]
          exact dst
        · rw [hvideo]
          exact hout hrange.1
        · rw [hpkt, htb]
          rfl

end Search

structure Goes (types : List AVMediaType) (ret : Int) (pkt : AVPacket) (t : P2PRtpDemuxContext) : Prop where
  ready : Ready types t
  delivers : ret = 0 → Delivered types t pkt

section Branches

variable {types : List AVMediaType} {build : Build} {env : Env} {s t : P2PRtpDemuxContext}
variable {out pkt : AVPacket} {ret : Int}

theorem Delivered.still (h : Delivered types s pkt) (hstreams : t.streams = s.streams)
    (hreads : s.reads ⊆ t.reads) : Delivered types t pkt := by
  obtain ⟨hrange, taken, hmem, dstTb, hdst, hkind, hpkt⟩ := h
  exact ⟨hstreams ▸ hrange, taken, hreads hmem, dstTb, hstreams ▸ hdst, hkind, hpkt⟩

theorem CdnReads.delivered (h : CdnReads s out ret pkt t) (hs : Fits types s) (hret : ret = 0) :
    Delivered types t pkt := by
  cases h with
  | closed | dropped => exact absurd hret (by decide)
  | failed _ failed => omega
  | @packet cdn packet rest st dstTb playing frames stream passes dst =>
      have hrange := atIndex_range dst
      refine ⟨hrange, ⟨.cdn, st, packet⟩, mem_take _ _ _ _, dstTb, dst, ?_, rfl⟩
      have hkind : ∀ kind, 0 ≤ s.outputStreamIndex kind →
          atIndex types (s.outputStreamIndex kind) = some kind := by
        intro kind hi
        cases kind with
        | video => exact hs.video hi
        | audio => exact hs.audio hi
        | other => exact absurd hi (by decide : ¬0 ≤ (-1 : Int))
      exact hkind st.codecType hrange.1

theorem Search.keeps {source : ActiveSource} {target : SwitchTarget} (h : Search source target s t) :
    t.streams = s.streams ∧ s.reads ⊆ t.reads := by
  cases h with
  | nothing still _ => exact ⟨still.streams, still.reads⟩
  | found _ still _ _ _ => exact ⟨still.streams, still.reads⟩

theorem readIdle_goes (h : readIdle build env s out = some (ret, pkt, t)) (hs : Fits types s)
    (hv : s.sw.pendingPktValid = false) : Goes types ret pkt t := by
  unfold readIdle at h
  split at h
  · obtain ⟨⟨prepared, u⟩, hu, h⟩ := Option.map_eq_some_iff.mp h
    have hready := tryPrepareSwitchToP2p_ready hu hs hv
    dsimp only at h
    split at h
    · cases h
      exact ⟨hready, fun hret => absurd hret (by decide)⟩
    · cases h
      exact ⟨hready, fun hret => absurd hret (by decide)⟩
  · cases h
    exact ⟨hs.ready hv, fun hret => absurd hret (by decide)⟩

theorem readCdn_goes (h : readCdn build env s out = some (ret, pkt, t)) (hs : Fits types s)
    (hv : s.sw.pendingPktValid = false)
    (hc : cdnDelivers s = true ∧ s.p2pConnectReady = true ∧ s.selectedNode.isSome = true ∧
      p2pOffers build env s = true → env.refCommitAgain = true) : Goes types ret pkt t := by
  obtain ⟨⟨read, kept, u⟩, hu, h⟩ := Option.bind_eq_some_iff.mp h
  have hreads := readOneFromCdn_cases hu
  obtain ⟨hstill, _, hselected, hle⟩ := hreads.still
  have hfits := hreads.fits hs
  have hvalid := hstill.valid.trans hv
  dsimp only at h
  split at h
  · next hboth =>
      obtain ⟨⟨prepared, v⟩, hprepare, h⟩ := Option.bind_eq_some_iff.mp h
      obtain ⟨⟨committed, packet, w⟩, hcommit, h⟩ := Option.map_eq_some_iff.mp h
      have hready := tryPrepareSwitchToP2p_ready hprepare (hfits.of_same rfl rfl rfl rfl rfl) hvalid
      obtain ⟨hfitsT, hdelivers⟩ := commit_delivers hcommit hready
      have hcases := commit_cases hcommit
      have hunheld := hcases.unheld
      dsimp only at h
      split at h
      · next hone =>
          cases h
          exact ⟨hfitsT.ready hunheld, fun _ => hdelivers hone⟩
      · next hone =>
          cases h
          refine ⟨hfitsT.ready hunheld, fun hret => ?_⟩
          cases hcases with
          | handed => exact absurd rfl hone
          | lost held failed _ _ =>
              -- The packet read would be returned blank.
              have hover := hreads.overwrites (Int.le_of_eq hret.symm) hboth hprepare hv held
              rw [hc hover] at failed
              cases failed
          | idle =>
              obtain ⟨hstreams, hkept⟩ := (tryPrepareSwitchToP2p_search hprepare).keeps
              exact (hreads.delivered hs hret).still hstreams hkept
  · cases h
    exact ⟨hfits.ready hvalid, fun hret => hreads.delivered hs hret⟩

end Branches

def CdnCaller.failed : CdnCaller → Prop
  | .readHeader => True
  | .readPacket _ ret => ret < 0

structure Reader.Waits (reader : Reader) (s : P2PRtpDemuxContext) : Prop where
  unheld : reader ≠ .idle → s.sw.pendingPktValid = false
  failed : ∀ srcs i caller, reader = .adding srcs i caller → caller.failed

theorem waits_idle (s : P2PRtpDemuxContext) : Reader.idle.Waits s :=
  ⟨fun h => absurd rfl h, fun _ _ _ h => nomatch h⟩

/-- What a step leaves, and what it returns if it ends a call. -/
structure StageGoes (types : List AVMediaType) (stage : Stage) : Prop where
  ready : Ready types stage.ctx
  waits : stage.reader.Waits stage.ctx
  delivers : ∀ pkt, stage.returned = some (0, pkt) → Delivered types stage.ctx pkt

def CdnStart.ctx : CdnStart → P2PRtpDemuxContext
  | .returned _ ctx | .looping _ ctx => ctx

section Steps

variable {types : List AVMediaType} {build : Build} {env : Env} {s t : P2PRtpDemuxContext}
variable {out pkt : AVPacket} {ret : Int} {stage : Stage} {caller : CdnCaller}

theorem Goes.returns (h : Goes types ret pkt t) : StageGoes types (.returns (ret, pkt, t)) where
  ready := h.ready
  waits := waits_idle t
  delivers packet hreturned := by
    obtain ⟨hret, rfl⟩ := Prod.mk.inj (Option.some.inj hreturned)
    exact h.delivers hret

theorem resume_goes {created : Int} (h : resume build env s created caller = some stage)
    (hs : Fits types s) (hv : s.sw.pendingPktValid = false) (hfailed : caller.failed) :
    StageGoes types stage := by
  cases caller with
  | readHeader =>
      simp only [resume] at h
      split at h
      · obtain ⟨⟨ret, u⟩, hu, rfl⟩ := Option.map_eq_some_iff.mp h
        obtain ⟨hfits, hholds⟩ := tryPrepareSwitchToCdn_ready hu hs hv
        refine ⟨?_, waits_idle _, fun _ hreturned => by cases hreturned⟩
        dsimp only
        split
        · refine ⟨hfits.of_same rfl rfl rfl rfl rfl, fun hvalid => ?_⟩
          obtain ⟨hout, htaken⟩ := hholds hvalid
          exact ⟨hout, htaken⟩
        · exact ⟨hfits, hholds⟩
      · cases h
        have hfits : Fits types { s with cdnActive := false } := hs.of_same rfl rfl rfl rfl rfl
        exact ⟨hfits.ready hv, waits_idle _, fun _ hreturned => by cases hreturned⟩
  | readPacket out read =>
      have hneg : read < 0 := hfailed
      simp only [resume] at h
      split at h
      · obtain ⟨⟨_, v⟩, hprepare, h⟩ := Option.bind_eq_some_iff.mp h
        obtain ⟨⟨committed, packet, w⟩, hcommit, rfl⟩ := Option.map_eq_some_iff.mp h
        obtain ⟨hfits, hdelivers⟩ := commit_delivers hcommit (tryPrepareSwitchToCdn_ready hprepare hs hv)
        refine Goes.returns ⟨hfits.ready (commit_cases hcommit).unheld, fun hret => ?_⟩
        split at hret
        · next hone => exact hdelivers hone
        · exact absurd hret (Int.ne_of_lt hneg)
      · cases h
        exact Goes.returns ⟨hs.ready hv, fun hret => absurd hret (Int.ne_of_lt hneg)⟩

theorem startCdnStreams_fits (env : Env) (hs : Fits types s) :
    Fits types (startCdnStreams env s).ctx ∧ (startCdnStreams env s).ctx.sw = s.sw := by
  have hset : ∀ cdn, Fits types { s with cdnFmtCtx := cdn } := fun _ => hs.of_same rfl rfl rfl rfl rfl
  unfold startCdnStreams
  by_cases hopen : s.cdnFmtCtx.isSome = true ∧ s.cdnActive = true
  · rw [if_pos hopen]
    exact ⟨hs, rfl⟩
  rw [if_neg hopen]
  by_cases hformat : ¬env.avFindInputFormat = true
  · rw [if_pos hformat]
    exact ⟨hs, rfl⟩
  rw [if_neg hformat]
  by_cases hurl : s.cdnUrl.getD "" = ""
  · rw [if_pos hurl]
    exact ⟨hs, rfl⟩
  rw [if_neg hurl]
  cases env.avformatOpenInput with
  | failed code => exact ⟨hset none, rfl⟩
  | opened opened =>
      cases opened with
      | none => exact ⟨hset none, rfl⟩
      | some cdn =>
          by_cases hinfo : env.avformatFindStreamInfo < 0
          · simp only [if_pos hinfo]
            exact ⟨hset none, rfl⟩
          · simp only [if_neg hinfo]
            exact ⟨hset (some cdn), rfl⟩

theorem proceed_goes (h : proceed build env caller (startCdnStreams env s) = some stage) (hs : Fits types s)
    (hv : s.sw.pendingPktValid = false) (hfailed : caller.failed) : StageGoes types stage := by
  obtain ⟨hfits, hsw⟩ := startCdnStreams_fits env hs
  cases hstart : startCdnStreams env s with
  | returned created u =>
      rw [hstart] at h hfits hsw
      have hvalid : u.sw.pendingPktValid = false := (congrArg (·.pendingPktValid) hsw).trans hv
      exact resume_goes h hfits hvalid hfailed
  | looping srcs u =>
      rw [hstart] at h hfits hsw
      have hvalid : u.sw.pendingPktValid = false := (congrArg (·.pendingPktValid) hsw).trans hv
      cases h
      refine ⟨Fits.ready hfits hvalid, ⟨fun _ => hvalid, fun _ _ _ heq => ?_⟩, fun _ hreturned => by cases hreturned⟩
      cases heq
      exact hfailed

theorem startReadP2p_goes (h : startReadP2p build env s out = some stage) (hs : Fits types s)
    (hv : s.sw.pendingPktValid = false) : StageGoes types stage := by
  obtain ⟨r, hr, h⟩ := Option.bind_eq_some_iff.mp h
  have hreads := readOneFromP2p_cases hr
  have hfits := hreads.fits hs
  have hvalid := hreads.still.1.valid.trans hv
  split at h
  · next hret =>
      obtain ⟨dstTb, hdst, rfl⟩ := Option.map_eq_some_iff.mp h
      have hmoved : Fits types { r.ctx with lastP2pPacketTime := env.now, p2pTransportErrorTimes := 0 } :=
        hfits.of_same rfl rfl rfl rfl rfl
      refine Goes.returns ⟨hmoved.ready hvalid, fun _ => ?_⟩
      cases hreads with
      | closed => exact absurd hret (by decide : ¬averrorEagain ≥ 0)
      | failed _ failed => exact absurd hret (Int.not_le.mpr failed)
      | @packet rtp packet rest st playing frames stream =>
          have hrange := atIndex_range hdst
          refine ⟨hrange, ⟨.p2p, st, packet⟩, mem_take _ _ _ _, dstTb, hdst, ?_, rfl⟩
          obtain ⟨track, htrack, hrtp⟩ := videoTrack_of_rtpCtx playing
          rw [(hs.track track rtp htrack hrtp).2 st (mem_of_atIndex stream)]
          exact hs.video hrange.1
  · next hret =>
      have hneg : r.ret < 0 := Int.not_le.mp hret
      have hmoved : Fits types { r.ctx with p2pTransportErrorTimes := r.ctx.p2pTransportErrorTimes + 1 } :=
        hfits.of_same rfl rfl rfl rfl rfl
      dsimp only at h
      split at h
      · unfold startFallBack at h
        dsimp only at h
        split at h
        · exact proceed_goes h (hmoved.of_same rfl rfl rfl rfl rfl) hvalid hneg
        · exact resume_goes h (hmoved.of_same rfl rfl rfl rfl rfl) hvalid hneg
      · cases h
        exact Goes.returns ⟨hmoved.ready hvalid, fun hzero => absurd hzero (Int.ne_of_lt hneg)⟩

def CommitsAgain (build : Build) (env : Env) (s : P2PRtpDemuxContext) : Prop :=
  Overwrites build env s → env.refCommitAgain = true

theorem startReadPacket_goes (h : startReadPacket build env s .blank = some stage) (hs : Ready types s)
    (hc : CommitsAgain build env s) : StageGoes types stage := by
  obtain ⟨⟨committed, packet, u⟩, hu, h⟩ := Option.bind_eq_some_iff.mp h
  obtain ⟨hfits, hdelivers⟩ := commit_delivers hu hs
  dsimp only at h
  split at h
  · next hone =>
      cases h
      exact Goes.returns ⟨hfits.ready (commit_cases hu).unheld, fun _ => hdelivers hone⟩
  next hone =>
  obtain ⟨hvalid, -, hgoes, hbranch⟩ := (commit_cases hu).goesOn hone
  split at h
  · obtain ⟨⟨ret, pkt, t⟩, ht, rfl⟩ := Option.map_eq_some_iff.mp h
    exact (readIdle_goes ht hfits hvalid).returns
  · next hactive =>
      obtain ⟨⟨ret, pkt, t⟩, ht, rfl⟩ := Option.map_eq_some_iff.mp h
      refine (readCdn_goes ht hfits hvalid ?_).returns
      rintro ⟨hread, hready, hselected, hoffers⟩
      obtain ⟨sw, active, commits, _, rfl⟩ := commit_cdn hu hactive
      exact hc ⟨hgoes, hbranch.symm.trans hactive, hread, hready, hselected, hoffers⟩
  · exact startReadP2p_goes h hfits hvalid

theorem Fits.append (h : Fits types s) (kind : AVMediaType) (tb : AVRational) :
    Fits (types ++ [kind]) { s with streams := s.streams ++ [tb] } where
  length := by
    rw [List.length_append, List.length_append, h.length]
    rfl
  video := h.video.append [kind]
  audio := h.audio.append [kind]
  cdnVideo := h.cdnVideo.append [kind]
  track track rtp htrack hrtp := by
    obtain ⟨hindex, hvideo⟩ := h.track track rtp htrack hrtp
    exact ⟨atIndex_append hindex [kind], hvideo⟩

theorem Holds.append (h : Holds types s) (kind : AVMediaType) (tb : AVRational) :
    Holds (types ++ [kind]) { s with streams := s.streams ++ [tb] } :=
  ⟨h.out.append [kind], h.taken⟩

theorem adoptStream_fits (src : AVStream) (h : Fits types s) :
    Fits (types ++ [src.codecType]) (adoptStream src s) := by
  have hnew : ∀ kind, src.codecType = kind →
      IsOutput (types ++ [src.codecType]) kind (s.streams.length : Int) := by
    rintro kind rfl _
    rw [← h.length]
    exact atIndex_length types src.codecType
  obtain ⟨hlength, hvideo, haudio, hcdn, htrack⟩ := h.append src.codecType src.timeBase
  refine ⟨hlength, ?_, ?_, ?_, htrack⟩
  · unfold adoptStream
    dsimp only
    split
    · next hkind => exact hnew .video hkind.1.1
    · exact hvideo
  · unfold adoptStream
    dsimp only
    split
    · next hkind => exact hnew .audio hkind.1.1
    · exact haudio
  · unfold adoptStream
    dsimp only
    split
    · next hkind => exact hnew .video hkind.1
    · exact hcdn

theorem addStream_fits (i : Nat) (src : AVStream) (h : Fits types s) :
    Fits (types ++ if src.codecType ≠ .other ∧ env.avformatNewStream i then [src.codecType] else [])
      (addStream env i src s).2 := by
  unfold addStream
  by_cases hother : src.codecType = .other
  · rw [if_pos hother, if_neg fun hboth => hboth.1 hother, List.append_nil]
    exact h
  rw [if_neg hother]
  by_cases hnew : env.avformatNewStream i = true
  · rw [if_neg (not_not.mpr hnew), if_pos ⟨hother, hnew⟩]
    split
    · exact h.append _ _
    · exact adoptStream_fits src h
  · rw [if_pos hnew, if_neg fun hboth => hnew hboth.2, List.append_nil]
    exact h

theorem addStream_sw (i : Nat) (src : AVStream) : (addStream env i src s).2.sw = s.sw := by
  unfold addStream
  split
  · rfl
  split
  · rfl
  split
  · rfl
  · rfl

theorem advance_goes {reader : Reader} (h : advance build env s reader = some stage) (hs : Ready types s)
    (hw : reader.Waits s) (hc : reader = .idle → CommitsAgain build env s) :
    StageGoes (types ++ addedType env reader) stage := by
  cases reader with
  | header url =>
      rw [addedType, List.append_nil]
      · have hfits : Fits types { s with cdnUrl := url } := hs.fits.of_same rfl rfl rfl rfl rfl
        exact proceed_goes h hfits (hw.unheld fun heq => by cases heq) trivial
      · exact fun _ _ _ _ heq => by cases heq
  | idle =>
      rw [addedType, List.append_nil]
      · exact startReadPacket_goes h hs (hc rfl)
      · exact fun _ _ _ _ heq => by cases heq
  | adding srcs i caller =>
      have hv := hw.unheld fun heq => by cases heq
      have hfailed := hw.failed _ _ _ rfl
      cases srcs with
      | nil =>
          rw [addedType, List.append_nil]
          · exact resume_goes h hs.fits hv hfailed
          · exact fun _ _ _ _ heq => by cases heq
      | cons src rest =>
          have hfits := @addStream_fits types env s i src hs.fits
          have hsw := @addStream_sw env s i src
          have hvalid : (addStream env i src s).2.sw.pendingPktValid = false :=
            (congrArg (·.pendingPktValid) hsw).trans hv
          rw [advance] at h
          split at h
          · cases h
            refine ⟨Fits.ready hfits hvalid, ⟨fun _ => hvalid, fun _ _ _ heq => ?_⟩,
              fun _ hreturned => by cases hreturned⟩
            cases heq
            exact hfailed
          · exact resume_goes h hfits hvalid hfailed

end Steps

structure Sound (s : OutputState) : Prop where
  ready : Ready s.types s.demux
  waits : s.reader.Waits s.demux
  tracks : ∀ i ∈ s.videoTracks, atIndex s.types i = some .video

/-- A node that is selected carries video on its video track, and no packet of the
CDN is lost in a failed commit. -/
def Fitting (build : Build) (s : OutputState) : OutputLabel → Prop
  | .select node => ∀ track rtp, node.bind (·.videoTrack) = some track → track.rtpCtx = some rtp →
      ∀ st ∈ rtp.streams, st.codecType = .video
  | .read env => s.reader = .idle → CommitsAgain build env s.demux
  | .track _ | .connected => True

section Runs

variable {build : Build} {env : Env} {s t : OutputState}

theorem sound_initial (h : (outputs build).init s) : Sound s := by
  obtain ⟨signaling, room, env, ctx, url, hstreams, -, hnode, rfl⟩ := h
  have hunset : ∀ kind, IsOutput [] kind (-1) := fun _ hi => absurd hi (by decide)
  refine ⟨⟨⟨?_, hunset _, hunset _, hunset _, ?_⟩, fun hvalid => nomatch hvalid⟩, ⟨fun _ => rfl, ?_⟩, ?_⟩
  · exact (congrArg List.length hstreams).symm
  · intro track rtp htrack
    have hnone : (p2pRtpDemuxInit signaling room env ctx).2.videoTrack = none := by
      change ctx.selectedNode.bind _ = none
      rw [hnode]
      rfl
    rw [hnone] at htrack
    cases htrack
  · exact fun _ _ _ heq => nomatch heq
  · exact fun i hi => absurd hi List.not_mem_nil

theorem Sound.announce (h : Sound s) (a : RemoteTrack) : Sound (s.announce a) := by
  unfold OutputState.announce
  split
  · exact h
  refine ⟨⟨h.ready.fits.append _ _, fun hvalid => (h.ready.holds hvalid).append _ _⟩, ⟨h.waits.unheld, h.waits.failed⟩,
    fun i hi => ?_⟩
  dsimp only at hi ⊢
  have hold : ∀ j ∈ s.videoTracks, atIndex (s.types ++ [avMediaType a.stream.codecType]) j = some .video :=
    fun j hj => atIndex_append (h.tracks j hj) _
  split at hi
  · next hopened =>
      rcases List.mem_append.mp hi with hi | hi
      · exact hold i hi
      · rw [List.mem_singleton.mp hi, ← h.ready.fits.length, atIndex_length, hopened.1]
        rfl
  · exact hold i hi

theorem Sound.select (h : Sound s) {node : Option PeerConnectionNode} (hknows : s.knows node = true)
    (hc : Fitting build s (.select node)) :
    Sound { s with demux := { s.demux with selectedNode := node } } := by
  obtain ⟨⟨⟨hlength, hvideo, haudio, hcdn, -⟩, hholds⟩, hwaits, htracks⟩ := h
  refine ⟨⟨⟨hlength, hvideo, haudio, hcdn, fun track rtp htrack hrtp => ⟨?_, hc track rtp htrack hrtp⟩⟩, ?_⟩,
    ⟨hwaits.unheld, hwaits.failed⟩, htracks⟩
  · have htrack' : node.bind (·.videoTrack) = some track := htrack
    rw [OutputState.knows, htrack', Option.all_some, hrtp] at hknows
    exact htracks _ (List.contains_iff_mem.mp hknows)
  · intro hvalid
    obtain ⟨hout, htaken⟩ := hholds hvalid
    exact ⟨hout, htaken⟩

theorem Sound.read (h : Sound s) (hc : Fitting build s (.read env)) {returned : Option (Int × AVPacket)}
    (hread : s.read build env = some (t, returned)) :
    Sound t ∧ ∀ pkt, returned = some (0, pkt) → Delivered t.types t.demux pkt := by
  obtain ⟨stage, hstage, heq⟩ := Option.map_eq_some_iff.mp hread
  cases heq
  obtain ⟨hready, hwaits, hdelivers⟩ := advance_goes hstage h.ready h.waits hc
  exact ⟨⟨hready, hwaits, fun i hi => atIndex_append (h.tracks i hi) _⟩, hdelivers⟩

theorem sound_step {l : OutputLabel} (h : Sound s) (hc : Fitting build s l)
    (hn : (outputs build).next s l = some t) : Sound t := by
  cases l with
  | track a =>
      cases hn
      exact h.announce a
  | select node =>
      change (if s.knows node = true then _ else none) = some t at hn
      split at hn
      · next hknows =>
          cases hn
          exact h.select hknows hc
      · cases hn
  | connected =>
      cases hn
      obtain ⟨⟨hfits, hholds⟩, hwaits, htracks⟩ := h
      refine ⟨⟨hfits.of_same rfl rfl rfl rfl rfl, fun hvalid => ?_⟩, ⟨hwaits.unheld, hwaits.failed⟩, htracks⟩
      obtain ⟨hout, htaken⟩ := hholds hvalid
      exact ⟨hout, htaken⟩
  | read env =>
      obtain ⟨⟨u, returned⟩, hread, rfl⟩ := Option.map_eq_some_iff.mp hn
      exact (h.read hc hread).1

end Runs

/-- In a run whose steps are fitting, every packet that is returned fits its
output stream. -/
theorem packets_fit_streams (build : Build) {s t : OutputState} {env : Env} {pkt : AVPacket}
    (h : ((outputs build).restrict (Fitting build)).Reachable s) (hc : Fitting build s (.read env))
    (hread : s.read build env = some (t, some (0, pkt))) : Delivered t.types t.demux pkt := by
  have hsound : Sound s := by
    refine @System.Reachable.invariant _ _ ((outputs build).restrict (Fitting build)) Sound
      (fun s hs => @sound_initial build s hs) ?_ s h
    intro s l u _ hs hn
    obtain ⟨hfitting, hnext⟩ := System.restrict_next.mp hn
    exact sound_step hs hfitting hnext
  exact (hsound.read hc hread).2 pkt rfl

section Examples

def fitting (build : Build) (s : OutputState) : OutputLabel → Bool
  | .select node => (node.bind (·.videoTrack)).all fun track => track.rtpCtx.all fun rtp =>
      rtp.streams.all fun st => st.codecType = .video
  | .read env => s.reader ≠ .idle || !decide (Overwrites build env s.demux) || env.refCommitAgain
  | .track _ | .connected => true

theorem fitting_of_check {build : Build} {s : OutputState} {l : OutputLabel} (h : fitting build s l = true) :
    Fitting build s l := by
  cases l with
  | track a => trivial
  | connected => trivial
  | select node =>
      intro track rtp htrack hrtp st hst
      simp only [fitting, htrack, hrtp, Option.all_some, List.all_eq_true, decide_eq_true_eq] at h
      exact h st hst
  | read env =>
      intro hidle hover
      simp only [fitting, hidle, hover, ne_eq, not_true_eq_false, decide_false, decide_true, Bool.not_true,
        Bool.false_or] at h
      exact h

def opening : OutputState := ⟨(p2pRtpDemuxInit 0 none (playEnv []) closed).2, [], [], .header (some "url")⟩

theorem opening_init : (outputs playBuild).init opening := ⟨_, _, _, closed, _, rfl, rfl, rfl, rfl⟩

def announcedBetween : List OutputLabel :=
  [.read (playEnv [.packet (keyframe 1)]), .track (Peer.workingTrack 1 "m=video 9 UDP/TLS/RTP/SAVPF 96"),
    .read (playEnv []), .read (playEnv [])]

theorem packets_fit_streams_between : ∃ s t pkt, (outputs playBuild).Reachable s ∧ t.types = [.video, .video] ∧
    pkt.streamIndex = 1 ∧ s.read playBuild (playEnv []) = some (t, some (0, pkt)) ∧
    Delivered t.types t.demux pkt := by
  have hview : (((outputs playBuild).guard (fitting playBuild)).run announcedBetween opening).bind
      (fun s => (s.read playBuild (playEnv [])).map fun (t, returned) =>
        (fitting playBuild s (.read (playEnv [])), t.types, returned.map fun r => (r.1, r.2.streamIndex))) =
      some (true, [.video, .video], some (0, 1)) := by
    decide +kernel
  obtain ⟨s, hrun, hview⟩ := Option.bind_eq_some_iff.mp hview
  obtain ⟨⟨t, returned⟩, hread, hview⟩ := Option.map_eq_some_iff.mp hview
  obtain ⟨hfitting, hview⟩ := Prod.mk.inj hview
  obtain ⟨htypes, hview⟩ := Prod.mk.inj hview
  obtain ⟨⟨ret, pkt⟩, rfl, hpkt⟩ := Option.map_eq_some_iff.mp hview
  obtain ⟨rfl, hindex⟩ := Prod.mk.inj hpkt
  have hreach : ((outputs playBuild).restrict (Fitting playBuild)).Reachable s :=
    .of_guard (fun _ _ => fitting_of_check) opening_init hrun
  exact ⟨s, t, pkt, hreach.of_restrict, htypes, hindex, hread,
    packets_fit_streams playBuild hreach (fitting_of_check hfitting) hread⟩

def soundPacket : AVPacket := { AVPacket.blank with pts := some 960, data := [1], key := true }

def playingSound : AVFormatContext := ⟨[⟨.audio, .other, [], ⟨1, 48000⟩⟩], [], [.packet soundPacket]⟩

def soundFirst : List OutputLabel :=
  [.read { playEnv [] with avFindInputFormat := false },
    .track (Peer.workingTrack 1 "m=audio 9 UDP/TLS/RTP/SAVPF 111"),
    .select (some ⟨some ⟨0, some playingSound⟩⟩), .connected, .read (playEnv [])]

theorem sound_on_video_stream : ¬ ∀ build s env t pkt, (outputs build).Reachable s →
    s.read build env = some (t, some (0, pkt)) → Delivered t.types t.demux pkt := by
  intro h
  have hview : ((outputs playBuild).run soundFirst opening).bind
      (fun s => (s.read playBuild (playEnv [])).map fun (t, returned) =>
        (t.types, t.demux.reads.map (·.stream.codecType), returned.map fun r => (r.1, r.2.streamIndex))) =
      some ([.video], [.audio], some (0, 0)) := by
    decide +kernel
  obtain ⟨s, hrun, hview⟩ := Option.bind_eq_some_iff.mp hview
  obtain ⟨⟨t, returned⟩, hread, hview⟩ := Option.map_eq_some_iff.mp hview
  obtain ⟨htypes, hview⟩ := Prod.mk.inj hview
  obtain ⟨hreads, hview⟩ := Prod.mk.inj hview
  obtain ⟨⟨ret, pkt⟩, rfl, hpkt⟩ := Option.map_eq_some_iff.mp hview
  obtain ⟨rfl, hindex⟩ := Prod.mk.inj hpkt
  obtain ⟨-, taken, hmem, dstTb, -, hkind, -⟩ := h playBuild s (playEnv []) t pkt
    (.of_run opening_init hrun) hread
  have haudio : taken.stream.codecType = .audio := by
    have hin : taken.stream.codecType ∈ t.demux.reads.map (·.stream.codecType) := List.mem_map_of_mem hmem
    rw [hreads] at hin
    exact List.mem_singleton.mp hin
  rw [htypes, hindex, haudio] at hkind
  exact absurd hkind (by decide)

end Examples

end P2PFFmpeg.Demux
