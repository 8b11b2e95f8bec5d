import P2PFFmpeg.Library.Transition
import P2PFFmpeg.Demux.Steps

namespace P2PFFmpeg.Demux

open Util Library.Transition

inductive DemuxLabel
  | background (node : Option PeerConnectionNode) (added : List AVRational) (ready : Bool)
  | readPacket (env : Env)

/-- The runs behind a `p2p_rtp_read_header` that has returned 0. -/
def demuxer (build : Build) : System P2PRtpDemuxContext DemuxLabel where
  init s := ∃ env signaling room url ctx,
    p2pRtpReadHeader build env signaling room url ctx = some (0, s)
  next s l := match l with
    | .background node added ready => some { s with
        selectedNode := node
        streams := s.streams ++ added
        p2pConnectReady := s.p2pConnectReady || ready }
    | .readPacket env => (p2pRtpReadPacket build env s .blank).map (·.2.2)

structure Env.RefsSucceed (env : Env) : Prop where
  commit : env.refCommit = true
  pending : ∀ i, env.refPending i = true
  again : env.refCommitAgain = true

def refsSucceed (_ : P2PRtpDemuxContext) : DemuxLabel → Prop
  | .background _ _ _ => True
  | .readPacket env => env.RefsSucceed

/-- The packet held is a keyframe of the source that the switch is to. -/
structure Kept (s : P2PRtpDemuxContext) : Prop where
  target : (s.sw.pendingPktFrom = .p2p ∧ s.sw.pendingSwitch = .toP2p) ∨
    (s.sw.pendingPktFrom = .cdn ∧ s.sw.pendingSwitch = .toCdn)
  taken : ∃ taken ∈ s.reads, taken.source = s.sw.pendingPktFrom ∧
    hasKeyframeInfo taken.stream taken.pkt = some true ∧
    s.sw.pendingPkt = taken.pkt ∧ s.sw.pendingPktSrcTb = taken.stream.timeBase

def Holding (s : P2PRtpDemuxContext) : Prop := s.sw.pendingPktValid = true → Kept s

/-- A packet of the active source that carries a keyframe, as the caller is given it. -/
def StartsOnKeyframe (s : P2PRtpDemuxContext) (pkt : AVPacket) : Prop :=
  ∃ taken ∈ s.reads, taken.source = s.sw.activeSource ∧
    hasKeyframeInfo taken.stream taken.pkt = some true ∧
    ∃ dstTb out, atIndex s.streams out = some dstTb ∧
      pkt = onto taken.pkt taken.stream.timeBase dstTb out

variable {build : Build} {env : Env} {s t : P2PRtpDemuxContext} {out pkt : AVPacket} {ret : Int}

theorem holding_of_unheld (h : s.sw.pendingPktValid = false) : Holding s := by
  intro hv
  rw [h] at hv
  cases hv

theorem Kept.source (h : Kept s) : s.sw.pendingSwitch.source s.sw.activeSource = s.sw.pendingPktFrom := by
  rcases h.target with ⟨hfrom, hto⟩ | ⟨hfrom, hto⟩
  · rw [hfrom, hto]
    rfl
  · rw [hfrom, hto]
    rfl

theorem Search.holding {source : ActiveSource} {target : SwitchTarget} (h : Search source target s t)
    (htarget : (source = .p2p ∧ target = .toP2p) ∨ (source = .cdn ∧ target = .toCdn))
    (hv : s.sw.pendingPktValid = false) : Holding t ∧ t.sw.activeSource = s.sw.activeSource := by
  cases h with
  | nothing still _ => exact ⟨holding_of_unheld (still.valid.trans hv), still.active⟩
  | found taken still mem source_eq suitable =>
      exact ⟨fun _ => ⟨htarget, taken, mem, source_eq, suitable, rfl, rfl⟩, still.active⟩

/-- A commit empties the buffer; where it changes the active source it hands the
keyframe on. -/
theorem Commit.switches {avPacketRef : Bool} (h : Commit avPacketRef s out ret pkt t) (hs : Holding s) :
    t.sw.pendingPktValid = false ∧
      (avPacketRef = true → t.sw.activeSource ≠ s.sw.activeSource →
        ret = 1 ∧ StartsOnKeyframe t pkt) := by
  cases h with
  | idle unheld => exact ⟨unheld, fun _ hne => absurd rfl hne⟩
  | lost held failed switched _ =>
      refine ⟨switched.valid, fun hdone => ?_⟩
      rw [failed] at hdone
      cases hdone
  | handed dstTb held dst done switched _ =>
      refine ⟨switched.valid, fun _ _ => ⟨rfl, ?_⟩⟩
      have hkept := hs held
      obtain ⟨taken, hmem, hsource, hsuitable, hpkt, htb⟩ := hkept.taken
      refine ⟨taken, switched.reads ▸ hmem, ?_, hsuitable, dstTb, _, switched.streams ▸ dst, ?_⟩
      · rw [switched.active, hkept.source, hsource]
      · rw [hpkt, htb]

/-- What a call does to the switch: the packet held stays a keyframe of the
source switched to, and the first packet of a new source is a keyframe. -/
structure Turn (refs : Prop) (s : P2PRtpDemuxContext) (ret : Int) (pkt : AVPacket)
    (t : P2PRtpDemuxContext) : Prop where
  holding : Holding t
  starts : refs → t.sw.activeSource ≠ s.sw.activeSource → ret = 0 ∧ StartsOnKeyframe t pkt

theorem readIdle_turn (h : readIdle build env s out = some (ret, pkt, t))
    (hv : s.sw.pendingPktValid = false) : Turn env.RefsSucceed s ret pkt t := by
  unfold readIdle at h
  split at h
  · obtain ⟨⟨prepared, u⟩, hu, h⟩ := Option.map_eq_some_iff.mp h
    obtain ⟨hholding, hactive⟩ :=
      (tryPrepareSwitchToP2p_search hu).holding (.inl ⟨rfl, rfl⟩) hv
    dsimp only at h
    split at h
    · cases h
      exact ⟨hholding, fun _ hne => absurd hactive hne⟩
    · cases h
      exact ⟨hholding, fun _ hne => absurd hactive hne⟩
  · cases h
    exact ⟨holding_of_unheld hv, fun _ hne => absurd rfl hne⟩

theorem prepared_turn {source : ActiveSource} {target : SwitchTarget} {s u t : P2PRtpDemuxContext}
    {committed : Int} (ret : Int) (hsearch : Search source target s u)
    (htarget : (source = .p2p ∧ target = .toP2p) ∨ (source = .cdn ∧ target = .toCdn))
    (hcommit : commitPendingSwitchIfReady build env env.refCommitAgain u out =
      some (committed, pkt, t)) (hv : s.sw.pendingPktValid = false) :
    Turn env.RefsSucceed s (if committed = 1 then 0 else ret) pkt t := by
  obtain ⟨hholding, hactive⟩ := hsearch.holding htarget hv
  obtain ⟨hvalid, hstarts⟩ := (commit_cases hcommit).switches hholding
  refine ⟨holding_of_unheld hvalid, fun hrefs hne => ?_⟩
  obtain ⟨hret, hkey⟩ := hstarts hrefs.again (hactive ▸ hne)
  exact ⟨if_pos hret, hkey⟩

theorem Turn.of_still {refs : Prop} {s u t : P2PRtpDemuxContext} (h : Turn refs u ret pkt t)
    (hactive : u.sw.activeSource = s.sw.activeSource) : Turn refs s ret pkt t :=
  ⟨h.holding, fun hrefs hne => h.starts hrefs (hactive ▸ hne)⟩

theorem readCdn_turn (h : readCdn build env s out = some (ret, pkt, t))
    (hv : s.sw.pendingPktValid = false) : Turn env.RefsSucceed s ret pkt t := by
  obtain ⟨⟨read, kept, u⟩, hu, h⟩ := Option.bind_eq_some_iff.mp h
  obtain ⟨hstill, _⟩ := (readOneFromCdn_cases hu).still
  dsimp only at h
  split at h
  · obtain ⟨⟨_, v⟩, hprepare, h⟩ := Option.bind_eq_some_iff.mp h
    obtain ⟨⟨committed, packet, w⟩, hcommit, h⟩ := Option.map_eq_some_iff.mp h
    have hturn := prepared_turn read (tryPrepareSwitchToP2p_search hprepare)
      (.inl ⟨rfl, rfl⟩) hcommit (hstill.valid.trans hv)
    dsimp only at h
    split at h
    · next hone =>
        cases h
        rw [if_pos hone] at hturn
        exact hturn.of_still hstill.active
    · next hone =>
        cases h
        rw [if_neg hone] at hturn
        exact hturn.of_still hstill.active
  · cases h
    exact ⟨holding_of_unheld (hstill.valid.trans hv), fun _ hne => absurd hstill.active hne⟩

theorem fallBack_turn {read ret : Int} (h : fallBack build env s out read = some (ret, pkt, t))
    (hv : s.sw.pendingPktValid = false) : Turn env.RefsSucceed s ret pkt t := by
  unfold fallBack at h
  dsimp only at h
  generalize hu : (if s.cdnFmtCtx.isNone = true ∧ s.cdnUrl.isSome = true then
    (createCdnStreams env { s with sw := { s.sw with pendingSwitch := .toCdn } }).2
    else { s with sw := { s.sw with pendingSwitch := .toCdn } }) = u at h
  have hsw : u.sw = { s.sw with pendingSwitch := .toCdn } := by
    rw [← hu]
    split
    · exact (createCdnStreams_opening _ _).sw
    · rfl
  have hvalid : u.sw.pendingPktValid = false := by
    rw [hsw]
    exact hv
  have hactive : u.sw.activeSource = s.sw.activeSource := by rw [hsw]
  split at h
  · obtain ⟨⟨_, v⟩, hprepare, h⟩ := Option.bind_eq_some_iff.mp h
    obtain ⟨⟨committed, packet, w⟩, hcommit, h⟩ := Option.map_eq_some_iff.mp h
    have hturn := prepared_turn read (tryPrepareSwitchToCdn_search hprepare)
      (.inr ⟨rfl, rfl⟩) hcommit hvalid
    dsimp only at h
    split at h
    · next hone =>
        cases h
        rw [if_pos hone] at hturn
        exact hturn.of_still hactive
    · next hone =>
        cases h
        rw [if_neg hone] at hturn
        exact hturn.of_still hactive
  · cases h
    exact ⟨holding_of_unheld hvalid, fun _ hne => absurd hactive hne⟩

theorem readP2p_turn (h : readP2p build env s out = some (ret, pkt, t))
    (hv : s.sw.pendingPktValid = false) : Turn env.RefsSucceed s ret pkt t := by
  obtain ⟨r, hr, h⟩ := Option.bind_eq_some_iff.mp h
  obtain ⟨hstill, _⟩ := (readOneFromP2p_cases hr).still
  have hvalid := hstill.valid.trans hv
  split at h
  · obtain ⟨dst, _, h⟩ := Option.map_eq_some_iff.mp h
    cases h
    exact ⟨holding_of_unheld hvalid, fun _ hne => absurd hstill.active hne⟩
  dsimp only at h
  split at h
  · exact (fallBack_turn h hvalid).of_still hstill.active
  · cases h
    exact ⟨holding_of_unheld hvalid, fun _ hne => absurd hstill.active hne⟩

theorem readPacket_turn (h : p2pRtpReadPacket build env s out = some (ret, pkt, t)) (hs : Holding s) :
    Turn env.RefsSucceed s ret pkt t := by
  obtain ⟨⟨committed, packet, u⟩, hu, h⟩ := Option.bind_eq_some_iff.mp h
  have hcommit := commit_cases hu
  obtain ⟨hvalid, hstarts⟩ := hcommit.switches hs
  dsimp only at h
  split at h
  · cases h
    exact ⟨holding_of_unheld hvalid, fun hrefs hne => ⟨rfl, (hstarts hrefs.commit hne).2⟩⟩
  next hone =>
  -- With `av_packet_ref` succeeding, a commit that goes on has changed nothing.
  have hactive : env.RefsSucceed → u.sw.activeSource = s.sw.activeSource := by
    intro hrefs
    by_contra hne
    exact hone (hstarts hrefs.commit hne).1
  have hturn : Turn env.RefsSucceed u ret pkt t := by
    split at h
    · exact readIdle_turn h hvalid
    · exact readCdn_turn h hvalid
    · exact readP2p_turn h hvalid
  exact ⟨hturn.holding, fun hrefs hne => hturn.starts hrefs (hactive hrefs ▸ hne)⟩

theorem openCdn_holding {url : Option String} (h : openCdn build env url s = some t)
    (hv : s.sw.pendingPktValid = false) : Holding t := by
  unfold openCdn at h
  dsimp only at h
  have hvalid : (createCdnStreams env { s with cdnUrl := url }).2.sw.pendingPktValid = false := by
    rw [(createCdnStreams_opening _ _).sw]
    exact hv
  split at h
  · obtain ⟨⟨ret, u⟩, hu, rfl⟩ := Option.map_eq_some_iff.mp h
    obtain ⟨hholding, _⟩ := (tryPrepareSwitchToCdn_search hu).holding (.inr ⟨rfl, rfl⟩) hvalid
    dsimp only
    split
    · intro hv
      obtain ⟨htarget, htaken⟩ := hholding hv
      exact ⟨htarget, htaken⟩
    · exact hholding
  · cases h
    exact holding_of_unheld hvalid

theorem readHeader_holding {signaling : Int} {room url : Option String} {ctx s : P2PRtpDemuxContext}
    (h : p2pRtpReadHeader build env signaling room url ctx = some (0, s)) : Holding s := by
  unfold p2pRtpReadHeader at h
  dsimp only at h
  split at h
  · obtain ⟨-, rfl⟩ := Prod.mk.inj (Option.some.inj h)
    exact holding_of_unheld rfl
  · obtain ⟨t, ht, h⟩ := Option.map_eq_some_iff.mp h
    cases h
    exact openCdn_holding ht rfl

theorem holding_of_reachable (h : (demuxer build).Reachable s) : Holding s := by
  refine System.Reachable.invariant Holding ?_ ?_ h
  · rintro s ⟨env, signaling, room, url, ctx, hheader⟩
    exact readHeader_holding hheader
  · rintro s l t _ ih hnext
    cases l with
    | background node added ready =>
        cases hnext
        intro hv
        obtain ⟨htarget, htaken⟩ := ih hv
        exact ⟨htarget, htaken⟩
    | readPacket env =>
        obtain ⟨⟨ret, pkt, u⟩, hcall, rfl⟩ := Option.map_eq_some_iff.mp hnext
        exact (readPacket_turn hcall ih).holding

/-- The first packet of a new source is one of its keyframes, and the packet held
between two calls is from the source that the switch is to. -/
theorem every_switch_starts_on_keyframe (build : Build) {s : P2PRtpDemuxContext}
    (h : ((demuxer build).restrict refsSucceed).Reachable s) :
    (∀ env t ret out pkt, env.RefsSucceed →
      p2pRtpReadPacket build env s out = some (ret, pkt, t) →
      t.sw.activeSource ≠ s.sw.activeSource → ret = 0 ∧ StartsOnKeyframe t pkt) ∧
    (s.sw.pendingPktValid = true →
      (s.sw.pendingSwitch = .toP2p ↔ s.sw.pendingPktFrom = .p2p) ∧
      (s.sw.pendingSwitch = .toCdn ↔ s.sw.pendingPktFrom = .cdn)) := by
  have hholding := holding_of_reachable h.of_restrict
  constructor
  · intro env t ret out pkt hrefs hcall hne
    exact (readPacket_turn hcall hholding).starts hrefs hne
  · intro hv
    rcases (hholding hv).target with ⟨hfrom, hto⟩ | ⟨hfrom, hto⟩
    · simp [hfrom, hto]
    · simp [hfrom, hto]

def videoStream : AVStream := ⟨.video, .h264, [], ⟨1, 90000⟩⟩

def keyframe (byte : UInt8) : AVPacket :=
  { AVPacket.blank with
    pts := some 0
    data := [0, 0, 1, 7, 0, 0, 1, 8, 0, 0, 1, 5, byte]
    key := true }

def interframe (byte : UInt8) : AVPacket :=
  { AVPacket.blank with
    pts := some 3000
    data := [0, 0, 1, 1, byte] }

def playing (frames : List Frame) : AVFormatContext := ⟨[videoStream], [], frames⟩

def playEnv (frames : List Frame) : Env where
  now := 0
  refCommit := true
  refPending _ := true
  refCommitAgain := true
  avAsprintf := true
  avDictSet := true
  avFindInputFormat := true
  avformatOpenInput := .opened (some (playing frames))
  avformatFindStreamInfo := 0
  avformatNewStream _ := true
  avcodecParametersCopy _ := 0

def playBuild : Build := ⟨3, "live"⟩

def closed : P2PRtpDemuxContext where
  outputVideoStreamIndex := 0
  outputAudioStreamIndex := 0
  cdnUrl := none
  cdnFmtCtx := none
  cdnVideoStreamIndex := 0
  cdnAudioStreamIndex := 0
  cdnActive := false
  lastP2pPacketTime := 0
  room := none
  p2pTransportErrorTimes := 0
  p2pConnectReady := false
  repairRtpPktHost := none
  repairRtpPktPort := 0
  repairHttpTimeoutMs := 0
  sw := ⟨.none, .none, .blank, false, .none, 0, ⟨0, 0⟩⟩
  cdnStarted := false
  selectedNode := none
  streams := []
  reads := []
  commits := []

/-- The state in which the header returns. -/
def headerRead (frames : List Frame) : Option (Int × P2PRtpDemuxContext) :=
  p2pRtpReadHeader playBuild (playEnv frames) 0 none (some "url") closed

def peerPlaying (frames : List Frame) : PeerConnectionNode := ⟨some ⟨0, some (playing frames)⟩⟩

theorem headerRead_init {frames : List Frame} (h : headerRead frames = some (0, s)) :
    (demuxer playBuild).init s :=
  ⟨_, _, _, _, _, h⟩

theorem playEnv_refsSucceed (frames : List Frame) : (playEnv frames).RefsSucceed :=
  ⟨rfl, fun _ => rfl, rfl⟩

/-- The peer's keyframe is given out when the peer takes over from the CDN. -/
theorem every_switch_starts_on_keyframe_p2p :
    ∃ s t pkt, ((demuxer playBuild).restrict refsSucceed).Reachable s ∧
      p2pRtpReadPacket playBuild (playEnv []) s .blank = some (0, pkt, t) ∧
      s.sw.activeSource = .cdn ∧ t.sw.activeSource = .p2p ∧ StartsOnKeyframe t pkt := by
  have hview : ((headerRead [.packet (keyframe 1), .packet (interframe 2)]).bind fun r =>
      ((demuxer playBuild).run [.readPacket (playEnv []),
        .background (some (peerPlaying [.packet (interframe 3), .packet (keyframe 4)])) [] true] r.2).bind
      fun s => (p2pRtpReadPacket playBuild (playEnv []) s .blank).map fun called =>
        (r.1, s.sw.activeSource, called.1, called.2.2.sw.activeSource)) = some (0, .cdn, 0, .p2p) := by
    decide +kernel
  obtain ⟨⟨ret, s₀⟩, hheader, hview⟩ := Option.bind_eq_some_iff.mp hview
  obtain ⟨s, hrun, hview⟩ := Option.bind_eq_some_iff.mp hview
  obtain ⟨⟨r, pkt, t⟩, hcall, heq⟩ := Option.map_eq_some_iff.mp hview
  simp only [Prod.mk.injEq] at heq
  obtain ⟨rfl, hcdn, rfl, hp2p⟩ := heq
  have hreach : ((demuxer playBuild).restrict refsSucceed).Reachable s := by
    refine ⟨s₀, _, headerRead_init hheader, (System.Run.of_run hrun).restrict_labels ?_⟩
    intro l hl u
    simp only [List.mem_cons, List.not_mem_nil, or_false] at hl
    rcases hl with rfl | rfl
    · exact playEnv_refsSucceed []
    · exact trivial
  have hne : t.sw.activeSource ≠ s.sw.activeSource := by
    rw [hcdn, hp2p]
    decide
  refine ⟨s, t, pkt, hreach, hcall, hcdn, hp2p, ?_⟩
  exact ((every_switch_starts_on_keyframe playBuild hreach).1 _ _ _ _ _ (playEnv_refsSucceed [])
    hcall hne).2

/-- What a commit that fails has to leave as it was. -/
structure SwitchKept (s t : P2PRtpDemuxContext) : Prop where
  activeSource : t.sw.activeSource = s.sw.activeSource
  cdnActive : t.cdnActive = s.cdnActive
  pendingSwitch : t.sw.pendingSwitch = s.sw.pendingSwitch
  pendingPktValid : t.sw.pendingPktValid = s.sw.pendingPktValid
  pendingPkt : t.sw.pendingPkt = s.sw.pendingPkt

theorem Commit.unheld {avPacketRef : Bool} (h : Commit avPacketRef s out ret pkt t) :
    t.sw.pendingPktValid = false := by
  cases h with
  | idle unheld => exact unheld
  | lost held failed switched commits => exact switched.valid
  | handed dstTb held dst done switched commits => exact switched.valid

theorem Commit.failed {s t : P2PRtpDemuxContext} {out pkt : AVPacket} {ret : Int}
    (h : Commit false s out ret pkt t) : ret = 0 := by
  cases h with
  | idle unheld => rfl
  | lost held failed switched commits => rfl
  | handed dstTb held dst done switched commits => cases done

/-- When the keyframe cannot be handed out, the switch has been made all the same,
and no later call hands the keyframe out. -/
theorem failed_commit_not_atomic (build : Build) (env : Env) {s t : P2PRtpDemuxContext}
    {out pkt : AVPacket} {ret : Int} (hvalid : s.sw.pendingPktValid = true)
    (h : commitPendingSwitchIfReady build env false s out = some (ret, pkt, t)) :
    ret = 0 ∧ ¬SwitchKept s t ∧
      ∀ env' avPacketRef out', commitPendingSwitchIfReady build env' avPacketRef t out' =
        some (0, out', t) := by
  have hcommit := commit_cases h
  have hunheld := hcommit.unheld
  refine ⟨hcommit.failed, ?_, ?_⟩
  · intro hkept
    have hsame := hkept.pendingPktValid
    rw [hunheld, hvalid] at hsame
    cases hsame
  · intro env' avPacketRef out'
    rw [commitPendingSwitchIfReady, hunheld]
    rfl

def awaitingP2p : P2PRtpDemuxContext :=
  { closed with
    cdnFmtCtx := some (playing [])
    cdnActive := true
    p2pConnectReady := true
    sw := ⟨.cdn, .toP2p, keyframe 4, true, .p2p, 0, ⟨1, 90000⟩⟩
    selectedNode := some (peerPlaying [])
    streams := [⟨1, 90000⟩] }

/-- The CDN is left although nothing of the peer has been handed out. -/
theorem failed_commit_loses_keyframe :
    ((commitPendingSwitchIfReady playBuild (playEnv []) false awaitingP2p .blank).map
      fun (ret, pkt, t) => (ret, pkt, t.sw.activeSource, t.cdnActive, t.sw.pendingPktValid,
        t.sw.pendingPkt)) = some (0, .blank, .p2p, false, false, .blank) ∧
      ∃ ret pkt t, commitPendingSwitchIfReady playBuild (playEnv []) false awaitingP2p .blank =
        some (ret, pkt, t) ∧ ¬SwitchKept awaitingP2p t := by
  have hview : ((commitPendingSwitchIfReady playBuild (playEnv []) false awaitingP2p .blank).map
      fun (ret, pkt, t) => (ret, pkt, t.sw.activeSource, t.cdnActive, t.sw.pendingPktValid,
        t.sw.pendingPkt)) = some (0, .blank, .p2p, false, false, .blank) := by
    decide +kernel
  refine ⟨hview, ?_⟩
  obtain ⟨⟨ret, pkt, t⟩, hcommit, heq⟩ := Option.map_eq_some_iff.mp hview
  refine ⟨ret, pkt, t, hcommit, fun hkept => ?_⟩
  have hactive := hkept.activeSource
  rw [(Prod.mk.inj (Prod.mk.inj (Prod.mk.inj heq).2).2).1] at hactive
  cases hactive

/-- A commit that fails in this state. -/
theorem failed_commit_not_atomic_p2p :
    ∃ ret pkt t, commitPendingSwitchIfReady playBuild (playEnv []) false awaitingP2p .blank =
      some (ret, pkt, t) ∧ ret = 0 ∧ ¬SwitchKept awaitingP2p t := by
  have hsome : (commitPendingSwitchIfReady playBuild (playEnv []) false awaitingP2p .blank).isSome =
      true := by
    decide +kernel
  obtain ⟨⟨ret, pkt, t⟩, hcommit⟩ := Option.isSome_iff_exists.mp hsome
  obtain ⟨hret, hkept, _⟩ := failed_commit_not_atomic playBuild (playEnv []) rfl hcommit
  exact ⟨ret, pkt, t, hcommit, hret, hkept⟩

end P2PFFmpeg.Demux
