import P2PFFmpeg.Demux.Context

namespace P2PFFmpeg.Demux

open Util

/-- What reading from a source leaves alone. -/
structure Still (s t : P2PRtpDemuxContext) : Prop where
  active : t.sw.activeSource = s.sw.activeSource
  valid : t.sw.pendingPktValid = s.sw.pendingPktValid
  ready : t.p2pConnectReady = s.p2pConnectReady
  streams : t.streams = s.streams
  commits : t.commits = s.commits
  reads : s.reads ⊆ t.reads
  video : t.cdnVideoStreamIndex = s.cdnVideoStreamIndex
  audio : t.outputAudioStreamIndex = s.outputAudioStreamIndex
  output : s.outputVideoStreamIndex ≠ -1 → t.outputVideoStreamIndex = s.outputVideoStreamIndex

theorem Still.refl (s : P2PRtpDemuxContext) : Still s s :=
  ⟨rfl, rfl, rfl, rfl, rfl, List.Subset.refl _, rfl, rfl, fun _ => rfl⟩

theorem Still.trans {s t u : P2PRtpDemuxContext} (h : Still s t) (g : Still t u) : Still s u where
  active := g.active.trans h.active
  valid := g.valid.trans h.valid
  ready := g.ready.trans h.ready
  streams := g.streams.trans h.streams
  commits := g.commits.trans h.commits
  reads := fun _ hread => g.reads (h.reads hread)
  video := g.video.trans h.video
  audio := g.audio.trans h.audio
  output hne := by
    have hs := h.output hne
    exact (g.output (by rwa [hs])).trans hs

theorem still_setCdn (s : P2PRtpDemuxContext) (cdn : AVFormatContext) : Still s (s.setCdn cdn) :=
  ⟨rfl, rfl, rfl, rfl, rfl, List.Subset.refl _, rfl, rfl, fun _ => rfl⟩

theorem still_setRtp (s : P2PRtpDemuxContext) (rtp : AVFormatContext) : Still s (s.setRtp rtp) :=
  ⟨rfl, rfl, rfl, rfl, rfl, List.Subset.refl _, rfl, rfl, fun _ => rfl⟩

theorem still_take (s : P2PRtpDemuxContext) (source : ActiveSource) (st : AVStream)
    (pkt : AVPacket) : Still s (s.take source st pkt) :=
  ⟨rfl, rfl, rfl, rfl, rfl, List.subset_append_left _ _, rfl, rfl, fun _ => rfl⟩

theorem still_chooseOutput (s : P2PRtpDemuxContext) (i : Int) : Still s (chooseOutput s i) :=
  ⟨rfl, rfl, rfl, rfl, rfl, List.Subset.refl _, rfl, rfl, fun hne => if_neg hne⟩

theorem still_dropHeld (s : P2PRtpDemuxContext) : Still s (dropHeld s) :=
  ⟨rfl, rfl, rfl, rfl, rfl, List.Subset.refl _, rfl, rfl, fun _ => rfl⟩

theorem mem_take (s : P2PRtpDemuxContext) (source : ActiveSource) (st : AVStream) (pkt : AVPacket) :
    ⟨source, st, pkt⟩ ∈ (s.take source st pkt).reads :=
  List.mem_append_right _ (List.mem_singleton.mpr rfl)

@[simp] theorem take_selectedNode (s : P2PRtpDemuxContext) (source : ActiveSource) (st : AVStream)
    (pkt : AVPacket) : (s.take source st pkt).selectedNode = s.selectedNode := rfl

theorem avReadFrame_cases (s : AVFormatContext) :
    (avReadFrame s).1 < 0 ∨ ∃ pkt rest, s.frames = .packet pkt :: rest ∧
      avReadFrame s = (0, pkt, { s with frames := rest }) := by
  unfold avReadFrame
  cases s.frames with
  | nil => exact .inl (by decide : averrorEagain < 0)
  | cons frame rest =>
      cases frame with
      | failed code => exact .inl (by simp only; omega)
      | packet pkt => exact .inr ⟨pkt, rest, rfl, rfl⟩

theorem rtpCtx_setRtp {s : P2PRtpDemuxContext} {rtp : AVFormatContext} (h : s.rtpCtx = some rtp)
    (rtp' : AVFormatContext) : (s.setRtp rtp').rtpCtx = some rtp' := by
  obtain ⟨node, hnode, htrack⟩ := Option.bind_eq_some_iff.mp h
  obtain ⟨track, htrack, _⟩ := Option.bind_eq_some_iff.mp htrack
  simp [P2PRtpDemuxContext.rtpCtx, P2PRtpDemuxContext.setRtp, hnode, htrack]

inductive P2pReads (s : P2PRtpDemuxContext) (out : AVPacket) (i : Int) (tb : AVRational) :
    P2pRead → Prop
  | closed (closed : s.rtpCtx = none) : P2pReads s out i tb ⟨averrorEagain, out, i, tb, s⟩
  | failed {rtp} (playing : s.rtpCtx = some rtp) (failed : (avReadFrame rtp).1 < 0) :
      P2pReads s out i tb
        ⟨(avReadFrame rtp).1, (avReadFrame rtp).2.1, i, tb, s.setRtp (avReadFrame rtp).2.2⟩
  | packet {rtp pkt rest st} (playing : s.rtpCtx = some rtp) (frames : rtp.frames = .packet pkt :: rest)
      (stream : atIndex rtp.streams pkt.streamIndex = some st) :
      P2pReads s out i tb ⟨0, pkt, s.outputVideoStreamIndex, st.timeBase,
        (s.setRtp { rtp with frames := rest }).take .p2p st pkt⟩

theorem readOneFromP2p_cases {s : P2PRtpDemuxContext} {pkt : AVPacket} {i : Int} {tb : AVRational}
    {r : P2pRead} (h : readOneFromP2p s pkt i tb = some r) : P2pReads s pkt i tb r := by
  unfold readOneFromP2p at h
  split at h
  · cases h
  cases hrtp : s.rtpCtx with
  | none =>
      rw [hrtp] at h
      cases h
      exact .closed hrtp
  | some rtp =>
      rw [hrtp] at h
      dsimp only at h
      rcases avReadFrame_cases rtp with hneg | ⟨packet, rest, hframes, hread⟩
      · rw [if_pos hneg] at h
        cases h
        exact .failed hrtp hneg
      · rw [hread] at h
        obtain ⟨st, hst, rfl⟩ := Option.map_eq_some_iff.mp h
        exact .packet hrtp hframes hst

theorem P2pReads.still {s : P2PRtpDemuxContext} {out : AVPacket} {i : Int} {tb : AVRational}
    {r : P2pRead} (h : P2pReads s out i tb r) : Still s r.ctx ∧ r.ctx.sw = s.sw := by
  cases h with
  | closed => exact ⟨.refl s, rfl⟩
  | failed => exact ⟨still_setRtp s _, rfl⟩
  | packet => exact ⟨(still_setRtp s _).trans (still_take _ _ _ _), rfl⟩

/-- A packet of the CDN that goes through: one that has an output stream and that,
on the main video stream, is flagged until the first flagged one has passed. -/
def P2PRtpDemuxContext.passes (s : P2PRtpDemuxContext) (st : AVStream) (pkt : AVPacket) : Bool :=
  let i := s.outputStreamIndex st.codecType
  0 ≤ i && i < s.streams.length && (s.cdnStarted || i ≠ s.cdnVideoStreamIndex || pkt.key)

def P2PRtpDemuxContext.start (s : P2PRtpDemuxContext) (i : Int) : P2PRtpDemuxContext :=
  { s with cdnStarted := s.cdnStarted || i = s.cdnVideoStreamIndex }

theorem still_start (s : P2PRtpDemuxContext) (i : Int) : Still s (s.start i) :=
  ⟨rfl, rfl, rfl, rfl, rfl, List.Subset.refl _, rfl, rfl, fun _ => rfl⟩

inductive CdnReads (s : P2PRtpDemuxContext) (out : AVPacket) :
    Int → AVPacket → P2PRtpDemuxContext → Prop
  | closed (closed : s.cdnActive = true → s.cdnFmtCtx = none) : CdnReads s out averrorEagain out s
  | failed {cdn} (playing : s.cdnFmtCtx = some cdn) (failed : (avReadFrame cdn).1 < 0) :
      CdnReads s out (avReadFrame cdn).1 (avReadFrame cdn).2.1 (s.setCdn (avReadFrame cdn).2.2)
  | dropped {cdn pkt rest st} (playing : s.cdnFmtCtx = some cdn)
      (frames : cdn.frames = .packet pkt :: rest)
      (stream : atIndex cdn.streams pkt.streamIndex = some st) (stops : s.passes st pkt = false) :
      CdnReads s out averrorEagain .blank ((s.setCdn { cdn with frames := rest }).take .cdn st pkt)
  | packet {cdn pkt rest st dstTb} (playing : s.cdnFmtCtx = some cdn)
      (frames : cdn.frames = .packet pkt :: rest)
      (stream : atIndex cdn.streams pkt.streamIndex = some st) (passes : s.passes st pkt = true)
      (dst : atIndex s.streams (s.outputStreamIndex st.codecType) = some dstTb) :
      CdnReads s out 0 (onto pkt st.timeBase dstTb (s.outputStreamIndex st.codecType))
        (((s.setCdn { cdn with frames := rest }).take .cdn st pkt).start
          (s.outputStreamIndex st.codecType))

variable {build : Build} {env : Env} {avPacketRef : Bool} {out pkt : AVPacket} {ret : Int}

theorem readOneFromCdn_cases {s t : P2PRtpDemuxContext} (h : readOneFromCdn s out = some (ret, pkt, t)) : CdnReads s out ret pkt t := by
  unfold readOneFromCdn at h
  cases hcdn : s.cdnFmtCtx with
  | none =>
      rw [hcdn] at h
      cases h
      exact .closed fun _ => hcdn
  | some cdn =>
      rw [hcdn] at h
      dsimp only at h
      split at h
      · next hactive =>
          cases h
          exact .closed fun hyes => absurd hyes hactive
      rcases avReadFrame_cases cdn with hneg | ⟨packet, rest, hframes, hread⟩
      · rw [if_pos hneg] at h
        cases h
        exact .failed hcdn hneg
      rw [hread] at h
      obtain ⟨st, hst, h⟩ := Option.bind_eq_some_iff.mp h
      change (if s.outputStreamIndex st.codecType < 0 ∨
          s.outputStreamIndex st.codecType ≥ s.streams.length then _ else _) = _ at h
      split at h
      · next hrange =>
          cases h
          refine .dropped hcdn hframes hst ?_
          simp only [P2PRtpDemuxContext.passes, Bool.and_eq_false_iff, decide_eq_false_iff_not]
          omega
      next hrange =>
      change (if ¬s.cdnStarted = true ∧ s.outputStreamIndex st.codecType = s.cdnVideoStreamIndex ∧
          ¬packet.key = true then _ else _) = _ at h
      split at h
      · next hwaits =>
          cases h
          refine .dropped hcdn hframes hst ?_
          simp [P2PRtpDemuxContext.passes, hwaits]
      next hstarts =>
      obtain ⟨dst, hdst, h⟩ := Option.map_eq_some_iff.mp h
      cases h
      have hstart : (if ¬s.cdnStarted = true ∧
            s.outputStreamIndex st.codecType = s.cdnVideoStreamIndex then
          { (s.setCdn { cdn with frames := rest }).take .cdn st packet with cdnStarted := true }
          else (s.setCdn { cdn with frames := rest }).take .cdn st packet) =
          ((s.setCdn { cdn with frames := rest }).take .cdn st packet).start
            (s.outputStreamIndex st.codecType) := by
        cases hstarted : s.cdnStarted with
        | true => simp [P2PRtpDemuxContext.start, P2PRtpDemuxContext.take,
            P2PRtpDemuxContext.setCdn, hstarted]
        | false =>
            by_cases hvideo : s.outputStreamIndex st.codecType = s.cdnVideoStreamIndex
            · simp [P2PRtpDemuxContext.start, P2PRtpDemuxContext.take,
                P2PRtpDemuxContext.setCdn, hvideo]
            · simp [P2PRtpDemuxContext.start, P2PRtpDemuxContext.take,
                P2PRtpDemuxContext.setCdn, hvideo, hstarted]
      have hpasses : s.passes st packet = true := by
        simp only [P2PRtpDemuxContext.passes, Bool.and_eq_true, Bool.or_eq_true, decide_eq_true_eq]
        refine ⟨⟨by omega, by omega⟩, ?_⟩
        by_contra hnot
        simp only [not_or, Decidable.not_not] at hnot
        exact hstarts ⟨hnot.1.1, hnot.1.2, hnot.2⟩
      have hreads : CdnReads s out _ _ _ := .packet hcdn hframes hst hpasses hdst
      rw [← hstart] at hreads
      exact hreads

theorem CdnReads.still {s t : P2PRtpDemuxContext} (h : CdnReads s out ret pkt t) :
    Still s t ∧ t.sw = s.sw ∧ t.selectedNode = s.selectedNode ∧ ret ≤ 0 := by
  cases h with
  | closed => exact ⟨.refl s, rfl, rfl, by decide⟩
  | failed _ failed => exact ⟨still_setCdn s _, rfl, rfl, Int.le_of_lt failed⟩
  | dropped => exact ⟨(still_setCdn s _).trans (still_take _ _ _ _), rfl, rfl, by decide⟩
  | packet =>
      exact ⟨((still_setCdn s _).trans (still_take _ _ _ _)).trans (still_start _ _), rfl, rfl,
        Int.le_refl 0⟩

/-- A search ends with nothing, or with a keyframe of the source held for the
switch to it. -/
inductive Search (source : ActiveSource) (target : SwitchTarget) (s : P2PRtpDemuxContext) :
    P2PRtpDemuxContext → Prop
  | nothing {t} (still : Still s t) (unheld : t.sw.pendingSwitch = s.sw.pendingSwitch) :
      Search source target s t
  | found {u} (taken : Taken) (still : Still s u) (mem : taken ∈ u.reads)
      (source_eq : taken.source = source)
      (suitable : hasKeyframeInfo taken.stream taken.pkt = some true) :
      Search source target s (hold u source target taken.pkt taken.stream.timeBase)

theorem Search.prepend {source : ActiveSource} {target : SwitchTarget} {s u t : P2PRtpDemuxContext}
    (h : Search source target u t) (hs : Still s u) (hp : u.sw.pendingSwitch = s.sw.pendingSwitch) :
    Search source target s t := by
  cases h with
  | nothing still unheld => exact .nothing (hs.trans still) (unheld.trans hp)
  | found taken still mem source_eq suitable =>
      exact .found taken (hs.trans still) mem source_eq suitable

theorem searchP2p_search {turns i : Nat} {s t : P2PRtpDemuxContext} (h : searchP2p env turns i s = some t) :
    Search .p2p .toP2p s t := by
  induction turns generalizing i s with
  | zero =>
      cases h
      exact .nothing (.refl _) rfl
  | succ turns ih =>
      obtain ⟨r, hr, h⟩ := Option.bind_eq_some_iff.mp h
      have hreads := readOneFromP2p_cases hr
      obtain ⟨hstill, hsw⟩ := hreads.still
      have hpending := congrArg P2PRtpDemuxSwitchState.pendingSwitch hsw
      cases hreads with
      | closed =>
          cases h
          exact .nothing hstill hpending
      | failed _ failed =>
          rw [if_pos failed] at h
          cases h
          exact .nothing hstill hpending
      | @packet rtp pkt rest st playing frames stream =>
          rw [if_neg (by decide : ¬(0 : Int) < 0)] at h
          have hafter := rtpCtx_setRtp playing { rtp with frames := rest }
          obtain ⟨node, hnode, htrack⟩ := Option.bind_eq_some_iff.mp hafter
          obtain ⟨track, htrack, htrackRtp⟩ := Option.bind_eq_some_iff.mp htrack
          simp only [take_selectedNode, hnode, htrack, htrackRtp, stream, Option.bind_some] at h
          obtain ⟨suitable, hsuitable, h⟩ := Option.bind_eq_some_iff.mp h
          have hchosen := hstill.trans (still_chooseOutput _ track.streamIndex)
          split at h
          · next hyes =>
              subst hyes
              split at h
              · cases h
                exact .found ⟨.p2p, st, pkt⟩ hchosen (mem_take _ _ _ _) rfl hsuitable
              · exact (ih h).prepend (hchosen.trans (still_dropHeld _)) hpending
          · exact (ih h).prepend hstill hpending

theorem searchCdn_search {turns i : Nat} {s t : P2PRtpDemuxContext} (h : searchCdn env turns i s = some t) :
    Search .cdn .toCdn s t := by
  induction turns generalizing i s with
  | zero =>
      cases h
      exact .nothing (.refl _) rfl
  | succ turns ih =>
      unfold searchCdn at h
      cases hcdn : s.cdnFmtCtx with
      | none =>
          rw [hcdn] at h
          cases h
      | some cdn =>
          rw [hcdn] at h
          dsimp only at h
          rcases avReadFrame_cases cdn with hneg | ⟨tmp, rest, _, hread⟩
          · rw [if_pos hneg] at h
            cases h
            exact .nothing (still_setCdn s _) rfl
          rw [hread, if_neg (by decide : ¬(0 : Int) < 0)] at h
          obtain ⟨st, hst, h⟩ := Option.bind_eq_some_iff.mp h
          have htaken := (still_setCdn s { cdn with frames := rest }).trans
            (still_take _ .cdn st tmp)
          split at h
          · exact (ih h).prepend htaken rfl
          obtain ⟨suitable, hsuitable, h⟩ := Option.bind_eq_some_iff.mp h
          have hchosen := htaken.trans (still_chooseOutput _ s.cdnVideoStreamIndex)
          split at h
          · next hyes =>
              subst hyes
              split at h
              · cases h
                exact .found ⟨.cdn, st, tmp⟩ hchosen (mem_take _ _ _ _) rfl hsuitable
              · exact (ih h).prepend (hchosen.trans (still_dropHeld _)) rfl
          · exact (ih h).prepend htaken rfl

theorem tryPrepareSwitchToP2p_search {s t : P2PRtpDemuxContext}
    (h : tryPrepareSwitchToP2p build env s = some (ret, t)) : Search .p2p .toP2p s t := by
  unfold tryPrepareSwitchToP2p at h
  split at h
  · cases h
    exact .nothing (.refl s) rfl
  split at h
  · cases h
    exact .nothing (.refl s) rfl
  obtain ⟨u, hu, h⟩ := Option.map_eq_some_iff.mp h
  cases h
  exact searchP2p_search hu

theorem tryPrepareSwitchToCdn_search {s t : P2PRtpDemuxContext}
    (h : tryPrepareSwitchToCdn build env s = some (ret, t)) : Search .cdn .toCdn s t := by
  unfold tryPrepareSwitchToCdn at h
  split at h
  · cases h
    exact .nothing (.refl s) rfl
  split at h
  · cases h
    exact .nothing (.refl s) rfl
  obtain ⟨u, hu, h⟩ := Option.map_eq_some_iff.mp h
  cases h
  exact searchCdn_search hu

structure Opening.Leaves (s t : P2PRtpDemuxContext) : Prop where
  sw : t.sw = s.sw
  commits : t.commits = s.commits
  ready : t.p2pConnectReady = s.p2pConnectReady

theorem addStreams_opening (env : Env) (srcs : List AVStream) (i : Nat) (s : P2PRtpDemuxContext) :
    Opening.Leaves s (addStreams env srcs i s).2 := by
  induction srcs generalizing i s with
  | nil => exact ⟨rfl, rfl, rfl⟩
  | cons src rest ih =>
      unfold addStreams
      split
      · exact ih _ _
      split
      · exact ⟨rfl, rfl, rfl⟩
      split
      · exact ⟨rfl, rfl, rfl⟩
      split
      · exact ⟨rfl, rfl, rfl⟩
      · have hrest := ih (i + 1) (adoptStream src s)
        exact ⟨hrest.sw, hrest.commits, hrest.ready⟩

theorem createCdnStreams_opening (env : Env) (s : P2PRtpDemuxContext) :
    Opening.Leaves s (createCdnStreams env s).2 := by
  unfold createCdnStreams
  split
  · exact ⟨rfl, rfl, rfl⟩
  split
  · exact ⟨rfl, rfl, rfl⟩
  split
  · exact ⟨rfl, rfl, rfl⟩
  cases env.avformatOpenInput with
  | failed code => exact ⟨rfl, rfl, rfl⟩
  | opened ctx =>
      cases ctx with
      | none => exact ⟨rfl, rfl, rfl⟩
      | some cdn =>
          have hadded := addStreams_opening env cdn.streams 0 { s with cdnFmtCtx := some cdn }
          dsimp only
          split
          · exact ⟨rfl, rfl, rfl⟩
          split
          · exact ⟨hadded.sw, hadded.commits, hadded.ready⟩
          · exact ⟨hadded.sw, hadded.commits, hadded.ready⟩

/-- The source a switch makes active. -/
def SwitchTarget.source (old : ActiveSource) : SwitchTarget → ActiveSource
  | .none => old
  | .toP2p => .p2p
  | .toCdn => .cdn

structure Switched (s t : P2PRtpDemuxContext) : Prop where
  active : t.sw.activeSource = s.sw.pendingSwitch.source s.sw.activeSource
  valid : t.sw.pendingPktValid = false
  ready : t.p2pConnectReady = s.p2pConnectReady
  streams : t.streams = s.streams
  reads : t.reads = s.reads

inductive Commit (avPacketRef : Bool) (s : P2PRtpDemuxContext) (out : AVPacket) :
    Int → AVPacket → P2PRtpDemuxContext → Prop
  | idle (unheld : s.sw.pendingPktValid = false) : Commit avPacketRef s out 0 out s
  | lost {t} (held : s.sw.pendingPktValid = true) (failed : avPacketRef = false)
      (switched : Switched s t) (commits : t.commits = s.commits) :
      Commit avPacketRef s out 0 .blank t
  | handed {t} (dstTb : AVRational) (held : s.sw.pendingPktValid = true)
      (dst : atIndex s.streams s.sw.pendingPktOutStreamIndex = some dstTb)
      (done : avPacketRef = true) (switched : Switched s t)
      (commits : t.commits = s.commits ++
        [onto s.sw.pendingPkt s.sw.pendingPktSrcTb dstTb s.sw.pendingPktOutStreamIndex]) :
      Commit avPacketRef s out 1
        (onto s.sw.pendingPkt s.sw.pendingPktSrcTb dstTb s.sw.pendingPktOutStreamIndex) t

/-- Nothing but the active source and, in a switch to it, the selected node's
inner demuxer changes. -/
theorem switchSource_eq {s t : P2PRtpDemuxContext} (h : switchSource build env s = some t) :
    ∃ node, (s.sw.pendingSwitch ≠ .toP2p → node = s.selectedNode) ∧ t = { s with
      sw := { s.sw with activeSource := s.sw.pendingSwitch.source s.sw.activeSource }
      selectedNode := node } := by
  unfold switchSource at h
  cases htarget : s.sw.pendingSwitch with
  | none =>
      rw [htarget] at h
      cases h
      exact ⟨_, fun _ => rfl, rfl⟩
  | toCdn =>
      rw [htarget] at h
      cases h
      exact ⟨s.selectedNode, fun _ => rfl, rfl⟩
  | toP2p =>
      rw [htarget] at h
      dsimp only [offerRepair] at h
      split at h
      · obtain ⟨rtp, _, rfl⟩ := Option.map_eq_some_iff.mp h
        split
        · exact ⟨_, fun hne => absurd rfl hne, rfl⟩
        · exact ⟨_, fun hne => absurd rfl hne, rfl⟩
      · cases h
        exact ⟨_, fun hne => absurd rfl hne, rfl⟩

theorem commit_cases {s t : P2PRtpDemuxContext}
    (h : commitPendingSwitchIfReady build env avPacketRef s out = some (ret, pkt, t)) :
    Commit avPacketRef s out ret pkt t := by
  unfold commitPendingSwitchIfReady at h
  split at h
  · next hvalid =>
      cases h
      exact .idle (by simpa using hvalid)
  next hvalid =>
  have hheld : s.sw.pendingPktValid = true := by simpa using hvalid
  obtain ⟨u, hu, h⟩ := Option.bind_eq_some_iff.mp h
  obtain ⟨node, _, rfl⟩ := switchSource_eq hu
  obtain ⟨dstTb, hdst, h⟩ := Option.map_eq_some_iff.mp h
  cases avPacketRef with
  | false =>
      cases h
      exact .lost hheld rfl ⟨rfl, rfl, rfl, rfl, rfl⟩ rfl
  | true =>
      cases h
      exact .handed dstTb hheld hdst rfl ⟨rfl, rfl, rfl, rfl, rfl⟩ rfl

theorem commit_cdn {s t : P2PRtpDemuxContext}
    (h : commitPendingSwitchIfReady build env avPacketRef s out = some (ret, pkt, t))
    (hcdn : t.sw.activeSource = .cdn) : ∃ sw active commits, (s.cdnActive = true → active = true) ∧
      t = { s with sw := sw, cdnActive := active, commits := commits } := by
  unfold commitPendingSwitchIfReady at h
  split at h
  · cases h
    exact ⟨_, _, _, id, rfl⟩
  obtain ⟨u, hu, h⟩ := Option.bind_eq_some_iff.mp h
  obtain ⟨node, hnode, rfl⟩ := switchSource_eq hu
  obtain ⟨dstTb, _, h⟩ := Option.map_eq_some_iff.mp h
  have hsource : s.sw.pendingSwitch.source s.sw.activeSource = .cdn := by
    cases avPacketRef with
    | true | false =>
        cases h
        exact hcdn
  have hne : s.sw.pendingSwitch ≠ .toP2p := by
    intro hto
    rw [hto] at hsource
    cases hsource
  cases avPacketRef with
  | true | false =>
      cases h
      rw [hnode hne]
      exact ⟨_, _, _, fun _ => decide_eq_true hsource, rfl⟩

end P2PFFmpeg.Demux
