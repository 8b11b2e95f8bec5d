import P2PFFmpeg.Demux.Conservation

namespace P2PFFmpeg.Demux

open Util Library.Transition

/-- The runs in which P2P never becomes ready. -/
def cdnOnly (_ : P2PRtpDemuxContext) : DemuxLabel → Bool
  | .background _ _ ready => !ready
  | .readPacket _ => true

/-- A packet of the CDN's video, as the caller is to be given it. -/
def asVideo (s : P2PRtpDemuxContext) (streams : List AVStream) : Frame → Option AVPacket
  | .failed _ => none
  | .packet pkt => (atIndex streams pkt.streamIndex).bind fun st =>
      if st.codecType = .video then
        (atIndex s.streams s.outputVideoStreamIndex).map fun dstTb =>
          onto pkt st.timeBase dstTb s.outputVideoStreamIndex
      else none

def coming (s : P2PRtpDemuxContext) : List AVPacket :=
  match s.cdnFmtCtx with
  | none => []
  | some cdn => cdn.frames.filterMap (asVideo s cdn.streams)

def held (s : P2PRtpDemuxContext) : List AVPacket :=
  if s.sw.pendingPktValid then
    ((atIndex s.streams s.sw.pendingPktOutStreamIndex).map fun dstTb =>
      onto s.sw.pendingPkt s.sw.pendingPktSrcTb dstTb s.sw.pendingPktOutStreamIndex).toList
  else []

def observeVideo (build : Build) (s : P2PRtpDemuxContext) : DemuxLabel → List AVPacket
  | .background _ _ _ => []
  | .readPacket env => (p2pRtpReadPacket build env s .blank).toList.flatMap fun (ret, pkt, _) =>
      (given ret pkt).toList.filter (·.streamIndex = s.outputVideoStreamIndex)

def dropsNext (s : P2PRtpDemuxContext) : Bool :=
  match s.cdnFmtCtx with
  | none => false
  | some cdn => match cdn.frames with
    | .packet pkt :: _ => match atIndex cdn.streams pkt.streamIndex with
      | some st => st.codecType = .video && !s.cdnStarted && !pkt.key
      | none => false
    | _ => false

def LosesNone (x : P2PRtpDemuxContext × List AVPacket) : DemuxLabel → Prop
  | .background _ _ _ => True
  | .readPacket env =>
      if x.1.sw.pendingPktValid then env.refCommit = true else dropsNext x.1 = false

structure Playing (s : P2PRtpDemuxContext) : Prop where
  active : s.sw.activeSource = .cdn
  cdnActive : s.cdnActive = true
  ready : s.p2pConnectReady = false
  video : s.cdnVideoStreamIndex = s.outputVideoStreamIndex
  output : ∃ dstTb, atIndex s.streams s.outputVideoStreamIndex = some dstTb
  audio : s.outputAudioStreamIndex ≠ s.outputVideoStreamIndex
  target : s.sw.pendingPktValid = true →
    s.sw.pendingSwitch = .toCdn ∧ s.sw.pendingPktOutStreamIndex = s.outputVideoStreamIndex

variable {build : Build} {env : Env} {s t : P2PRtpDemuxContext} {out pkt : AVPacket} {ret : Int}
  {cdn : AVFormatContext} {i : Int}

variable {α : Type} {l : List α} {a : α}

theorem atIndex_append (h : atIndex l i = some a) (added : List α) : atIndex (l ++ added) i = some a := by
  unfold atIndex at h ⊢
  split at h
  · next hi =>
      rw [if_pos hi]
      exact List.getElem?_append_left (List.getElem?_eq_some_iff.mp h).1 ▸ h
  · cases h

theorem atIndex_range (h : atIndex l i = some a) : 0 ≤ i ∧ i < l.length := by
  unfold atIndex at h
  split at h
  · next hi =>
      have hlt := (List.getElem?_eq_some_iff.mp h).1
      omega
  · cases h

theorem Playing.background (h : Playing s) (node : Option PeerConnectionNode) (added : List AVRational) :
    Playing { s with
      selectedNode := node
      streams := s.streams ++ added
      p2pConnectReady := s.p2pConnectReady || false } where
  active := h.active
  cdnActive := h.cdnActive
  ready := by simp [h.ready]
  video := h.video
  output := by
    obtain ⟨dstTb, hdst⟩ := h.output
    exact ⟨dstTb, atIndex_append hdst added⟩
  audio := h.audio
  target := h.target

theorem background_held (h : Playing s) (node : Option PeerConnectionNode) (added : List AVRational)
    (ready : Bool) :
    held { s with
      selectedNode := node
      streams := s.streams ++ added
      p2pConnectReady := ready } = held s ∧
    coming { s with
      selectedNode := node
      streams := s.streams ++ added
      p2pConnectReady := ready } = coming s := by
  obtain ⟨dstTb, hdst⟩ := h.output
  constructor
  · unfold held
    cases hvalid : s.sw.pendingPktValid with
    | false => rfl
    | true =>
        simp only [(h.target hvalid).2, hdst, atIndex_append hdst added]
  · unfold coming
    cases s.cdnFmtCtx with
    | none => rfl
    | some cdn =>
        dsimp only
        congr 1
        funext frame
        simp only [asVideo, hdst, atIndex_append hdst added]

theorem avReadFrame_failed {s : AVFormatContext} (h : (avReadFrame s).1 < 0) :
    (s.frames = [] ∧ (avReadFrame s).2.2 = s) ∨
      ∃ code rest, s.frames = .failed code :: rest ∧ (avReadFrame s).2.2 = { s with frames := rest } := by
  unfold avReadFrame at h ⊢
  cases hframes : s.frames with
  | nil => exact .inl ⟨rfl, rfl⟩
  | cons frame rest =>
      cases frame with
      | failed code => exact .inr ⟨code, rest, rfl, rfl⟩
      | packet pkt =>
          rw [hframes] at h
          exact absurd h (Int.lt_irrefl 0)

theorem coming_of (hcdn : t.cdnFmtCtx = some cdn) (hstreams : t.streams = s.streams)
    (houtput : t.outputVideoStreamIndex = s.outputVideoStreamIndex) :
    coming t = cdn.frames.filterMap (asVideo s cdn.streams) := by
  unfold coming
  rw [hcdn]
  dsimp only
  congr 1
  funext frame
  simp only [asVideo, hstreams, houtput]

theorem Playing.outputStreamIndex (h : Playing s) {t : AVMediaType} (hne : t ≠ .video) :
    s.outputStreamIndex t ≠ s.outputVideoStreamIndex := by
  obtain ⟨dstTb, hdst⟩ := h.output
  have hrange := atIndex_range hdst
  cases t with
  | video => exact absurd rfl hne
  | audio => exact h.audio
  | other =>
      change (-1 : Int) ≠ _
      omega

theorem CdnReads.video (h : CdnReads s out ret pkt t) (hs : Playing s) : (dropsNext s = false →
      (given ret pkt).toList.filter (·.streamIndex = s.outputVideoStreamIndex) ++ coming t =
        coming s) ∧
    (dropsNext s = true →
      ((given ret pkt).toList.filter (·.streamIndex = s.outputVideoStreamIndex) ++ coming t).length <
        (coming s).length) := by
  obtain ⟨dstTb, hdst⟩ := hs.output
  have hrange := atIndex_range hdst
  cases h with
  | closed closed => simp [dropsNext, closed hs.cdnActive, given_neg (by decide : averrorEagain < 0)]
  | @failed cdn playing failed =>
      have hcoming : coming (s.setCdn (avReadFrame cdn).2.2) = _ := coming_of (s := s) rfl rfl rfl
      rw [given_neg failed, hcoming, coming_of (s := s) playing rfl rfl]
      rcases avReadFrame_failed failed with ⟨hframes, hafter⟩ | ⟨code, rest, hframes, hafter⟩
      · simp [dropsNext, playing, hframes, hafter]
      · simp [dropsNext, playing, hframes, hafter, List.filterMap_cons, asVideo]
  | @dropped cdn packet rest st playing frames stream stops =>
      have hcoming : coming ((s.setCdn { cdn with frames := rest }).take .cdn st packet) = _ :=
        coming_of (s := s) rfl rfl rfl
      rw [given_neg (by decide : averrorEagain < 0), hcoming, coming_of (s := s) playing rfl rfl]
      by_cases hvideo : st.codecType = .video
      · have hstops : s.cdnStarted = false ∧ packet.key = false := by
          simp only [P2PRtpDemuxContext.passes, hvideo, P2PRtpDemuxContext.outputStreamIndex,
            hs.video] at stops
          simpa [hrange] using stops
        simp [dropsNext, playing, frames, stream, asVideo, hvideo, hdst, hstops]
      · simp [dropsNext, playing, frames, stream, asVideo, hvideo]
  | @packet cdn packet rest st dst playing frames stream passes hdst' =>
      have hcoming : coming (((s.setCdn { cdn with frames := rest }).take .cdn st packet).start
          (s.outputStreamIndex st.codecType)) = _ := coming_of (s := s) rfl rfl rfl
      rw [given_zero, hcoming, coming_of (s := s) playing rfl rfl]
      by_cases hvideo : st.codecType = .video
      · have hpasses : s.cdnStarted = true ∨ packet.key = true := by
          simp only [P2PRtpDemuxContext.passes, hvideo, P2PRtpDemuxContext.outputStreamIndex,
            hs.video] at passes
          simpa [hrange] using passes
        rw [hvideo] at hdst' ⊢
        obtain rfl : dstTb = dst := Option.some.inj (hdst.symm.trans hdst')
        rcases hpasses with hstarted | hkey
        · simp [dropsNext, playing, frames, stream, asVideo, hvideo, hdst, onto, hstarted,
            P2PRtpDemuxContext.outputStreamIndex]
        · simp [dropsNext, playing, frames, stream, asVideo, hvideo, hdst, onto, hkey,
            P2PRtpDemuxContext.outputStreamIndex]
      · have hne := hs.outputStreamIndex hvideo
        simp [dropsNext, playing, frames, stream, asVideo, hvideo, onto, hne]

theorem Playing.read {s t : P2PRtpDemuxContext} {out pkt : AVPacket} {ret : Int} (hs : Playing s)
    (h : CdnReads s out ret pkt t) : Playing t := by
  obtain ⟨hstill, hsw, _, _⟩ := h.still
  obtain ⟨dstTb, hdst⟩ := hs.output
  have hrange := atIndex_range hdst
  have houtput := hstill.output (by omega)
  refine ⟨?_, ?_, ?_, ?_, ⟨dstTb, ?_⟩, ?_, ?_⟩
  · rw [hsw]
    exact hs.active
  · cases h with
    | closed | failed | dropped | packet => exact hs.cdnActive
  · rw [hstill.ready]
    exact hs.ready
  · rw [hstill.video, houtput]
    exact hs.video
  · rw [hstill.streams, houtput]
    exact hdst
  · rw [hstill.audio, houtput]
    exact hs.audio
  · rw [hsw, houtput]
    exact hs.target

theorem Playing.readCdn (hs : Playing s) (h : readCdn build env s out = some (ret, pkt, t)) :
    CdnReads s out ret pkt t := by
  obtain ⟨⟨read, kept, u⟩, hu, h⟩ := Option.bind_eq_some_iff.mp h
  have hreads := readOneFromCdn_cases hu
  have hready : u.p2pConnectReady = false := hreads.still.1.ready.trans hs.ready
  dsimp only at h
  rw [if_neg (by simp [hready])] at h
  cases h
  exact hreads

theorem Playing.commit {avPacketRef : Bool} (hs : Playing s)
    (h : commitPendingSwitchIfReady build env avPacketRef s out = some (ret, pkt, t)) :
    Playing t ∧ t.sw.pendingPktValid = false ∧ held t ++ coming t = coming s ∧
      t.outputVideoStreamIndex = s.outputVideoStreamIndex := by
  have hactive : t.sw.activeSource = .cdn := by
    cases commit_cases h with
    | idle => exact hs.active
    | lost held _ switched | handed _ held _ _ switched =>
        rw [switched.active, (hs.target held).1]
        rfl
  have hvalid : t.sw.pendingPktValid = false := by
    cases commit_cases h with
    | idle unheld => exact unheld
    | lost _ _ switched | handed _ _ _ _ switched => exact switched.valid
  obtain ⟨sw, active, commits, hcdn, rfl⟩ := commit_cdn h hactive
  refine ⟨⟨hactive, hcdn hs.cdnActive, hs.ready, hs.video, hs.output, hs.audio, ?_⟩, hvalid, ?_, rfl⟩
  · intro hyes
    rw [hvalid] at hyes
    cases hyes
  · change (if sw.pendingPktValid = true then _ else _) ++ coming s = coming s
    rw [hvalid]
    rfl

structure Carries (none : Prop) (before after : List AVPacket) : Prop where
  all : none → after = before
  lost : ¬none → after.length < before.length

theorem Carries.length_le {none : Prop} {before after : List AVPacket}
    (h : Carries none before after) : after.length ≤ before.length := by
  by_cases hnone : none
  · exact Nat.le_of_eq (congrArg List.length (h.all hnone))
  · exact Nat.le_of_lt (h.lost hnone)

theorem Carries.step {p q : Prop} {start history before obs after : List AVPacket}
    (h : Carries p start (history ++ before)) (g : Carries q before (obs ++ after)) :
    Carries (p ∧ q) start (history ++ (obs ++ after)) where
  all := fun ⟨hp, hq⟩ => by rw [g.all hq, h.all hp]
  lost hnot := by
    have hle := h.length_le
    have hle' := g.length_le
    rw [List.length_append] at hle ⊢
    rcases Classical.not_and_iff_not_or_not.mp hnot with hp | hq
    · have hlt := h.lost hp
      rw [List.length_append] at hlt
      omega
    · have hlt := g.lost hq
      omega

theorem held_of {dstTb : AVRational} (h : s.sw.pendingPktValid = true)
    (hdst : atIndex s.streams s.sw.pendingPktOutStreamIndex = some dstTb) :
    held s = [onto s.sw.pendingPkt s.sw.pendingPktSrcTb dstTb s.sw.pendingPktOutStreamIndex] := by
  simp [held, h, hdst]

theorem Playing.call {build : Build} {env : Env} {s t : P2PRtpDemuxContext} {pkt : AVPacket}
    {ret : Int} {history : List AVPacket} (hs : Playing s)
    (h : p2pRtpReadPacket build env s .blank = some (ret, pkt, t)) :
    Playing t ∧ Carries (LosesNone (s, history) (.readPacket env)) (held s ++ coming s)
      ((given ret pkt).toList.filter (·.streamIndex = s.outputVideoStreamIndex) ++
        (held t ++ coming t)) := by
  obtain ⟨⟨committed, out, u⟩, hu, h⟩ := Option.bind_eq_some_iff.mp h
  obtain ⟨hplaying, hunheld, hcoming, houtput⟩ := hs.commit hu
  have hbranch : committed ≠ 1 → Playing t ∧
      Carries (dropsNext u = false) (coming s)
        ((given ret pkt).toList.filter (·.streamIndex = s.outputVideoStreamIndex) ++
          (held t ++ coming t)) := by
    intro hone
    dsimp only at h
    rw [if_neg hone, hplaying.active] at h
    have hreads := hplaying.readCdn h
    have hheld : held t = [] := by
      simp [held, hreads.still.1.valid, hunheld]
    have hcomingU : coming u = coming s := by
      rw [← hcoming]
      simp [held, hunheld]
    obtain ⟨hall, hlost⟩ := hreads.video hplaying
    rw [hheld, List.nil_append, ← hcomingU, ← houtput]
    refine ⟨hplaying.read hreads, hall, fun hdrops => hlost ?_⟩
    simpa using hdrops
  cases commit_cases hu with
  | idle unheld =>
      obtain ⟨ht, hcarries⟩ := hbranch (by decide)
      refine ⟨ht, ?_⟩
      simpa [held, unheld, LosesNone] using hcarries
  | lost valid failed switched =>
      obtain ⟨ht, hcarries⟩ := hbranch (by decide)
      obtain ⟨dstTb, hdst⟩ := hs.output
      rw [← (hs.target valid).2] at hdst
      have hle := hcarries.length_le
      refine ⟨ht, ?_, fun _ => ?_⟩
      · intro hnone
        simp only [LosesNone, valid, if_true, failed, Bool.false_eq_true] at hnone
      · rw [held_of valid hdst]
        simp only [List.length_append, List.length_singleton] at hle ⊢
        omega
  | handed dstTb valid dst done switched =>
      dsimp only at h
      rw [if_pos rfl] at h
      cases h
      have hindex : (onto s.sw.pendingPkt s.sw.pendingPktSrcTb dstTb
          s.sw.pendingPktOutStreamIndex).streamIndex = s.outputVideoStreamIndex :=
        (hs.target valid).2
      refine ⟨hplaying, fun _ => ?_, fun hnone => ?_⟩
      · rw [given_zero, hcoming, held_of valid dst]
        simp [hindex]
      · simp [LosesNone, valid, done] at hnone

/-- The calls of the reader while P2P is not ready, with the video packets they return. -/
def playback (build : Build) : System (P2PRtpDemuxContext × List AVPacket) DemuxLabel :=
  ((demuxer build).guard cdnOnly).observed (observeVideo build)

/-- Over a run, the packets returned, held and still to come are those at its
start exactly when no step has lost one. -/
theorem playback_carries {s₀ : P2PRtpDemuxContext} {x : P2PRtpDemuxContext × List AVPacket}
    {ls : List DemuxLabel} (h : (playback build).Run (s₀, []) ls x) (hs : Playing s₀) :
    Playing x.1 ∧ Carries (((playback build).restrict LosesNone).Run (s₀, []) ls x)
      (held s₀ ++ coming s₀) (x.2 ++ (held x.1 ++ coming x.1)) := by
  induction h with
  | nil => exact ⟨hs, fun _ => rfl, fun hnot => absurd .nil hnot⟩
  | @snoc ls x l y hrun hnext ih =>
      obtain ⟨hplaying, hcarries⟩ := ih
      obtain ⟨s, history⟩ := x
      obtain ⟨t, history'⟩ := y
      rw [System.Run.restrict_snoc hrun hnext]
      obtain ⟨hstep, hhistory⟩ := System.observed_next.mp hnext
      obtain ⟨hcheck, hstep⟩ := System.guard_next.mp hstep
      simp only at hstep hhistory hcarries hplaying hcheck
      have hstepped : Playing t ∧ Carries (LosesNone (s, history) l) (held s ++ coming s)
          (observeVideo build s l ++ (held t ++ coming t)) := by
        cases l with
        | background node added ready =>
            simp only [cdnOnly, Bool.not_eq_true'] at hcheck
            subst hcheck
            cases hstep
            obtain ⟨hheld, hcoming⟩ := background_held hplaying node added (s.p2pConnectReady || false)
            refine ⟨hplaying.background node added, fun _ => ?_, fun hnot => absurd trivial hnot⟩
            rw [hheld, hcoming]
            rfl
        | readPacket env =>
            obtain ⟨⟨ret, pkt, u⟩, hcall, rfl⟩ := Option.map_eq_some_iff.mp hstep
            simpa [observeVideo, hcall] using @Playing.call _ _ _ _ _ _ history hplaying hcall
      refine ⟨hstepped.1, ?_⟩
      rw [hhistory, List.append_assoc]
      exact hcarries.step hstepped.2

structure Indexed (s : P2PRtpDemuxContext) : Prop where
  same : s.cdnVideoStreamIndex = s.outputVideoStreamIndex
  video : s.outputVideoStreamIndex = -1 ∨
    (0 ≤ s.outputVideoStreamIndex ∧ s.outputVideoStreamIndex < s.streams.length)
  audio : s.outputAudioStreamIndex = -1 ∨
    (0 ≤ s.outputAudioStreamIndex ∧ s.outputAudioStreamIndex < s.streams.length)
  apart : 0 ≤ s.outputVideoStreamIndex → s.outputAudioStreamIndex ≠ s.outputVideoStreamIndex

theorem Indexed.adopt (h : Indexed s) (src : AVStream) : Indexed (adoptStream src s) := by
  have hsame := h.same
  have hvideo := h.video
  have haudio := h.audio
  have hapart := h.apart
  cases hcodec : src.codecType with
  | video =>
      rcases hvideo with hnone | hrange
      · constructor <;> simp [adoptStream, hcodec, hsame, hnone] <;> omega
      · have hge : ¬s.outputVideoStreamIndex < 0 := by omega
        constructor <;> simp [adoptStream, hcodec, hsame, hge] <;> omega
  | audio =>
      by_cases hfree : s.cdnAudioStreamIndex < 0 ∧ s.outputAudioStreamIndex = -1
      · constructor <;> simp [adoptStream, hcodec, hsame, hfree] <;> omega
      · constructor <;> simp [adoptStream, hcodec, hsame, hfree] <;> omega
  | other => constructor <;> simp [adoptStream, hcodec, hsame] <;> omega

theorem Indexed.addStreams (h : Indexed s) (env : Env) (srcs : List AVStream) (i : Nat) :
    Indexed (addStreams env srcs i s).2 := by
  induction srcs generalizing i s with
  | nil => exact h
  | cons src rest ih =>
      unfold Demux.addStreams
      split
      · exact ih h _
      split
      · exact h
      split
      · have hvideo := h.video
        have haudio := h.audio
        constructor <;> simp [h.same] <;> try omega
        exact h.apart
      split
      · exact h.adopt src
      · exact ih (h.adopt src) _

theorem addStreams_cdnFmtCtx (env : Env) (srcs : List AVStream) (i : Nat) (s : P2PRtpDemuxContext) :
    (addStreams env srcs i s).2.cdnFmtCtx = s.cdnFmtCtx := by
  induction srcs generalizing i s with
  | nil => rfl
  | cons src rest ih =>
      unfold addStreams
      split
      · exact ih _ _
      split
      · rfl
      split
      · rfl
      split
      · rfl
      · exact ih _ _

theorem adoptStream_video {src : AVStream} (h : src.codecType = .video ∨ 0 ≤ s.cdnVideoStreamIndex) :
    0 ≤ (adoptStream src s).cdnVideoStreamIndex := by
  by_cases hfree : src.codecType = .video ∧ s.cdnVideoStreamIndex < 0
  · simp [adoptStream, hfree]
  · rw [adoptStream]
    dsimp only
    rw [if_neg hfree]
    rcases h with hvideo | hge
    · exact Int.not_lt.mp fun hlt => hfree ⟨hvideo, hlt⟩
    · exact hge

theorem addStreams_video {srcs : List AVStream} {i : Nat} (hret : ¬(addStreams env srcs i s).1 < 0)
    (h : (∃ src ∈ srcs, src.codecType = .video) ∨ 0 ≤ s.cdnVideoStreamIndex) :
    0 ≤ (addStreams env srcs i s).2.cdnVideoStreamIndex := by
  induction srcs generalizing i s with
  | nil => simpa [addStreams] using h
  | cons src rest ih =>
      unfold addStreams at hret ⊢
      split at hret
      · next hother =>
          rw [if_pos hother]
          refine ih hret ?_
          rcases h with ⟨video, hmem, hvideo⟩ | hge
          · rcases List.mem_cons.mp hmem with rfl | hmem
            · rw [hother] at hvideo
              cases hvideo
            · exact .inl ⟨video, hmem, hvideo⟩
          · exact .inr hge
      next hother =>
      rw [if_neg hother]
      split at hret
      · exact absurd (by decide : averrorEnomem < 0) hret
      next hnew =>
      rw [if_neg hnew]
      split at hret
      · next hcopy => exact absurd hcopy hret
      next hcopy =>
      rw [if_neg hcopy]
      split at hret
      · next hboth =>
          rw [if_pos hboth]
          exact hboth.1
      next hboth =>
      rw [if_neg hboth]
      refine ih hret ?_
      rcases h with ⟨video, hmem, hvideo⟩ | hge
      · rcases List.mem_cons.mp hmem with rfl | hmem
        · exact .inr (adoptStream_video (.inl hvideo))
        · exact .inl ⟨video, hmem, hvideo⟩
      · exact .inr (adoptStream_video (.inr hge))

def videoKeyframe (streams : List AVStream) (pkt : AVPacket) : Bool :=
  match atIndex streams pkt.streamIndex with
  | some st => st.codecType = .video && hasKeyframeInfo st pkt = some true
  | none => false

/-- The keyframe that a search of the CDN holds, with what it has skipped and
what comes behind. -/
structure Found (env : Env) (cdn : AVFormatContext) (t : P2PRtpDemuxContext) (skipped : List Frame)
    (key : AVPacket) (st : AVStream) (later : List Frame) : Prop where
  frames : cdn.frames = skipped ++ .packet key :: later
  stream : atIndex cdn.streams key.streamIndex = some st
  video : st.codecType = .video
  suitable : hasKeyframeInfo st key = some true
  first : (∀ i, env.refPending i = true) → ∀ pkt, .packet pkt ∈ skipped →
    videoKeyframe cdn.streams pkt = false
  rest : t.cdnFmtCtx = some { cdn with frames := later }
  pkt : t.sw.pendingPkt = key
  srcTb : t.sw.pendingPktSrcTb = st.timeBase
  target : t.sw.pendingSwitch = .toCdn
  index : t.sw.pendingPktOutStreamIndex = t.outputVideoStreamIndex

theorem Found.skip {t : P2PRtpDemuxContext} {skipped rest later : List Frame} {tmp key : AVPacket}
    {st : AVStream} (h : Found env { cdn with frames := rest } t skipped key st later)
    (hframes : cdn.frames = .packet tmp :: rest)
    (htmp : (∀ i, env.refPending i = true) → videoKeyframe cdn.streams tmp = false) :
    Found env cdn t (.packet tmp :: skipped) key st later where
  frames := by
    have hrest : rest = _ := h.frames
    rw [hframes, hrest]
    rfl
  stream := h.stream
  video := h.video
  suitable := h.suitable
  first hrefs pkt hmem := by
    rcases List.mem_cons.mp hmem with heq | hmem
    · cases heq
      exact htmp hrefs
    · exact h.first hrefs pkt hmem
  rest := h.rest
  pkt := h.pkt
  srcTb := h.srcTb
  target := h.target
  index := h.index

theorem searchCdn_found {turns i : Nat} (h : searchCdn env turns i s = some t)
    (hcdn : s.cdnFmtCtx = some cdn) (hs : s.sw.pendingPktValid = false) (ht : t.sw.pendingPktValid = true) :
    ∃ skipped key st later, Found env cdn t skipped key st later := by
  induction turns generalizing i s cdn with
  | zero =>
      cases h
      rw [hs] at ht
      cases ht
  | succ turns ih =>
      unfold searchCdn at h
      rw [hcdn] at h
      dsimp only at h
      rcases avReadFrame_cases cdn with hneg | ⟨tmp, rest, hframes, hread⟩
      · rw [if_pos hneg] at h
        cases h
        have hvalid : s.sw.pendingPktValid = true := ht
        rw [hs] at hvalid
        cases hvalid
      rw [hread, if_neg (by decide : ¬(0 : Int) < 0)] at h
      obtain ⟨st, hst, h⟩ := Option.bind_eq_some_iff.mp h
      split at h
      · next hother =>
          obtain ⟨skipped, key, keySt, later, hfound⟩ := ih h rfl hs
          refine ⟨_, key, keySt, later, hfound.skip hframes fun _ => ?_⟩
          have hst' : atIndex cdn.streams tmp.streamIndex = some st := hst
          simp [videoKeyframe, hst', hother]
      next hvideo =>
      have hst' : atIndex cdn.streams tmp.streamIndex = some st := hst
      obtain ⟨yes, hyes, h⟩ := Option.bind_eq_some_iff.mp h
      split at h
      · next hsuitable =>
          subst hsuitable
          split at h
          · cases h
            exact ⟨[], tmp, st, rest, hframes, hst, Decidable.not_not.mp hvideo, hyes,
              fun _ _ hmem => absurd hmem (by simp), rfl, rfl, rfl, rfl, rfl⟩
          · next href =>
              obtain ⟨skipped, key, keySt, later, hfound⟩ := ih h rfl hs
              refine ⟨_, key, keySt, later, hfound.skip hframes fun hrefs => ?_⟩
              exact absurd (hrefs i) href
      · next hunsuitable =>
          obtain ⟨skipped, key, keySt, later, hfound⟩ := ih h rfl hs
          refine ⟨_, key, keySt, later, hfound.skip hframes fun _ => ?_⟩
          simp [videoKeyframe, hst', hyes, hunsuitable]

theorem createCdnStreams_zero (hactive : s.cdnActive = false) (h : (createCdnStreams env s).1 = 0) :
    ∃ cdn, env.avformatOpenInput = .opened (some cdn) ∧
      ¬(addStreams env cdn.streams 0 { s with cdnFmtCtx := some cdn }).1 < 0 ∧
      (createCdnStreams env s).2 = (addStreams env cdn.streams 0 { s with cdnFmtCtx := some cdn }).2 := by
  unfold createCdnStreams at h ⊢
  split at h
  · next hboth =>
      rw [hactive] at hboth
      exact absurd hboth.2 (by decide)
  next hclosed =>
  rw [if_neg hclosed]
  split at h
  · cases h
  next hformat =>
  rw [if_neg hformat]
  split at h
  · cases h
  next hurl =>
  rw [if_neg hurl]
  cases hopen : env.avformatOpenInput with
  | failed code =>
      rw [hopen] at h
      dsimp only at h
      omega
  | opened cdn =>
      rw [hopen] at h
      cases cdn with
      | none => cases h
      | some cdn =>
          dsimp only at h ⊢
          split at h
          · next hneg =>
              dsimp only at h
              omega
          next hinfo =>
          rw [if_neg hinfo]
          split at h
          · next hneg =>
              dsimp only at h
              omega
          · next hadded =>
              rw [if_neg hadded]
              exact ⟨cdn, rfl, hadded, rfl⟩

theorem mem_of_atIndex (h : atIndex l i = some a) : a ∈ l := by
  unfold atIndex at h
  split at h
  · exact List.mem_of_getElem? h
  · cases h

theorem prepared_playing (h : tryPrepareSwitchToCdn build env s = some (ret, t))
    (hcdn : s.cdnFmtCtx = some cdn) (hindexed : Indexed s) (hs : s.sw.pendingPktValid = false)
    (hready : s.p2pConnectReady = false)
    (hvideo : ∀ src ∈ cdn.streams, src.codecType = .video → 0 ≤ s.cdnVideoStreamIndex)
    (ht : t.sw.pendingPktValid = true) :
    ret = 0 ∧ Playing { t with cdnActive := true, sw := { t.sw with activeSource := .cdn } } ∧
      ∃ skipped key st later, Found env cdn
        { t with cdnActive := true, sw := { t.sw with activeSource := .cdn } } skipped key st later := by
  unfold tryPrepareSwitchToCdn at h
  rw [if_neg (by simp [hcdn]), if_neg (by simp [hs])] at h
  obtain ⟨u, hu, h⟩ := Option.map_eq_some_iff.mp h
  cases h
  obtain ⟨skipped, key, st, later, hfound⟩ := searchCdn_found hu hcdn hs ht
  have houtput : 0 ≤ s.outputVideoStreamIndex := by
    rw [← hindexed.same]
    exact hvideo st (mem_of_atIndex hfound.stream) hfound.video
  have hrange : s.outputVideoStreamIndex < s.streams.length := by
    rcases hindexed.video with hnone | hrange
    · omega
    · exact hrange.2
  obtain ⟨dstTb, hdst⟩ : ∃ dstTb, atIndex s.streams s.outputVideoStreamIndex = some dstTb := by
    unfold atIndex
    rw [if_pos houtput]
    exact ⟨_, List.getElem?_eq_getElem (by omega)⟩
  cases searchCdn_search hu with
  | nothing still _ =>
      rw [still.valid, hs] at ht
      cases ht
  | @found w taken still mem source_eq suitable =>
      have hsame := still.output (by omega)
      refine ⟨by simp [hold], ?_, skipped, key, st, later, ?_⟩
      · refine ⟨rfl, rfl, still.ready.trans hready, ?_, ⟨dstTb, ?_⟩, ?_, fun _ => ⟨rfl, rfl⟩⟩
        · change w.cdnVideoStreamIndex = w.outputVideoStreamIndex
          rw [still.video, hsame]
          exact hindexed.same
        · change atIndex w.streams w.outputVideoStreamIndex = some dstTb
          rw [still.streams, hsame]
          exact hdst
        · change w.outputAudioStreamIndex ≠ w.outputVideoStreamIndex
          rw [still.audio, hsame]
          exact hindexed.apart houtput
      · exact ⟨hfound.frames, hfound.stream, hfound.video, hfound.suitable, hfound.first, hfound.rest,
          hfound.pkt, hfound.srcTb, hfound.target, hfound.index⟩

theorem header_playing {signaling : Int} {room url : Option String} {ctx s : P2PRtpDemuxContext}
    (h : p2pRtpReadHeader build env signaling room url ctx = some (0, s))
    (hready : ctx.p2pConnectReady = false) (hkey : s.sw.pendingPktValid = true) :
    Playing s ∧ ∃ cdn skipped key st later,
      env.avformatOpenInput = .opened (some cdn) ∧ Found env cdn s skipped key st later := by
  unfold p2pRtpReadHeader at h
  dsimp only at h
  split at h
  · obtain ⟨-, rfl⟩ := Prod.mk.inj (Option.some.inj h)
    cases hkey
  obtain ⟨t, ht, h⟩ := Option.map_eq_some_iff.mp h
  cases h
  unfold openCdn at ht
  dsimp only at ht
  generalize hinit : { (p2pRtpDemuxInit signaling room env ctx).2 with cdnUrl := url } = start at ht
  have hindexed : Indexed start := by
    rw [← hinit]
    exact ⟨rfl, .inl rfl, .inl rfl, fun hge => absurd hge (by decide : ¬(0 : Int) ≤ -1)⟩
  have hstart : start.cdnActive = false ∧ start.p2pConnectReady = false ∧
      start.sw.pendingPktValid = false ∧ start.sw.pendingSwitch = .none := by
    rw [← hinit]
    exact ⟨rfl, hready, rfl, rfl⟩
  obtain ⟨hactive, hstartReady, hvalid, hswitch⟩ := hstart
  have hleaves := createCdnStreams_opening env start
  split at ht
  · next hzero =>
      obtain ⟨cdn, hopened, hadded, hcreated⟩ := createCdnStreams_zero hactive hzero
      obtain ⟨⟨ret, u⟩, hu, rfl⟩ := Option.map_eq_some_iff.mp ht
      have hindexed' : Indexed (createCdnStreams env start).2 := by
        rw [hcreated]
        exact Indexed.addStreams (s := { start with cdnFmtCtx := some cdn })
          ⟨hindexed.same, hindexed.video, hindexed.audio, hindexed.apart⟩ env cdn.streams 0
      have hcdn : (createCdnStreams env start).2.cdnFmtCtx = some cdn := by
        rw [hcreated, addStreams_cdnFmtCtx]
      have hvideo : ∀ src ∈ cdn.streams, src.codecType = .video →
          0 ≤ (createCdnStreams env start).2.cdnVideoStreamIndex := by
        intro src hmem htype
        rw [hcreated]
        exact addStreams_video hadded (.inl ⟨src, hmem, htype⟩)
      have hvalid' := congrArg P2PRtpDemuxSwitchState.pendingPktValid hleaves.sw
      have hready' := hleaves.ready.trans hstartReady
      rw [hvalid] at hvalid'
      generalize (createCdnStreams env start).2 = c at hu hindexed' hcdn hvideo hvalid' hready'
      obtain ⟨hret, hplaying, hfound⟩ := prepared_playing hu hcdn hindexed' hvalid' hready' hvideo (by
        dsimp only at hkey
        split at hkey <;> exact hkey)
      dsimp only
      rw [if_pos hret]
      exact ⟨hplaying, cdn, hfound.elim fun skipped ⟨key, st, later, hf⟩ =>
        ⟨skipped, key, st, later, hopened, hf⟩⟩
  · cases ht
    have hunheld : (createCdnStreams env start).2.sw.pendingPktValid = true := hkey
    rw [hleaves.sw, hvalid] at hunheld
    cases hunheld

/-- The video packets returned, with those held and still to come, are the header's
keyframe and all the later ones in their order, exactly when the keyframe is handed
out and no video packet is read before a flagged one has been. -/
theorem playback_complete_iff {build : Build} {env : Env} {signaling : Int}
    {room url : Option String} {ctx s₀ : P2PRtpDemuxContext}
    (hheader : p2pRtpReadHeader build env signaling room url ctx = some (0, s₀))
    (hready : ctx.p2pConnectReady = false) (hkey : s₀.sw.pendingPktValid = true)
    {x : P2PRtpDemuxContext × List AVPacket} {ls : List DemuxLabel}
    (hrun : (playback build).Run (s₀, []) ls x) :
    ∃ cdn skipped key st later dstTb, env.avformatOpenInput = .opened (some cdn) ∧
      Found env cdn s₀ skipped key st later ∧
      atIndex s₀.streams s₀.outputVideoStreamIndex = some dstTb ∧
      (x.2 ++ (held x.1 ++ coming x.1) =
          onto key st.timeBase dstTb s₀.outputVideoStreamIndex ::
            later.filterMap (asVideo s₀ cdn.streams) ↔
        ((playback build).restrict LosesNone).Run (s₀, []) ls x) := by
  obtain ⟨hplaying, cdn, skipped, key, st, later, hopened, hfound⟩ :=
    header_playing hheader hready hkey
  obtain ⟨dstTb, hdst⟩ := hplaying.output
  refine ⟨cdn, skipped, key, st, later, dstTb, hopened, hfound, hdst, ?_⟩
  have hstart : held s₀ ++ coming s₀ = onto key st.timeBase dstTb s₀.outputVideoStreamIndex ::
      later.filterMap (asVideo s₀ cdn.streams) := by
    rw [held_of hkey (by rw [hfound.index, hdst]), hfound.index, hfound.pkt, hfound.srcTb,
      coming_of hfound.rest rfl rfl]
    rfl
  obtain ⟨_, hcarries⟩ := playback_carries hrun hplaying
  rw [← hstart]
  constructor
  · intro heq
    by_contra hnot
    exact absurd (congrArg List.length heq) (Nat.ne_of_lt (hcarries.lost hnot))
  · exact hcarries.all

def threeCalls : List DemuxLabel :=
  [.readPacket (playEnv []), .readPacket (playEnv []), .readPacket (playEnv [])]

/-- Behind the keyframe comes a flagged packet, and everything is returned. -/
theorem playback_complete_flagged : ∃ s₀ x,
    headerRead [.packet (interframe 1), .packet (keyframe 2), .packet (keyframe 3),
      .packet (interframe 4)] = some (0, s₀) ∧
    x.2 = [keyframe 2, keyframe 3, interframe 4] ∧
    ((playback playBuild).restrict LosesNone).Run (s₀, []) threeCalls x := by
  have hview : ((headerRead [.packet (interframe 1), .packet (keyframe 2), .packet (keyframe 3),
        .packet (interframe 4)]).bind fun r =>
      ((playback playBuild).run threeCalls (r.2, [])).map fun x =>
        (r.1, r.2.sw.pendingPktValid, x.2, held x.1 ++ coming x.1)) =
      some (0, true, [keyframe 2, keyframe 3, interframe 4], []) := by
    decide +kernel
  have hstate : ((headerRead [.packet (interframe 1), .packet (keyframe 2), .packet (keyframe 3),
        .packet (interframe 4)]).map fun r =>
      (r.2.sw.pendingPkt, r.2.sw.pendingPktSrcTb, r.2.outputVideoStreamIndex, r.2.streams, r.2.cdnFmtCtx)) =
      some (keyframe 2, ⟨1, 90000⟩, 0, [⟨1, 90000⟩],
        some (playing [.packet (keyframe 3), .packet (interframe 4)])) := by
    decide +kernel
  obtain ⟨⟨ret, s₀⟩, hheader, hview⟩ := Option.bind_eq_some_iff.mp hview
  obtain ⟨x, hrun, heq⟩ := Option.map_eq_some_iff.mp hview
  simp only [Prod.mk.injEq] at heq
  obtain ⟨rfl, hvalid, hreturned, hrest⟩ := heq
  rw [hheader, Option.map_some, Option.some.injEq] at hstate
  simp only [Prod.mk.injEq] at hstate
  obtain ⟨hpkt, hsrcTb, houtput, hstreams, hcdn⟩ := hstate
  refine ⟨s₀, x, hheader, hreturned, ?_⟩
  obtain ⟨cdn, skipped, key, st, later, dstTb, hopened, hfound, hdst, hiff⟩ :=
    playback_complete_iff hheader rfl hvalid (System.Run.of_run hrun)
  refine hiff.mp ?_
  obtain rfl : playing _ = cdn := Option.some.inj (Opening.opened.inj hopened)
  have hlater : later = [.packet (keyframe 3), .packet (interframe 4)] :=
    congrArg AVFormatContext.frames (Option.some.inj (hfound.rest.symm.trans hcdn))
  subst hlater
  rw [houtput, hstreams] at hdst
  obtain rfl : (⟨1, 90000⟩ : AVRational) = dstTb := Option.some.inj hdst
  rw [hreturned, hrest, ← hfound.pkt, ← hfound.srcTb, hpkt, hsrcTb, houtput]
  simp only [List.filterMap_cons, List.filterMap_nil, asVideo, hstreams, houtput]
  rfl

/-- The packet behind the header's keyframe is not flagged, and is never returned. -/
theorem second_video_packet_dropped : ∃ s₀ x,
    headerRead [.packet (keyframe 2), .packet (interframe 3), .packet (keyframe 4)] = some (0, s₀) ∧
    (playback playBuild).Run (s₀, []) threeCalls x ∧
    held s₀ ++ coming s₀ = [keyframe 2, interframe 3, keyframe 4] ∧
    x.2 = [keyframe 2, keyframe 4] ∧ held x.1 ++ coming x.1 = [] := by
  have hview : ((headerRead [.packet (keyframe 2), .packet (interframe 3),
        .packet (keyframe 4)]).bind fun r =>
      ((playback playBuild).run threeCalls (r.2, [])).map fun x =>
        (r.1, held r.2 ++ coming r.2, x.2, held x.1 ++ coming x.1)) =
      some (0, [keyframe 2, interframe 3, keyframe 4], [keyframe 2, keyframe 4], []) := by
    decide +kernel
  obtain ⟨⟨ret, s₀⟩, hheader, hview⟩ := Option.bind_eq_some_iff.mp hview
  obtain ⟨x, hrun, heq⟩ := Option.map_eq_some_iff.mp hview
  simp only [Prod.mk.injEq] at heq
  obtain ⟨rfl, hstart, hreturned, hrest⟩ := heq
  exact ⟨s₀, x, hheader, System.Run.of_run hrun, hstart, hreturned, hrest⟩

end P2PFFmpeg.Demux
