import P2PFFmpeg.Demux.Switching

namespace P2PFFmpeg.Demux

open Util Library.Transition

/-- One call of the reader: the packet that the branch of the active source read,
as the branch hands it on, the keyframe handed out by a switch, and the packet
that the caller was given. -/
structure Reading where
  obtained : Option AVPacket
  switched : List AVPacket
  returned : Option AVPacket
deriving DecidableEq, Repr

def obtainedFrom (s : P2PRtpDemuxContext) (pkt : AVPacket) : Option AVPacket :=
  match s.sw.activeSource with
  | .none => none
  | .cdn => (readOneFromCdn s pkt).bind fun (ret, pkt, _) => if 0 ≤ ret then some pkt else none
  | .p2p => (readOneFromP2p s pkt (-1) ⟨1, 1⟩).bind fun r =>
      if 0 ≤ r.ret then (atIndex r.ctx.streams r.outputStreamIndex).map fun dstTb =>
        onto r.pkt r.srcTb dstTb r.outputStreamIndex
      else none

def obtained (build : Build) (env : Env) (s : P2PRtpDemuxContext) : Option AVPacket :=
  (commitPendingSwitchIfReady build env env.refCommit s .blank).bind fun (committed, pkt, s) =>
    if committed = 1 then none else obtainedFrom s pkt

def observe (build : Build) (s : P2PRtpDemuxContext) : DemuxLabel → List Reading
  | .background _ _ _ => []
  | .readPacket env => (p2pRtpReadPacket build env s .blank).toList.map fun (ret, pkt, t) =>
      { obtained := obtained build env s
        switched := t.commits.drop s.commits.length
        returned := if 0 ≤ ret then some pkt else none }

/-- Every packet read from the active source is returned by the same call, and
nothing else is returned but the keyframes of the switches. -/
structure NoneLost (history : List Reading) : Prop where
  returned : ∀ call ∈ history, ∀ pkt, call.obtained = some pkt → call.returned = some pkt
  once : history.flatMap (·.returned.toList) =
    history.flatMap fun call => call.switched ++ call.obtained.toList

def cdnDelivers (s : P2PRtpDemuxContext) : Bool :=
  match s.cdnFmtCtx with
  | none => false
  | some cdn => match cdn.frames with
    | .packet pkt :: _ => match atIndex cdn.streams pkt.streamIndex with
      | some st => s.passes st pkt
      | none => false
    | _ => false

def suitable (streams : List AVStream) (pkt : AVPacket) : Bool :=
  match atIndex streams pkt.streamIndex with
  | some st => hasKeyframeInfo st pkt = some true
  | none => false

/-- A keyframe comes within the turns of a search and before an error, and a
reference to it can be made. -/
def keyframeAhead (env : Env) (streams : List AVStream) : Nat → Nat → List Frame → Bool
  | turns + 1, i, .packet pkt :: rest =>
      suitable streams pkt && env.refPending i || keyframeAhead env streams turns (i + 1) rest
  | _, _, _ => false

def p2pOffers (build : Build) (env : Env) (s : P2PRtpDemuxContext) : Bool :=
  match s.rtpCtx with
  | none => false
  | some rtp => keyframeAhead env rtp.streams build.p2pDefaultVideoGop 0 rtp.frames

/-- The source whose branch the call takes. -/
def branchSource (s : P2PRtpDemuxContext) : ActiveSource :=
  if s.sw.pendingPktValid then s.sw.pendingSwitch.source s.sw.activeSource else s.sw.activeSource

structure Overwrites (build : Build) (env : Env) (s : P2PRtpDemuxContext) : Prop where
  goesOn : ¬(s.sw.pendingPktValid = true ∧ env.refCommit = true)
  cdn : branchSource s = .cdn
  delivers : cdnDelivers s = true
  ready : s.p2pConnectReady = true
  selected : s.selectedNode.isSome = true
  offers : p2pOffers build env s = true

def NeverOverwrites (build : Build) (x : P2PRtpDemuxContext × List Reading) : DemuxLabel → Prop
  | .background _ _ _ => True
  | .readPacket env => ¬Overwrites build env x.1

variable {build : Build} {env : Env} {s t : P2PRtpDemuxContext} {out pkt : AVPacket} {ret : Int}

theorem CdnReads.delivers (h : CdnReads s out ret pkt t) (hret : 0 ≤ ret) : cdnDelivers s = true := by
  cases h with
  | closed | dropped => exact absurd hret (by decide)
  | failed _ failed => omega
  | packet playing frames stream passes _ =>
      unfold cdnDelivers
      rw [playing]
      simp only [frames, stream, passes]

theorem searchP2p_offers {turns i : Nat} {rtp : AVFormatContext} (h : searchP2p env turns i s = some t)
    (hrtp : s.rtpCtx = some rtp) (hs : s.sw.pendingPktValid = false) (ht : t.sw.pendingPktValid = true) :
    keyframeAhead env rtp.streams turns i rtp.frames = true := by
  induction turns generalizing i s rtp with
  | zero =>
      cases h
      rw [hs] at ht
      cases ht
  | succ turns ih =>
      obtain ⟨r, hr, h⟩ := Option.bind_eq_some_iff.mp h
      have hreads := readOneFromP2p_cases hr
      have hvalid := hreads.still.1.valid.trans hs
      cases hreads with
      | closed =>
          cases h
          rw [hvalid] at ht
          cases ht
      | failed _ failed =>
          rw [if_pos failed] at h
          cases h
          rw [hvalid] at ht
          cases ht
      | @packet before pkt rest st playing frames stream =>
          obtain rfl : rtp = before := Option.some.inj (hrtp.symm.trans playing)
          rw [if_neg (by decide : ¬(0 : Int) < 0)] at h
          have hafter := rtpCtx_setRtp playing { rtp with frames := rest }
          obtain ⟨node, hnode, htrack⟩ := Option.bind_eq_some_iff.mp hafter
          obtain ⟨track, htrack, htrackRtp⟩ := Option.bind_eq_some_iff.mp htrack
          simp only [take_selectedNode, hnode, htrack, htrackRtp, stream, Option.bind_some] at h
          obtain ⟨yes, hyes, h⟩ := Option.bind_eq_some_iff.mp h
          rw [frames, keyframeAhead, Bool.or_eq_true, Bool.and_eq_true]
          split at h
          · next hsuitable =>
              subst hsuitable
              split at h
              · next href => exact .inl ⟨by simp [suitable, stream, hyes], href⟩
              · exact .inr (ih h hafter hvalid)
          · exact .inr (ih h hafter hvalid)

theorem tryPrepareSwitchToP2p_offers (h : tryPrepareSwitchToP2p build env s = some (ret, t))
    (hs : s.sw.pendingPktValid = false) (ht : t.sw.pendingPktValid = true) :
    p2pOffers build env s = true := by
  unfold tryPrepareSwitchToP2p at h
  split at h
  · cases h
    rw [hs] at ht
    cases ht
  split at h
  · cases h
    rw [hs] at ht
    cases ht
  obtain ⟨u, hu, h⟩ := Option.map_eq_some_iff.mp h
  cases h
  unfold p2pOffers
  cases hrtp : s.rtpCtx with
  | none =>
      -- With no inner demuxer the first turn ends the search.
      cases hgop : build.p2pDefaultVideoGop with
      | zero =>
          rw [hgop] at hu
          cases hu
          rw [hs] at ht
          cases ht
      | succ turns =>
          rw [hgop] at hu
          obtain ⟨r, hr, hu⟩ := Option.bind_eq_some_iff.mp hu
          cases readOneFromP2p_cases hr with
          | closed =>
              cases hu
              rw [hs] at ht
              cases ht
          | failed playing | packet playing =>
              rw [hrtp] at playing
              cases playing
  | some rtp => exact searchP2p_offers hu hrtp hs ht

theorem tryPrepareSwitchToP2p_ret (h : tryPrepareSwitchToP2p build env s = some (ret, t)) : ret ≤ 0 := by
  unfold tryPrepareSwitchToP2p at h
  split at h
  · cases h
    decide
  split at h
  · cases h
    decide
  obtain ⟨u, _, h⟩ := Option.map_eq_some_iff.mp h
  obtain ⟨rfl, -⟩ := Prod.mk.inj h
  split
  · exact Int.le_refl 0
  · decide

def given (ret : Int) (pkt : AVPacket) : Option AVPacket := if 0 ≤ ret then some pkt else none

theorem given_neg (h : ret < 0) (pkt : AVPacket) : given ret pkt = none :=
  if_neg (Int.not_le.mpr h)

theorem given_zero (pkt : AVPacket) : given 0 pkt = some pkt := if_pos (Int.le_refl 0)

/-- The caller is given the keyframe of a switch or the packet read, never one of
two. -/
def Hands (s : P2PRtpDemuxContext) (read : Option AVPacket) (ret : Int) (pkt : AVPacket)
    (t : P2PRtpDemuxContext) : Prop :=
  ∃ new, t.commits = s.commits ++ new ∧ (given ret pkt).toList = new ++ read.toList

theorem Hands.still {s u t : P2PRtpDemuxContext} {read : Option AVPacket} (h : Hands u read ret pkt t)
    (hs : u.commits = s.commits) : Hands s read ret pkt t := by
  unfold Hands at h ⊢
  rwa [hs] at h

theorem commit_hands {ret committed : Int} (hret : ret < 0)
    (h : commitPendingSwitchIfReady build env env.refCommitAgain s out = some (committed, pkt, t)) :
    Hands s none (if committed = 1 then 0 else ret) pkt t := by
  cases commit_cases h with
  | idle unheld =>
      refine ⟨[], by simp, ?_⟩
      rw [if_neg (by decide), given_neg hret]
      rfl
  | lost held failed switched commits =>
      refine ⟨[], by simpa using commits, ?_⟩
      rw [if_neg (by decide), given_neg hret]
      rfl
  | handed dstTb held dst done switched commits =>
      refine ⟨_, commits, ?_⟩
      rw [if_pos rfl, given_zero]
      rfl

theorem readIdle_hands (h : readIdle build env s out = some (ret, pkt, t)) : Hands s none ret pkt t := by
  unfold readIdle at h
  split at h
  · obtain ⟨⟨prepared, u⟩, hu, h⟩ := Option.map_eq_some_iff.mp h
    have hle := tryPrepareSwitchToP2p_ret hu
    have hcommits : u.commits = s.commits := by
      cases tryPrepareSwitchToP2p_search hu with
      | nothing still _ => exact still.commits
      | found taken still _ _ _ => exact still.commits
    dsimp only at h
    rw [if_neg (by omega)] at h
    cases h
    exact ⟨[], by simp [hcommits], rfl⟩
  · cases h
    exact ⟨[], by simp, rfl⟩

theorem Search.commits {source : ActiveSource} {target : SwitchTarget} (h : Search source target s t) :
    t.commits = s.commits := by
  cases h with
  | nothing still _ => exact still.commits
  | found taken still _ _ _ => exact still.commits

theorem CdnReads.overwrites {s u v : P2PRtpDemuxContext} {read prepared : Int}
    (h : CdnReads s out read pkt u) (hread : 0 ≤ read)
    (hboth : u.p2pConnectReady = true ∧ u.selectedNode.isSome = true)
    (hprepare : tryPrepareSwitchToP2p build env { u with sw := { u.sw with pendingSwitch := .toP2p } } =
      some (prepared, v)) (hv : s.sw.pendingPktValid = false) (hvalid : v.sw.pendingPktValid = true) :
    cdnDelivers s = true ∧ s.p2pConnectReady = true ∧ s.selectedNode.isSome = true ∧
      p2pOffers build env s = true := by
  obtain ⟨hstill, _, hselected, _⟩ := h.still
  have hoffers := tryPrepareSwitchToP2p_offers hprepare (hstill.valid.trans hv) hvalid
  refine ⟨h.delivers hread, ?_, ?_, ?_⟩
  · rw [← hstill.ready]
    exact hboth.1
  · rw [← hselected]
    exact hboth.2
  · unfold p2pOffers P2PRtpDemuxContext.rtpCtx at hoffers ⊢
    rw [← hselected]
    exact hoffers

theorem readCdn_hands (h : readCdn build env s out = some (ret, pkt, t))
    (hactive : s.sw.activeSource = .cdn) (hv : s.sw.pendingPktValid = false)
    (hc : ¬(cdnDelivers s = true ∧ s.p2pConnectReady = true ∧ s.selectedNode.isSome = true ∧
      p2pOffers build env s = true)) : Hands s (obtainedFrom s out) ret pkt t := by
  obtain ⟨⟨read, kept, u⟩, hu, h⟩ := Option.bind_eq_some_iff.mp h
  have hreads := readOneFromCdn_cases hu
  obtain ⟨hstill, _, hselected, hle⟩ := hreads.still
  have hobtained : obtainedFrom s out = given read kept := by
    simp only [obtainedFrom, hactive, hu, Option.bind_some, given]
  rw [hobtained]
  dsimp only at h
  split at h
  · next hboth =>
      obtain ⟨⟨_, v⟩, hprepare, h⟩ := Option.bind_eq_some_iff.mp h
      obtain ⟨⟨committed, packet, w⟩, hcommit, h⟩ := Option.map_eq_some_iff.mp h
      have hcommits : v.commits = s.commits :=
        (tryPrepareSwitchToP2p_search hprepare).commits.trans hstill.commits
      have hgiven : (if committed = 1 then 0 else read) = ret ∧ packet = pkt ∧ w = t := by
        dsimp only at h
        split at h
        · cases h
          simp_all
        · cases h
          simp_all
      obtain ⟨rfl, rfl, rfl⟩ := hgiven
      rcases Int.lt_or_le read 0 with hneg | hread
      · rw [given_neg hneg]
        exact (commit_hands hneg hcommit).still hcommits
      · -- A packet was read, so the search has found nothing.
        have hunheld : v.sw.pendingPktValid = false := by
          by_contra hvalid
          rw [Bool.not_eq_false] at hvalid
          exact hc (hreads.overwrites hread hboth hprepare hv hvalid)
        cases commit_cases hcommit with
        | idle unheld =>
            refine ⟨[], by simp [hcommits], ?_⟩
            rw [if_neg (by decide)]
            rfl
        | lost held _ _ _ | handed _ held _ _ _ _ =>
            rw [hunheld] at held
            cases held
  · cases h
    exact ⟨[], by simp [hstill.commits], rfl⟩

theorem fallBack_hands {read ret : Int} (h : fallBack build env s out read = some (ret, pkt, t))
    (hneg : read < 0) : Hands s none ret pkt t := by
  unfold fallBack at h
  dsimp only at h
  generalize hu : (if s.cdnFmtCtx.isNone = true ∧ s.cdnUrl.isSome = true then
    (createCdnStreams env { s with sw := { s.sw with pendingSwitch := .toCdn } }).2
    else { s with sw := { s.sw with pendingSwitch := .toCdn } }) = u at h
  have hcommits : u.commits = s.commits := by
    rw [← hu]
    split
    · exact (createCdnStreams_opening _ _).commits
    · rfl
  split at h
  · obtain ⟨⟨_, v⟩, hprepare, h⟩ := Option.bind_eq_some_iff.mp h
    obtain ⟨⟨committed, packet, w⟩, hcommit, h⟩ := Option.map_eq_some_iff.mp h
    have hhands := (commit_hands hneg hcommit).still
      ((tryPrepareSwitchToCdn_search hprepare).commits.trans hcommits)
    dsimp only at h
    split at h
    · next hone =>
        cases h
        rwa [if_pos hone] at hhands
    · next hone =>
        cases h
        rwa [if_neg hone] at hhands
  · cases h
    exact ⟨[], by simp [hcommits], by rw [given_neg hneg]; rfl⟩

theorem readP2p_hands (h : readP2p build env s out = some (ret, pkt, t))
    (hactive : s.sw.activeSource = .p2p) : Hands s (obtainedFrom s out) ret pkt t := by
  obtain ⟨r, hr, h⟩ := Option.bind_eq_some_iff.mp h
  obtain ⟨hstill, _⟩ := (readOneFromP2p_cases hr).still
  simp only [obtainedFrom, hactive, hr, Option.bind_some]
  split at h
  · next hret =>
      obtain ⟨dst, hdst, h⟩ := Option.map_eq_some_iff.mp h
      cases h
      refine ⟨[], by simp [hstill.commits], ?_⟩
      rw [if_pos hret, hdst, given_zero]
      rfl
  next hret =>
  have hneg : r.ret < 0 := Int.not_le.mp hret
  rw [if_neg hret]
  dsimp only at h
  split at h
  · exact (fallBack_hands h hneg).still hstill.commits
  · cases h
    exact ⟨[], by simp [hstill.commits], by rw [given_neg hneg]; rfl⟩

theorem Commit.goesOn {avPacketRef : Bool} (h : Commit avPacketRef s out ret pkt t) (hret : ret ≠ 1) :
    t.sw.pendingPktValid = false ∧ t.commits = s.commits ∧
      ¬(s.sw.pendingPktValid = true ∧ avPacketRef = true) ∧ t.sw.activeSource = branchSource s := by
  cases h with
  | idle unheld => exact ⟨unheld, rfl, by simp [unheld], by simp [branchSource, unheld]⟩
  | lost held failed switched commits =>
      exact ⟨switched.valid, commits, by simp [failed], by simp [branchSource, held, switched.active]⟩
  | handed => exact absurd rfl hret

theorem readPacket_hands (h : p2pRtpReadPacket build env s .blank = some (ret, pkt, t))
    (hc : ¬Overwrites build env s) : Hands s (obtained build env s) ret pkt t := by
  obtain ⟨⟨committed, out, u⟩, hu, h⟩ := Option.bind_eq_some_iff.mp h
  simp only [obtained, hu, Option.bind_some]
  dsimp only at h
  split at h
  · next hone =>
      cases h
      rw [if_pos hone]
      cases commit_cases hu with
      | idle | lost => cases hone
      | handed dstTb held dst done switched commits =>
          exact ⟨_, commits, by rw [given_zero]; rfl⟩
  next hone =>
  rw [if_neg hone]
  obtain ⟨hvalid, hcommits, hgoes, hbranch⟩ := (commit_cases hu).goesOn hone
  have hhands : Hands u (obtainedFrom u out) ret pkt t := by
    split at h
    · next hactive =>
        simp only [obtainedFrom, hactive]
        exact readIdle_hands h
    · next hactive =>
        refine readCdn_hands h hactive hvalid ?_
        rintro ⟨hdelivers, hready, hselected, hoffers⟩
        obtain ⟨sw, active, commits, _, rfl⟩ := commit_cdn hu hactive
        exact hc ⟨hgoes, hbranch.symm.trans hactive, hdelivers, hready, hselected, hoffers⟩
    · next hactive => exact readP2p_hands h hactive
  exact hhands.still hcommits

/-- A call that is no loss: one packet at most is returned, and a packet that was
read is it. -/
theorem call_conserves {x : P2PRtpDemuxContext × List Reading} {l : DemuxLabel} {call : Reading}
    (hc : NeverOverwrites build x l) (h : call ∈ observe build x.1 l) :
    call.returned.toList = call.switched ++ call.obtained.toList := by
  cases l with
  | background node added ready => cases h
  | readPacket env =>
      obtain ⟨⟨ret, pkt, t⟩, hcall, rfl⟩ := List.mem_map.mp h
      obtain ⟨new, hnew, hgiven⟩ := readPacket_hands (Option.mem_toList.mp hcall) hc
      dsimp only
      rw [hnew, List.drop_left]
      exact hgiven

theorem noneLost_of_calls {history : List Reading}
    (h : ∀ call ∈ history, call.returned.toList = call.switched ++ call.obtained.toList) :
    NoneLost history where
  returned call hcall pkt hpkt := by
    have honce := h call hcall
    have hlength := congrArg List.length honce
    have hle : call.returned.toList.length ≤ 1 := by cases call.returned <;> simp
    rw [hpkt, Option.toList_some] at honce hlength
    simp only [List.length_append, List.length_singleton] at hlength
    have hswitched : call.switched = [] := List.length_eq_zero_iff.mp (by omega)
    rw [hswitched, List.nil_append] at honce
    cases hreturned : call.returned with
    | none =>
        rw [hreturned] at honce
        cases honce
    | some out =>
        rw [hreturned] at honce
        cases honce
        rfl
  once := List.flatMap_congr h

/-- In a run whose calls never overwrite, every packet read from the active source
is returned once. -/
theorem packets_conserved (build : Build) {s : P2PRtpDemuxContext} {history : List Reading}
    (h : (((demuxer build).observed (observe build)).restrict (NeverOverwrites build)).Reachable
      (s, history)) : NoneLost history := by
  refine noneLost_of_calls ?_
  refine System.Reachable.invariant (fun x => ∀ call ∈ x.2,
    call.returned.toList = call.switched ++ call.obtained.toList) ?_ ?_ h
  · rintro ⟨s, history⟩ ⟨_, hhistory⟩
    simp only at hhistory
    subst hhistory
    simp
  · rintro ⟨s, history⟩ l ⟨t, history'⟩ _ hcalls hnext
    obtain ⟨hc, hstep⟩ := System.restrict_next.mp hnext
    obtain ⟨_, hhistory⟩ := System.observed_next.mp hstep
    simp only at hhistory hcalls
    subst hhistory
    intro call hmem
    rcases List.mem_append.mp hmem with hmem | hmem
    · exact hcalls call hmem
    · exact call_conserves hc hmem

instance (build : Build) (env : Env) (s : P2PRtpDemuxContext) : Decidable (Overwrites build env s) :=
  decidable_of_iff (¬(s.sw.pendingPktValid = true ∧ env.refCommit = true) ∧ branchSource s = .cdn ∧
      cdnDelivers s = true ∧ s.p2pConnectReady = true ∧ s.selectedNode.isSome = true ∧
      p2pOffers build env s = true)
    ⟨fun ⟨a, b, c, d, e, f⟩ => ⟨a, b, c, d, e, f⟩, fun ⟨a, b, c, d, e, f⟩ => ⟨a, b, c, d, e, f⟩⟩

def neverOverwritesCheck (build : Build) (x : P2PRtpDemuxContext × List Reading) :
    DemuxLabel → Bool
  | .background _ _ _ => true
  | .readPacket env => !decide (Overwrites build env x.1)

theorem neverOverwrites_of_check (build : Build) (x : P2PRtpDemuxContext × List Reading)
    (l : DemuxLabel) (h : neverOverwritesCheck build x l = true) : NeverOverwrites build x l := by
  cases l with
  | background node added ready => trivial
  | readPacket env =>
      simp only [neverOverwritesCheck, Bool.not_eq_true', decide_eq_false_iff_not] at h
      exact h

/-- The peer takes over in a call in which the CDN has nothing to read. -/
theorem packets_conserved_switch : ∃ s history,
    (((demuxer playBuild).observed (observe playBuild)).restrict
      (NeverOverwrites playBuild)).Reachable (s, history) ∧
    s.sw.activeSource = .p2p ∧ NoneLost history := by
  have hview : ((headerRead [.packet (keyframe 1), .packet (keyframe 2)]).bind fun r =>
      ((((demuxer playBuild).observed (observe playBuild)).guard (neverOverwritesCheck playBuild)).run
        [.readPacket (playEnv []), .readPacket (playEnv []),
          .background (some (peerPlaying [.packet (interframe 3), .packet (keyframe 4)])) [] true,
          .readPacket (playEnv [])] (r.2, [])).map fun x => (r.1, x.1.sw.activeSource)) =
      some (0, .p2p) := by
    decide +kernel
  obtain ⟨⟨ret, s₀⟩, hheader, hview⟩ := Option.bind_eq_some_iff.mp hview
  obtain ⟨⟨s, history⟩, hrun, heq⟩ := Option.map_eq_some_iff.mp hview
  simp only [Prod.mk.injEq] at heq
  obtain ⟨rfl, hactive⟩ := heq
  have hreach := @System.Reachable.of_guard _ _ ((demuxer playBuild).observed (observe playBuild)) _ _
    (neverOverwrites_of_check playBuild) _ _ _ ⟨headerRead_init hheader, rfl⟩ hrun
  exact ⟨s, history, hreach, hactive, packets_conserved playBuild hreach⟩

/-- The CDN's second packet is read in the call in which the peer takes over. -/
theorem cdn_packet_overwritten : ∃ s history,
    ((demuxer playBuild).observed (observe playBuild)).Reachable (s, history) ∧
    history.map (·.obtained) = [none, some (keyframe 2)] ∧
    history.map (·.returned) = [some (keyframe 1), some (keyframe 4)] ∧ ¬NoneLost history := by
  have hview : ((headerRead [.packet (keyframe 1), .packet (keyframe 2)]).bind fun r =>
      (((demuxer playBuild).observed (observe playBuild)).run [.readPacket (playEnv []),
        .background (some (peerPlaying [.packet (interframe 3), .packet (keyframe 4)])) [] true,
        .readPacket (playEnv [])] (r.2, [])).map fun x =>
          (r.1, x.2.map (·.obtained), x.2.map (·.returned))) =
      some (0, [none, some (keyframe 2)], [some (keyframe 1), some (keyframe 4)]) := by
    decide +kernel
  obtain ⟨⟨ret, s₀⟩, hheader, hview⟩ := Option.bind_eq_some_iff.mp hview
  obtain ⟨⟨s, history⟩, hrun, heq⟩ := Option.map_eq_some_iff.mp hview
  simp only [Prod.mk.injEq] at heq
  obtain ⟨rfl, hobtained, hreturned⟩ := heq
  refine ⟨s, history, .of_run ⟨headerRead_init hheader, rfl⟩ hrun, hobtained, hreturned, ?_⟩
  intro hlost
  obtain ⟨first, second, rfl⟩ : ∃ first second, history = [first, second] := by
    have hlength := congrArg List.length hobtained
    rw [List.length_map] at hlength
    exact List.length_eq_two.mp hlength
  simp only [List.map_cons, List.map_nil, List.cons.injEq, and_true] at hobtained hreturned
  have hsecond := hlost.returned second (by simp) _ hobtained.2
  rw [hreturned.2] at hsecond
  exact absurd hsecond (by decide)

end P2PFFmpeg.Demux
