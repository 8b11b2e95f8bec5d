import P2PFFmpeg.Peer.Classification

namespace P2PFFmpeg.Peer

open Library Library.Program Message

/-- The creation of a track: a media or the probe track of a CONNECT_REQUEST of
the sender, or the track of an announcement to the receiver. -/
inductive TrackCreation
  | send (env : Env) (stream : AVStream) (index : Nat)
  | probe (env : Env)
  | receive (a : RemoteTrack)

/-- The points at which a creation fails. The first stands for all of
create_send_track: the URL context, the chained muxer and rtcAddTrackEx. -/
inductive FailurePoint
  | sendTrack | sampleRate | dataChannel | urlContext | callbacks | context | description
  | openInput | fdopen
  deriving DecidableEq, Repr

def TrackCreation.checks : TrackCreation → List (FailurePoint × Bool)
  | .send env stream index =>
      [(.sendTrack, env.createSendTrack index < 0),
        (.sampleRate, stream.codecType = .audio ∧ stream.sampleRate ≠ 48000),
        (.callbacks, registered env (env.createSendTrack index)
          (trackCallbacks (trackTypeOf stream.codecType)) < 0)]
  | .probe env =>
      [(.dataChannel, env.createDataChannel ≤ 0),
        (.callbacks, registered env env.createDataChannel (trackCallbacks .probeChannel) < 0)]
  | .receive a =>
      [(.urlContext, a.urlContext < 0),
        (.callbacks,
          registered a.env a.trackId (trackCallbacks (trackTypeOf a.stream.codecType)) < 0),
        (.context, !a.allocContext), (.description, a.trackDescription < 0),
        (.openInput, a.openInput < 0), (.fdopen, a.fdopen < 0)]

def TrackCreation.failure (c : TrackCreation) : Option FailurePoint :=
  (c.checks.find? Prod.snd).map Prod.fst

/-- The node has no track of the kind yet, and the new one is allocated. -/
def TrackCreation.Starts (n : PeerConnectionNode) : TrackCreation → Prop
  | .send env stream index =>
      stream.codecType ≠ .other ∧ mediaTrack n stream.codecType = none ∧ env.allocTrack index = true
  | .probe env => n.probeTrack = none ∧ env.allocProbeTrack = true
  | .receive a =>
      a.direction ≠ .sendonly ∧ mediaTrack n a.stream.codecType = none ∧ a.allocTrack = true ∧
        a.newStream = true

def TrackCreation.run (node : Ptr) : TrackCreation → RemoteM Unit
  | .send env stream index => do
      let _ ← onNodes (createSendMediaTrack env stream (some node) index)
      pure ()
  | .probe env => do
      let _ ← onNodes (createProbeTrack env (some node))
      pure ()
  | .receive a => onPcTrackCallback a node

def FailurePoint.unpublished : FailurePoint → Bool
  | .sendTrack | .sampleRate | .dataChannel | .urlContext => true
  | .callbacks | .context | .description | .openInput | .fdopen => false

/-- Some field reachable from the node refers to the track at t. -/
def PeerConnectionNode.RefersTo (n : PeerConnectionNode) (t : Ptr) : Prop :=
  t ∈ n.trackCaches.addrs ∨ n.videoTrack = some t ∨ n.audioTrack = some t ∨ n.probeTrack = some t

def FailurePoint.Leaves (f : FailurePoint) (n m : PeerConnectionNode) : Prop :=
  if f.unpublished then m = n else n.trackCaches.fresh ∈ m.trackCaches.addrs

theorem appendTrack_mem (track : PeerConnectionTrack) (n : PeerConnectionNode) :
    n.trackCaches.fresh ∈ (appendTrack track n).trackCaches.addrs :=
  Linked.mem_addrs_iff.mpr ⟨track, appendTrack_new track⟩

theorem find_failure_cons {f g : FailurePoint} {cond : Bool} {rest : List (FailurePoint × Bool)}
    (h : (((g, cond) :: rest).find? Prod.snd).map Prod.fst = some f) :
    (cond = true ∧ f = g) ∨ (cond = false ∧ (rest.find? Prod.snd).map Prod.fst = some f) := by
  cases cond with
  | true => exact Or.inl ⟨rfl, by simpa using h.symm⟩
  | false => exact Or.inr ⟨rfl, by simpa using h⟩

section Points

variable {p : Ptr} {n : PeerConnectionNode} {f : FailurePoint}

theorem turns_createSendMediaTrack_failed {env : Env} {stream : AVStream} {index : Nat} {ret : Int}
    {m : PeerConnectionNode} (hs : (TrackCreation.send env stream index).Starts n)
    (htrack : 0 ≤ env.createSendTrack index) (hret : ret < 0)
    (h : Turns (nodeAt p) n (initSendTrackEx env stream p (env.createSendTrack index) index) ret m) :
    Turns (nodeAt p) n (createSendMediaTrack env stream (some p) index) (some ret) m := by
  obtain ⟨hkind, hm, halloc⟩ := hs
  rw [createSendMediaTrack, if_neg hkind]
  apply turns_bind turns_readNode
  simp only [hm]
  rw [if_neg (by simp [halloc]), if_neg (by omega)]
  apply turns_bind (turns_call _)
  apply turns_bind h
  rw [if_pos hret]
  exact turns_bind (turns_call _) (turns_pure _)

theorem registered_failed {env : Env} {trackId : Int} {callbacks : List ChannelCallback}
    (h : decide (registered env trackId callbacks < 0) = true) :
    registered env trackId callbacks = averrorExternal := by
  rcases registered_cases env trackId callbacks with hreg | hreg
  · simp [hreg] at h
  · exact hreg

/-- A media track of the sender: the field of its medium is set before the
callbacks are registered. -/
theorem send_failure {env : Env} {stream : AVStream} {index : Nat}
    (hs : (TrackCreation.send env stream index).Starts n)
    (hf : (TrackCreation.send env stream index).failure = some f) : ∃ ret m, ret < 0 ∧ f.Leaves n m ∧
      Turns (nodeAt p) n (createSendMediaTrack env stream (some p) index) (some ret) m := by
  have hstarts := hs
  obtain ⟨hkind, hm, halloc⟩ := hs
  rcases find_failure_cons hf with ⟨htrack, rfl⟩ | ⟨htrack, hf⟩
  · refine ⟨env.createSendTrack index, n, by simpa using htrack, rfl, ?_⟩
    rw [createSendMediaTrack, if_neg hkind]
    apply turns_bind turns_readNode
    simp only [hm]
    rw [if_neg (by simp [halloc]), if_pos (by simpa using htrack)]
    exact turns_pure _
  · have hnonneg : 0 ≤ env.createSendTrack index := by simpa using htrack
    rcases find_failure_cons hf with ⟨hrate, rfl⟩ | ⟨hrate, hf⟩
    · refine ⟨averrorEinval, n, by decide, rfl, ?_⟩
      apply turns_createSendMediaTrack_failed hstarts hnonneg (by decide)
      apply turns_bind turns_readNode
      rw [if_neg hkind, if_pos (by simpa using hrate)]
      exact turns_pure _
    · rcases find_failure_cons hf with ⟨hreg, rfl⟩ | ⟨_, hf⟩
      · let track : PeerConnectionTrack :=
          ⟨index, trackTypeOf stream.codecType, env.createSendTrack index⟩
        have hmem := appendTrack_mem track (setMediaTrack stream.codecType n.trackCaches.fresh n)
        rw [trackCaches_setMediaTrack] at hmem
        refine ⟨averrorExternal, _, by decide, hmem, ?_⟩
        apply turns_createSendMediaTrack_failed hstarts hnonneg (by decide)
        apply turns_bind turns_readNode
        rw [if_neg hkind, if_neg (by simpa using hrate)]
        apply turns_bind (turns_modifyNode _)
        apply turns_bind (turns_setupTrackCommonLogic env track)
        simp only [track, registered_failed hreg]
        exact turns_bind (turns_doWhen _ (turns_call _)) (turns_pure _)
      · cases hf

theorem probe_failure {env : Env} (hs : (TrackCreation.probe env).Starts n)
    (hf : (TrackCreation.probe env).failure = some f) : ∃ ret m, ret < 0 ∧ f.Leaves n m ∧
      Turns (nodeAt p) n (createProbeTrack env (some p)) (some ret) m := by
  obtain ⟨hm, halloc⟩ := hs
  have hinit : ∀ m, Turns (nodeAt p) n (initProbeTrackEx env p) averrorExternal m →
      Turns (nodeAt p) n (createProbeTrack env (some p)) (some averrorExternal) m := by
    intro m h
    apply turns_bind turns_readNode
    simp only [hm]
    rw [if_neg (by simp [halloc])]
    apply turns_bind h
    rw [if_pos (by decide)]
    exact turns_bind (turns_call _) (turns_pure _)
  rcases find_failure_cons hf with ⟨hchannel, rfl⟩ | ⟨hchannel, hf⟩
  · refine ⟨averrorExternal, n, by decide, rfl, hinit n ?_⟩
    apply turns_bind turns_readNode
    apply turns_bind (turns_call _)
    rw [if_pos (by simpa using hchannel)]
    exact turns_pure _
  · rcases find_failure_cons hf with ⟨hreg, rfl⟩ | ⟨_, hf⟩
    · have hmem := appendTrack_mem (probeChannelTrack env.createDataChannel) n
      refine ⟨averrorExternal, _, by decide, hmem, hinit _ ?_⟩
      apply turns_bind turns_readNode
      apply turns_bind (turns_call _)
      rw [if_neg (by simpa using hchannel)]
      apply turns_bind (turns_setupTrackCommonLogic env (probeChannelTrack env.createDataChannel))
      have hext : registered env (probeChannelTrack env.createDataChannel).trackId
          (trackCallbacks (probeChannelTrack env.createDataChannel).trackType) = averrorExternal :=
        registered_failed hreg
      rw [hext, if_pos (by decide)]
      exact turns_bind (turns_call _) (turns_pure _)
    · cases hf

variable {a : RemoteTrack}

theorem opens_zero {kind : MediaType} (h : a.opens kind = 0) :
    ¬ a.urlContext < 0 ∧ ¬ registered a.env a.trackId (trackCallbacks (trackTypeOf kind)) < 0 ∧
      a.allocContext = true ∧ ¬ a.trackDescription < 0 ∧ ¬ a.openInput < 0 ∧ ¬ a.fdopen < 0 := by
  unfold RemoteTrack.opens at h
  split at h
  · omega
  · next hurl =>
      split at h
      · cases h
      · next hreg =>
          split at h
          · cases h
          · next halloc =>
              split at h
              · omega
              · next hdesc =>
                  split at h
                  · omega
                  · next hopen =>
                      split at h
                      · omega
                      · next hfd =>
                          exact ⟨hurl, hreg, by simpa using halloc, hdesc, hopen, hfd⟩

theorem opens_failed (hf : (TrackCreation.receive a).failure = some f) : a.opens a.stream.codecType < 0 := by
  rcases a.opens_nonpos a.stream.codecType with hneg | hzero
  · exact hneg
  · obtain ⟨hurl, hreg, halloc, hdesc, hopen, hfd⟩ := opens_zero hzero
    simp [TrackCreation.failure, TrackCreation.checks, hurl, hreg, halloc, hdesc, hopen, hfd] at hf

theorem leaves_failed (index : Nat) (hf : (TrackCreation.receive a).failure = some f) :
    f.Leaves n (a.leaves a.stream.codecType index n) := by
  rcases find_failure_cons hf with ⟨hurl, rfl⟩ | ⟨hurl, hf⟩
  · exact if_pos (by simpa using hurl)
  · have hlater : f.unpublished = false := by
      obtain ⟨⟨g, cond⟩, hg, rfl⟩ := Option.map_eq_some_iff.mp hf
      have hmem := List.mem_of_find?_eq_some hg
      simp only [List.mem_cons, Prod.mk.injEq, List.not_mem_nil, or_false] at hmem
      rcases hmem with ⟨rfl, _⟩ | ⟨rfl, _⟩ | ⟨rfl, _⟩ | ⟨rfl, _⟩ | ⟨rfl, _⟩ <;> rfl
    have hopened : ¬ a.urlContext < 0 := by simpa using hurl
    rw [FailurePoint.Leaves, hlater, RemoteTrack.leaves, if_neg hopened]
    exact appendTrack_mem _ n

/-- A track of the receiver: all but its URL context is tried with the track
already in the list. -/
theorem receive_failure {streams : List RecvStream} (hs : (TrackCreation.receive a).Starts n)
    (hf : (TrackCreation.receive a).failure = some f) : ∃ m streams', f.Leaves n m ∧
      Turns (remoteAt p) (n, streams) (onPcTrackCallback a p) () (m, streams') := by
  obtain ⟨hdir, hm, halloc, hnew⟩ := hs
  have hrun : Turns (remoteAt p) (n, streams) (onPcTrackCallback a p) ()
      (a.creates a.stream (n, streams)) := by
    rw [onPcTrackCallback_eq hdir]
    exact turns_bind (turns_onNodes turns_readNode) (turns_createRecvTrack a _)
  refine ⟨_, streams ++ [a.stream], leaves_failed streams.length hf, ?_⟩
  have hcreates : a.creates a.stream (n, streams) =
      (a.leaves a.stream.codecType streams.length n, streams ++ [a.stream]) := by
    simp only [RemoteTrack.creates]
    rw [if_neg (by simp [hm, halloc]), if_neg (by simp [hnew]), if_pos (opens_failed hf)]
  rw [hcreates] at hrun
  exact hrun

theorem creation_failure {c : TrackCreation} {streams : List RecvStream} (hs : c.Starts n)
    (hf : c.failure = some f) : ∃ m streams', f.Leaves n m ∧
      Turns (remoteAt p) (n, streams) (c.run p) () (m, streams') := by
  cases c with
  | send env stream index =>
      obtain ⟨ret, m, _, hm, hturns⟩ := @send_failure p n f env stream index hs hf
      exact ⟨m, streams, hm, turns_bind (turns_onNodes hturns) (turns_pure ())⟩
  | probe env =>
      obtain ⟨ret, m, _, hm, hturns⟩ := @probe_failure p n f env hs hf
      exact ⟨m, streams, hm, turns_bind (turns_onNodes hturns) (turns_pure ())⟩
  | receive a => exact receive_failure hs hf

end Points

/-- After a failed creation no field of the node refers to the track that is
freed, exactly where the call that failed comes before the track is published
and no field referred to its address before. -/
theorem failed_track_unreferenced_iff {c : TrackCreation} {p : Ptr} {s : RemoteContext}
    {n : PeerConnectionNode} {f : FailurePoint} (hn : nodeAt p s.p2pContext = some n)
    (hs : c.Starts n) (hf : c.failure = some f) :
    (∃ m, nodeAt p (after (c.run p) s).p2pContext = some m ∧ ¬ m.RefersTo n.trackCaches.fresh) ↔
      f.unpublished = true ∧ ¬ n.RefersTo n.trackCaches.fresh := by
  obtain ⟨m, streams', hleaves, hturns⟩ := @creation_failure p n f c s.streams hs hf
  obtain ⟨_, hafter⟩ := hturns s (by rw [remoteAt, hn]; rfl)
  obtain ⟨k, hm, hpair⟩ := Option.map_eq_some_iff.mp hafter
  obtain ⟨rfl, _⟩ := Prod.mk.inj hpair
  rw [hm]
  cases hpub : f.unpublished with
  | true =>
      rw [FailurePoint.Leaves, if_pos hpub] at hleaves
      subst hleaves
      simp
  | false =>
      rw [FailurePoint.Leaves, hpub, if_neg Bool.false_ne_true] at hleaves
      simp only [Option.some.injEq, exists_eq_left', Bool.false_eq_true, false_and, iff_false,
        not_not]
      exact Or.inl hleaves

def callbackFails : Env :=
  { Env.succeeding 0 1 with setChannelCallback := fun _ _ => -1 }

theorem failed_connect_unreferenced :
    ∃ m, nodeAt 0 (after ((TrackCreation.send { Env.succeeding 0 1 with createSendTrack := fun _ => -1 }
      ⟨.video, 0⟩ 0).run 0) oneNode).p2pContext = some m ∧ ¬ m.RefersTo 0 := by
  refine (failed_track_unreferenced_iff (n := newNode (some "a") 1) (f := .sendTrack) rfl ?_ rfl).mpr ?_
  · exact ⟨by decide, rfl, rfl⟩
  · refine ⟨rfl, ?_⟩
    rintro (h | h | h | h) <;> cases h

/-- The video track of a sender is freed after its callbacks cannot be
registered, and stays the video track of the node. -/
theorem freed_track_referenced :
    ¬ ∀ (c : TrackCreation) p (s : RemoteContext) n f, nodeAt p s.p2pContext = some n → c.Starts n →
      c.failure = some f →
      ∃ m, nodeAt p (after (c.run p) s).p2pContext = some m ∧ ¬ m.RefersTo n.trackCaches.fresh := by
  intro h
  obtain ⟨m, hm, hno⟩ := h (.send callbackFails ⟨.video, 0⟩ 0) 0 oneNode (newNode (some "a") 1)
    .callbacks rfl ⟨by decide, rfl, rfl⟩ rfl
  have hvideo : (nodeAt 0 (after ((TrackCreation.send callbackFails ⟨.video, 0⟩ 0).run 0)
      oneNode).p2pContext).map (·.videoTrack) = some (some 0) := by decide +kernel
  rw [hm] at hvideo
  exact hno (Or.inr (Or.inl (Option.some.inj hvideo)))

end P2PFFmpeg.Peer
