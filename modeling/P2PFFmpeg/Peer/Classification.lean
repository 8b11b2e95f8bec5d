import P2PFFmpeg.Peer.Invariant
import P2PFFmpeg.Peer.RemoteTracks

namespace P2PFFmpeg.Peer

open Library Library.Program Message

def RemoteTrack.media (a : RemoteTrack) : MediaType :=
  if "m=video".toList <+: a.description.toList then .video
  else if "m=audio".toList <+: a.description.toList then .audio
  else .other

def RemoteTrack.IsSetUp (a : RemoteTrack) : Prop :=
  a.allocTrack = true ∧ a.newStream = true ∧ a.opens a.stream.codecType = 0

def RemoteTrack.IsKept (a : RemoteTrack) : Prop :=
  a.allocTrack = true ∧ (a.newStream = false ∨ a.opens a.stream.codecType = 0)

def HasMedia (b : PeerConnectionNode × List RecvStream) (kind : MediaType) (trackId : Int) : Prop :=
  ∃ t track stream, mediaTrack b.1 kind = some t ∧ b.1.trackCaches.get? t = some track ∧
    track.trackId = trackId ∧ 0 ≤ track.streamIndex ∧
    b.2[track.streamIndex.toNat]? = some stream ∧ stream.codecType = kind

def Classified (tracks : List RemoteTrack) (b : PeerConnectionNode × List RecvStream) : Prop :=
  ∀ kind, kind ≠ .other →
    match tracks.find? fun a => a.media = kind with
    | some a => HasMedia b kind a.trackId
    | none => mediaTrack b.1 kind = none

/-- All tracks are video tracks, the first one says more than that and is set
up, and no track that says no more is kept. -/
structure VideoOnly (tracks : List RemoteTrack) : Prop where
  video : ∀ a ∈ tracks, a.media = .video
  first : ∀ a, tracks.head? = some a → a.description ≠ "m=video" ∧ a.IsSetUp
  bare : ∀ a ∈ tracks, a.description = "m=video" → ¬ a.IsKept

section Fields

variable (n : PeerConnectionNode) (kind : MediaType) (t : Ptr)

@[simp] theorem trackCaches_setMediaTrack : (setMediaTrack kind t n).trackCaches = n.trackCaches := by
  cases kind <;> rfl

theorem mediaTrack_setMediaTrack {kind : MediaType} (h : kind ≠ .other) :
    mediaTrack (setMediaTrack kind t n) kind = some t := by
  cases kind with
  | other => exact absurd rfl h
  | _ => rfl

theorem mediaTrack_setMediaTrack_ne_none {k : MediaType} (h : mediaTrack n k ≠ none) :
    mediaTrack (setMediaTrack kind t n) k ≠ none := by
  cases kind <;> cases k <;> first | exact h | exact Option.some_ne_none t

theorem mediaTrack_of_setMediaTrack {k : MediaType} {u : Ptr}
    (h : mediaTrack (setMediaTrack kind t n) k = some u) : (k = kind ∧ u = t) ∨ mediaTrack n k = some u := by
  cases kind <;> cases k <;> first | exact Or.inr h | exact Or.inl ⟨rfl, (Option.some.inj h).symm⟩

theorem mediaTrack_appendTrack (track : PeerConnectionTrack) :
    mediaTrack (appendTrack track n) kind = mediaTrack n kind := by
  cases kind <;> rfl

end Fields

section Leaves

variable {a : RemoteTrack} {kind : MediaType} {index : Nat} {n : PeerConnectionNode}

theorem appendTrack_get? {track other : PeerConnectionTrack} {t : Ptr} (ht : t < n.trackCaches.fresh)
    (h : (appendTrack track n).trackCaches.get? t = some other) : n.trackCaches.get? t = some other := by
  change ((n.trackCaches.unlink _).link track).get? t = some other at h
  have hne : t ≠ (n.trackCaches.unlink (hasTrackId track.trackId)).fresh := Nat.ne_of_lt ht
  rw [Linked.get?_link, if_neg hne] at h
  exact Linked.get?_of_unlink h

theorem appendTrack_keeps {track other : PeerConnectionTrack} {t : Ptr}
    (h : n.trackCaches.get? t = some other) (hid : other.trackId ≠ track.trackId) :
    (appendTrack track n).trackCaches.get? t = some other := by
  change ((n.trackCaches.unlink _).link track).get? t = some other
  have hlt : t < n.trackCaches.fresh := Linked.lt_fresh (Linked.mem_addrs_iff.mpr ⟨_, h⟩)
  have hne : t ≠ (n.trackCaches.unlink (hasTrackId track.trackId)).fresh := Nat.ne_of_lt hlt
  rw [Linked.get?_link, if_neg hne]
  exact Linked.get?_unlink_of_not h (by simpa [hasTrackId] using hid)

theorem appendTrack_new (track : PeerConnectionTrack) :
    (appendTrack track n).trackCaches.get? n.trackCaches.fresh = some track := by
  change ((n.trackCaches.unlink _).link track).get? _ = some track
  rw [Linked.get?_link]
  exact if_pos rfl

theorem leaves_mediaTrack (k : MediaType) : mediaTrack (a.leaves kind index n) k = mediaTrack n k := by
  unfold RemoteTrack.leaves
  split
  · rfl
  · exact mediaTrack_appendTrack n k _

theorem leaves_fresh : n.trackCaches.fresh ≤ (a.leaves kind index n).trackCaches.fresh := by
  unfold RemoteTrack.leaves
  split
  · exact Nat.le_refl _
  · exact Nat.le_succ _

theorem leaves_get? {other : PeerConnectionTrack} {t : Ptr} (ht : t < n.trackCaches.fresh)
    (h : (a.leaves kind index n).trackCaches.get? t = some other) : n.trackCaches.get? t = some other := by
  unfold RemoteTrack.leaves at h
  split at h
  · exact h
  · exact appendTrack_get? ht h

theorem leaves_keeps {other : PeerConnectionTrack} {t : Ptr}
    (h : n.trackCaches.get? t = some other) (hid : other.trackId ≠ a.trackId) :
    (a.leaves kind index n).trackCaches.get? t = some other := by
  unfold RemoteTrack.leaves
  split
  · exact h
  · exact appendTrack_keeps h hid

end Leaves

inductive Creates (a : RemoteTrack) (b : PeerConnectionNode × List RecvStream) :
    PeerConnectionNode × List RecvStream → Prop
  | busy : (mediaTrack b.1 a.stream.codecType).isSome → Creates a b b
  | noTrack : a.allocTrack = false → Creates a b b
  | noStream : mediaTrack b.1 a.stream.codecType = none → a.allocTrack = true →
      a.newStream = false → Creates a b (keepBareTrack a.stream.codecType b.1, b.2)
  | failed : mediaTrack b.1 a.stream.codecType = none → a.newStream = true →
      a.opens a.stream.codecType < 0 →
      Creates a b (a.leaves a.stream.codecType b.2.length b.1, b.2 ++ [a.stream])
  | opened : mediaTrack b.1 a.stream.codecType = none → a.IsSetUp →
      Creates a b (setMediaTrack a.stream.codecType b.1.trackCaches.fresh
        (appendTrack (a.track a.stream.codecType b.2.length) b.1), b.2 ++ [a.stream])

theorem creates_step (a : RemoteTrack) (b : PeerConnectionNode × List RecvStream) :
    Creates a b (a.creates a.stream b) := by
  simp only [RemoteTrack.creates]
  cases hm : mediaTrack b.1 a.stream.codecType with
  | some t =>
      rw [if_pos (Or.inl (by rfl))]
      exact .busy (by simp [hm])
  | none =>
      cases halloc : a.allocTrack with
      | false =>
          rw [if_pos (Or.inr rfl)]
          exact .noTrack halloc
      | true =>
          rw [if_neg (by simp)]
          cases hnew : a.newStream with
          | false =>
              rw [if_pos rfl]
              exact .noStream hm halloc hnew
          | true =>
              rw [if_neg (by simp)]
              rcases a.opens_nonpos a.stream.codecType with hneg | hzero
              · rw [if_pos hneg]
                exact .failed hm hnew hneg
              · rw [if_neg (by rw [hzero]; decide)]
                have hurl : ¬ a.urlContext < 0 := by
                  intro hurl
                  rw [RemoteTrack.opens, if_pos hurl] at hzero
                  omega
                rw [RemoteTrack.leaves, if_neg hurl]
                exact .opened hm ⟨halloc, hnew, hzero⟩

theorem stream_codecType (a : RemoteTrack) : a.stream.codecType ≠ .other := by
  unfold RemoteTrack.stream
  split <;> decide

/-- The media tracks of a node come from announcements that were set up, and a
medium that an announcement was kept for has a track. -/
structure Origin (done : List RemoteTrack) (b : PeerConnectionNode × List RecvStream) : Prop where
  below : ∀ kind t, mediaTrack b.1 kind = some t → t < b.1.trackCaches.fresh
  source : ∀ kind t track, mediaTrack b.1 kind = some t → b.1.trackCaches.get? t = some track →
    ∃ a ∈ done, a.stream.codecType = kind ∧ a.trackId = track.trackId ∧ a.IsSetUp
  kept : ∀ a ∈ done, a.IsKept → mediaTrack b.1 a.stream.codecType ≠ none

theorem Origin.step {done : List RemoteTrack} {b b' : PeerConnectionNode × List RecvStream}
    {a : RemoteTrack} (h : Origin done b) (hc : Creates a b b') : Origin (done ++ [a]) b' := by
  have hmono : ∀ {kind : MediaType} {track : PeerConnectionTrack},
      (∃ a ∈ done, a.stream.codecType = kind ∧ a.trackId = track.trackId ∧ a.IsSetUp) →
      ∃ a' ∈ done ++ [a], a'.stream.codecType = kind ∧ a'.trackId = track.trackId ∧ a'.IsSetUp := by
    rintro kind track ⟨c, hc, hrest⟩
    exact ⟨c, List.mem_append_left _ hc, hrest⟩
  have hkept : ∀ n, (∀ k, mediaTrack b.1 k ≠ none → mediaTrack n k ≠ none) →
      (a.IsKept → mediaTrack n a.stream.codecType ≠ none) →
      ∀ c ∈ done ++ [a], c.IsKept → mediaTrack n c.stream.codecType ≠ none := by
    intro n hn ha c hc hck
    rcases List.mem_append.mp hc with hc | hc
    · exact hn _ (h.kept c hc hck)
    · rw [List.mem_singleton.mp hc] at hck ⊢
      exact ha hck
  have hself : ∀ (t : Ptr) (n : PeerConnectionNode),
      mediaTrack (setMediaTrack a.stream.codecType t n) a.stream.codecType ≠ none := by
    intro t n
    rw [mediaTrack_setMediaTrack n t (stream_codecType a)]
    exact Option.some_ne_none t
  have hbare : ∀ k, mediaTrack { b.1 with trackCaches := b.1.trackCaches.reserve } k =
      mediaTrack b.1 k := by
    intro k
    cases k <;> rfl
  cases hc with
  | busy hsome =>
      refine ⟨h.below, fun k t track hk ht => hmono (h.source k t track hk ht), ?_⟩
      exact hkept _ (fun _ hk => hk) (fun _ => Option.isSome_iff_ne_none.mp hsome)
  | noTrack halloc =>
      refine ⟨h.below, fun k t track hk ht => hmono (h.source k t track hk ht), ?_⟩
      exact hkept _ (fun _ hk => hk) (fun hk => by simp [hk.1] at halloc)
  | noStream hm halloc hnew =>
      refine ⟨?_, ?_, ?_⟩
      · intro k t hk
        rw [keepBareTrack, trackCaches_setMediaTrack]
        rcases mediaTrack_of_setMediaTrack _ _ _ hk with ⟨_, rfl⟩ | hk
        · exact Nat.lt_succ_self _
        · rw [hbare] at hk
          exact Nat.lt_succ_of_lt (h.below k t hk)
      · intro k t track hk ht
        rw [keepBareTrack, trackCaches_setMediaTrack, Linked.get?_reserve] at ht
        rcases mediaTrack_of_setMediaTrack _ _ _ hk with ⟨_, rfl⟩ | hk
        · exact absurd (Linked.lt_fresh (Linked.mem_addrs_iff.mpr ⟨track, ht⟩)) (Nat.lt_irrefl _)
        · rw [hbare] at hk
          exact hmono (h.source k t track hk ht)
      · refine hkept _ (fun k hk => ?_) (fun _ => hself _ _)
        exact mediaTrack_setMediaTrack_ne_none _ _ _ (by rw [hbare]; exact hk)
  | failed hm hnew hneg =>
      refine ⟨?_, ?_, ?_⟩
      · intro k t hk
        rw [leaves_mediaTrack] at hk
        exact Nat.lt_of_lt_of_le (h.below k t hk) leaves_fresh
      · intro k t track hk ht
        rw [leaves_mediaTrack] at hk
        exact hmono (h.source k t track hk (leaves_get? (h.below k t hk) ht))
      · refine hkept _ (fun k hk => by rw [leaves_mediaTrack]; exact hk) ?_
        rintro ⟨_, hno | hzero⟩
        · simp [hnew] at hno
        · omega
  | opened hm hup =>
      refine ⟨?_, ?_, ?_⟩
      · intro k t hk
        rw [trackCaches_setMediaTrack]
        rcases mediaTrack_of_setMediaTrack _ _ _ hk with ⟨_, rfl⟩ | hk
        · exact Nat.lt_succ_self _
        · rw [mediaTrack_appendTrack] at hk
          exact Nat.lt_succ_of_lt (h.below k t hk)
      · intro k t track hk ht
        rw [trackCaches_setMediaTrack] at ht
        rcases mediaTrack_of_setMediaTrack _ _ _ hk with ⟨rfl, rfl⟩ | hk
        · rw [appendTrack_new] at ht
          cases ht
          exact ⟨a, List.mem_append_right _ (List.mem_singleton.mpr rfl), rfl, rfl, hup⟩
        · rw [mediaTrack_appendTrack] at hk
          exact hmono (h.source k t track hk (appendTrack_get? (h.below k t hk) ht))
      · refine hkept _ (fun k hk => ?_) (fun _ => hself _ _)
        exact mediaTrack_setMediaTrack_ne_none _ _ _ (by rw [mediaTrack_appendTrack]; exact hk)

theorem Origin.run {done tracks : List RemoteTrack} {b : PeerConnectionNode × List RecvStream}
    (h : Origin done b) : Origin (done ++ tracks) (announced tracks b) := by
  induction tracks generalizing done b with
  | nil => simpa [announced] using h
  | cons a tracks ih =>
      rw [List.append_cons]
      exact ih (h.step (creates_step a b))

structure FirstKept (id : Int) (b : PeerConnectionNode × List RecvStream) : Prop where
  video : HasMedia b .video id
  audio : b.1.audioTrack = none

theorem FirstKept.step {id : Int} {b b' : PeerConnectionNode × List RecvStream} {a : RemoteTrack}
    (h : FirstKept id b) (hid : a.trackId ≠ id) (hbare : a.description = "m=video" → ¬ a.IsKept)
    (hc : Creates a b b') : FirstKept id b' := by
  obtain ⟨t, track, stream, ht, htrack, htid, hnonneg, hstream, hkind⟩ := h.video
  have hkept : mediaTrack b.1 a.stream.codecType = none → ¬ a.IsKept := by
    intro hm
    by_cases hd : a.description = "m=video"
    · exact hbare hd
    · rw [RemoteTrack.stream, if_neg hd, ht] at hm
      cases hm
  cases hc with
  | busy _ => exact h
  | noTrack _ => exact h
  | noStream hm halloc hnew => exact absurd ⟨halloc, Or.inl hnew⟩ (hkept hm)
  | opened hm hup => exact absurd ⟨hup.1, Or.inr hup.2.2⟩ (hkept hm)
  | failed hm hnew hneg =>
      refine ⟨⟨t, track, stream, ?_, ?_, htid, hnonneg, ?_, hkind⟩, ?_⟩
      · rw [leaves_mediaTrack]
        exact ht
      · exact leaves_keeps htrack (by rw [htid]; exact hid.symm)
      · rw [List.getElem?_append_left (List.getElem?_eq_some_iff.mp hstream).1]
        exact hstream
      · exact (leaves_mediaTrack .audio).trans h.audio

theorem FirstKept.run {id : Int} {b : PeerConnectionNode × List RecvStream} {tracks : List RemoteTrack}
    (h : FirstKept id b) (hid : ∀ a ∈ tracks, a.trackId ≠ id)
    (hbare : ∀ a ∈ tracks, a.description = "m=video" → ¬ a.IsKept) : FirstKept id (announced tracks b) := by
  induction tracks generalizing b with
  | nil => exact h
  | cons a tracks ih =>
      have hstep := h.step (hid a List.mem_cons_self) (hbare a List.mem_cons_self) (creates_step a b)
      exact ih hstep (fun c hc => hid c (List.mem_cons_of_mem a hc))
        (fun c hc => hbare c (List.mem_cons_of_mem a hc))

variable {a : RemoteTrack}

theorem firstKept_first {b b' : PeerConnectionNode × List RecvStream} (hd : a.description ≠ "m=video")
    (hup : a.IsSetUp) (hvideo : b.1.videoTrack = none) (haudio : b.1.audioTrack = none)
    (hc : Creates a b b') : FirstKept a.trackId b' := by
  have hstream : a.stream = ⟨.video, .h264⟩ := if_neg hd
  have hm : mediaTrack b.1 a.stream.codecType = none := by
    rw [hstream]
    exact hvideo
  cases hc with
  | busy hsome => simp [hm] at hsome
  | noTrack halloc => simp [hup.1] at halloc
  | noStream _ _ hnew => simp [hup.2.1] at hnew
  | failed _ _ hneg =>
      have := hup.2.2
      omega
  | opened _ _ =>
      rw [hstream]
      refine ⟨⟨_, a.track .video b.2.length, ⟨.video, .h264⟩, rfl, ?_, rfl, ?_, ?_, rfl⟩, ?_⟩
      · exact appendTrack_new _
      · exact Int.natCast_nonneg _
      · simp [RemoteTrack.track]
      · exact haudio

theorem media_of_bare (h : a.media = .audio) : a.description ≠ "m=video" := by
  intro hd
  rw [RemoteTrack.media, hd] at h
  exact absurd h (by decide)

theorem Origin.hasMedia {tracks : List RemoteTrack} {b : PeerConnectionNode × List RecvStream}
    (h : Origin tracks b) (hids : (tracks.map (·.trackId)).Nodup) (ha : a ∈ tracks) {kind : MediaType}
    (hm : HasMedia b kind a.trackId) : a.stream.codecType = kind ∧ a.IsSetUp := by
  obtain ⟨t, track, _, ht, htrack, hid, _⟩ := hm
  obtain ⟨c, hc, hkind, hcid, hup⟩ := h.source kind t track ht htrack
  have hca : c = a := List.inj_on_of_nodup_map hids hc ha (hcid.trans hid)
  subst hca
  exact ⟨hkind, hup⟩

theorem classified_announced_iff {tracks : List RemoteTrack}
    {b : PeerConnectionNode × List RecvStream} (hvideo : b.1.videoTrack = none)
    (haudio : b.1.audioTrack = none) (hmedia : ∀ a ∈ tracks, a.media ≠ .other)
    (hids : (tracks.map (·.trackId)).Nodup) : Classified tracks (announced tracks b) ↔ VideoOnly tracks := by
  have hnone : ∀ kind, mediaTrack b.1 kind = none := by
    intro kind
    cases kind with
    | video => exact hvideo
    | audio => exact haudio
    | other => rfl
  have horigin : Origin tracks (announced tracks b) := by
    have hstart : Origin [] b := by
      refine ⟨?_, ?_, ?_⟩
      · intro k t hk
        rw [hnone] at hk
        cases hk
      · intro k t track hk _
        rw [hnone] at hk
        cases hk
      · intro a ha
        exact absurd ha List.not_mem_nil
    exact @Origin.run [] tracks b hstart
  constructor
  · intro h
    have hno : ∀ a ∈ tracks, a.media ≠ .audio := by
      intro a ha haudio
      have hc := h .audio (by decide)
      cases hf : tracks.find? fun a => a.media = .audio with
      | none => exact absurd haudio (by simpa using List.find?_eq_none.mp hf a ha)
      | some c =>
          rw [hf] at hc
          obtain ⟨hkind, _⟩ := horigin.hasMedia hids (List.mem_of_find?_eq_some hf) hc
          have hcm : c.media = .audio := by simpa using List.find?_some hf
          rw [RemoteTrack.stream, if_neg (media_of_bare hcm)] at hkind
          cases hkind
    have hall : ∀ a ∈ tracks, a.media = .video := by
      intro a ha
      cases hm : a.media with
      | video => rfl
      | audio => exact absurd hm (hno a ha)
      | other => exact absurd hm (hmedia a ha)
    refine ⟨hall, ?_, ?_⟩
    · intro a ha
      obtain ⟨rest, rfl⟩ : ∃ rest, tracks = a :: rest := List.head?_eq_some_iff.mp ha
      have hc := h .video (by decide)
      rw [List.find?_cons_of_pos (by simpa using hall a List.mem_cons_self)] at hc
      obtain ⟨hkind, hup⟩ := horigin.hasMedia hids List.mem_cons_self hc
      refine ⟨fun hd => ?_, hup⟩
      rw [RemoteTrack.stream, if_pos hd] at hkind
      cases hkind
    · intro a ha hd hk
      have hc := h .audio (by decide)
      have hf : tracks.find? (fun a => a.media = .audio) = none :=
        List.find?_eq_none.mpr fun c hc => by simpa using hno c hc
      rw [hf] at hc
      have hset := horigin.kept a ha hk
      rw [RemoteTrack.stream, if_pos hd] at hset
      exact hset hc
  · intro h kind hkind
    cases tracks with
    | nil => exact hnone kind
    | cons a rest =>
        obtain ⟨hd, hup⟩ := h.first a rfl
        obtain ⟨hfresh, _⟩ := List.nodup_cons.mp hids
        have hkept : FirstKept a.trackId (announced (a :: rest) b) := by
          refine (firstKept_first hd hup hvideo haudio (creates_step a b)).run ?_ ?_
          · intro c hc he
            exact hfresh (List.mem_map.mpr ⟨c, hc, he⟩)
          · exact fun c hc => h.bare c (List.mem_cons_of_mem a hc)
        cases kind with
        | other => exact absurd rfl hkind
        | video =>
            rw [List.find?_cons_of_pos (by simpa using h.video a List.mem_cons_self)]
            exact hkept.video
        | audio =>
            have hf : (a :: rest).find? (fun a => a.media = .audio) = none :=
              List.find?_eq_none.mpr fun c hc => by simp [h.video c hc]
            rw [hf]
            exact hkept.audio

/-- The announced tracks are the media tracks of the node at p. -/
def ClassifiedAt (p : Ptr) (tracks : List RemoteTrack) (s : RemoteContext) : Prop :=
  ∃ b, remoteAt p s = some b ∧ Classified tracks b

/-- The remote tracks of a new node are classified exactly where they are all
video tracks, the first is taken for one and set up, and none is taken for audio. -/
theorem remote_tracks_classified_iff {s : RemoteContext} {p : Ptr} {n : PeerConnectionNode}
    {tracks : List RemoteTrack} (hn : nodeAt p s.p2pContext = some n) (hvideo : n.videoTrack = none)
    (haudio : n.audioTrack = none) (hrecv : ∀ a ∈ tracks, a.direction ≠ .sendonly)
    (hmedia : ∀ a ∈ tracks, a.media ≠ .other) (hids : (tracks.map (·.trackId)).Nodup) :
    ClassifiedAt p tracks (after (announceTracks p tracks) s) ↔ VideoOnly tracks := by
  have hs : remoteAt p s = some (n, s.streams) := by rw [remoteAt, hn]; rfl
  obtain ⟨_, hafter⟩ := turns_announceTracks hrecv s hs
  have hpure : Classified tracks (announced tracks (n, s.streams)) ↔ VideoOnly tracks :=
    classified_announced_iff hvideo haudio hmedia hids
  rw [← hpure]
  constructor
  · rintro ⟨b, hb, hc⟩
    rw [hafter] at hb
    cases hb
    exact hc
  · exact fun hc => ⟨_, hafter, hc⟩

def workingTrack (trackId : Int) (description : String) : RemoteTrack where
  trackId := trackId
  direction := .recvonly
  description := description
  allocTrack := true
  newStream := true
  urlContext := 0
  setChannelCallback := fun _ => 0
  allocContext := true
  trackDescription := 1
  openInput := 0
  fdopen := 0

def oneNode : RemoteContext where
  p2pContext := ⟨none, none, Linked.empty.link (newNode (some "a") 1), none, []⟩
  streams := []

/-- Two video tracks, and a bare one for which there is no memory. -/
def videoTracks : List RemoteTrack :=
  [workingTrack 1 "m=video 9 UDP/TLS/RTP/SAVPF 96", workingTrack 2 "m=video 9 UDP/TLS/RTP/SAVPF 97",
    { workingTrack 3 "m=video" with allocTrack := false }]

theorem forall_videoTracks {p : RemoteTrack → Prop} : (∀ a ∈ videoTracks, p a) ↔
    p (workingTrack 1 "m=video 9 UDP/TLS/RTP/SAVPF 96") ∧ p (workingTrack 2 "m=video 9 UDP/TLS/RTP/SAVPF 97") ∧
      p { workingTrack 3 "m=video" with allocTrack := false } := by
  simp [videoTracks]

theorem video_tracks_classified :
    ClassifiedAt 0 videoTracks (after (announceTracks 0 videoTracks) oneNode) := by
  refine (remote_tracks_classified_iff (n := newNode (some "a") 1) rfl rfl rfl ?_ ?_ (by decide)).mpr ⟨?_, ?_, ?_⟩
  · exact forall_videoTracks.mpr ⟨by decide, by decide, by decide⟩
  · exact forall_videoTracks.mpr ⟨by decide, by decide, by decide⟩
  · exact forall_videoTracks.mpr ⟨by decide, by decide, by decide⟩
  · rintro a ⟨⟩
    exact ⟨by decide, rfl, rfl, by decide⟩
  · refine forall_videoTracks.mpr ⟨fun h => absurd h (by decide), fun h => absurd h (by decide), fun _ hkept => ?_⟩
    exact absurd hkept.1 (by decide)

/-- An audio track that is announced alone becomes the video track. -/
theorem audio_track_taken_for_video :
    ¬ ∀ (s : RemoteContext) p n (tracks : List RemoteTrack), nodeAt p s.p2pContext = some n →
      n.videoTrack = none → n.audioTrack = none → (∀ a ∈ tracks, a.direction ≠ .sendonly) →
      (∀ a ∈ tracks, a.media ≠ .other) → (tracks.map (·.trackId)).Nodup →
      ClassifiedAt p tracks (after (announceTracks p tracks) s) := by
  intro h
  have hmedia : (workingTrack 1 "m=audio 9 UDP/TLS/RTP/SAVPF 111").media = .audio := by decide
  obtain ⟨b, hb, hc⟩ := h oneNode 0 _ [workingTrack 1 "m=audio 9 UDP/TLS/RTP/SAVPF 111"] rfl rfl rfl
    (by simp [workingTrack]) (by simp [hmedia]) (by simp)
  have hvideo := hc .video (by decide)
  rw [List.find?_eq_none.mpr (by simp [hmedia])] at hvideo
  have hnode : (remoteAt 0 (after (announceTracks 0
      [workingTrack 1 "m=audio 9 UDP/TLS/RTP/SAVPF 111"]) oneNode)).map (fun b => b.1.videoTrack) =
      some (some 0) := by decide +kernel
  rw [hb] at hnode
  simp [show b.1.videoTrack = none from hvideo] at hnode

end P2PFFmpeg.Peer
