import P2PFFmpeg.Tools.FrameQueue

namespace P2PFFmpeg.Tools

open Library Library.Transition Util

def samplesIn (fs : List AVFrame) : Nat := (fs.map AVFrame.nbSamples).sum

@[simp] theorem samplesIn_nil : samplesIn [] = 0 := rfl

@[simp] theorem samplesIn_cons (f : AVFrame) (fs : List AVFrame) :
    samplesIn (f :: fs) = f.nbSamples + samplesIn fs := rfl

@[simp] theorem samplesIn_append (fs gs : List AVFrame) :
    samplesIn (fs ++ gs) = samplesIn fs + samplesIn gs := by
  rw [samplesIn, List.map_append, List.sum_append]
  rfl

def content (f : AVFrame) (p : Nat) : List UInt8 :=
  ((f.planes p).drop f.offset).take (f.nbSamples * f.format.block)

def contents (fs : List AVFrame) (p : Nat) : List UInt8 := fs.flatMap fun f => content f p

@[simp] theorem contents_nil (p : Nat) : contents [] p = [] := rfl

@[simp] theorem contents_cons (f : AVFrame) (fs : List AVFrame) (p : Nat) :
    contents (f :: fs) p = content f p ++ contents fs p := List.flatMap_cons

@[simp] theorem contents_append (fs gs : List AVFrame) (p : Nat) :
    contents (fs ++ gs) p = contents fs p ++ contents gs p := List.flatMap_append

structure Sound (fmt : SampleFormat) (f : AVFrame) : Prop where
  format : f.format = fmt
  inside : ∀ p < fmt.planes, f.offset + f.nbSamples * fmt.block ≤ (f.planes p).length

structure Moved (st st' : FrameStream) : Prop where
  sent : st'.samplesSent = st.samplesSent
  frames : st'.framesSent = st.framesSent
  limit : st'.framesMax = st.framesMax
  size : st'.frameSamples = st.frameSamples
  queued : st.samplesQueued = samplesIn st.fifo → st'.samplesQueued = samplesIn st'.fifo
  positive : (∀ f ∈ st.fifo, 0 < f.nbSamples) → ∀ f ∈ st'.fifo, 0 < f.nbSamples

theorem Moved.refl (st : FrameStream) : Moved st st := ⟨rfl, rfl, rfl, rfl, id, id⟩

theorem Moved.trans {st st' st'' : FrameStream} (h : Moved st st') (g : Moved st' st'') :
    Moved st st'' where
  sent := g.sent.trans h.sent
  frames := g.frames.trans h.frames
  limit := g.limit.trans h.limit
  size := g.size.trans h.size
  queued hq := g.queued (h.queued hq)
  positive hp := g.positive (h.positive hp)

/-- Samples go from the stream to a frame: none is lost, doubled or moved. -/
structure Pours (dst : AVFrame) (st : FrameStream) (dst' : AVFrame) (st' : FrameStream) : Prop
    extends Moved st st' where
  total : dst'.nbSamples + samplesIn st'.fifo = dst.nbSamples + samplesIn st.fifo
  sound : ∀ fmt, Sound fmt dst → (∀ f ∈ st.fifo, Sound fmt f) →
    Sound fmt dst' ∧ ∀ f ∈ st'.fifo, Sound fmt f
  order : ∀ fmt, Sound fmt dst → (∀ f ∈ st.fifo, Sound fmt f) → ∀ p < fmt.planes,
    content dst' p ++ contents st'.fifo p = content dst p ++ contents st.fifo p

theorem Pours.refl (dst : AVFrame) (st : FrameStream) : Pours dst st dst st :=
  ⟨Moved.refl st, rfl, fun _ hd hs => ⟨hd, hs⟩, fun _ _ _ _ _ => rfl⟩

theorem Pours.trans {d d' d'' : AVFrame} {st st' st'' : FrameStream} (h : Pours d st d' st')
    (g : Pours d' st' d'' st'') : Pours d st d'' st'' where
  toMoved := h.toMoved.trans g.toMoved
  total := g.total.trans h.total
  sound fmt hd hs := by
    obtain ⟨hd', hs'⟩ := h.sound fmt hd hs
    exact g.sound fmt hd' hs'
  order fmt hd hs p hp := by
    obtain ⟨hd', hs'⟩ := h.sound fmt hd hs
    exact (g.order fmt hd' hs' p hp).trans (h.order fmt hd hs p hp)

section Cut

variable {f g : AVFrame} {n : Nat} {fmt : SampleFormat}

theorem offsetAudio_eq (h : offsetAudio f n = some g) :
    n < f.nbSamples ∧ g.format = f.format ∧ g.planes = f.planes ∧
      g.offset = f.offset + n * f.format.block ∧ g.nbSamples = f.nbSamples - n := by
  simp only [offsetAudio] at h
  split at h
  · cases h
  · next hbad =>
      obtain rfl := Option.some.inj h
      exact ⟨by omega, rfl, rfl, rfl, rfl⟩

theorem offsetAudio_sound (h : offsetAudio f n = some g) (hf : Sound fmt f) : Sound fmt g := by
  obtain ⟨hlt, hformat, hplanes, hoffset, hsamples⟩ := offsetAudio_eq h
  refine ⟨hformat.trans hf.format, fun p hp => ?_⟩
  have hinside := hf.inside p hp
  have hsplit : n * fmt.block + (f.nbSamples - n) * fmt.block = f.nbSamples * fmt.block := by
    rw [← Nat.add_mul, Nat.add_sub_cancel' hlt.le]
  rw [hplanes, hoffset, hsamples, hf.format]
  omega

theorem offsetAudio_content (h : offsetAudio f n = some g) (p : Nat) :
    ((f.planes p).drop f.offset).take (n * f.format.block) ++ content g p = content f p := by
  obtain ⟨hlt, hformat, hplanes, hoffset, hsamples⟩ := offsetAudio_eq h
  have hsplit : f.nbSamples * f.format.block =
      n * f.format.block + (f.nbSamples - n) * f.format.block := by
    rw [← Nat.add_mul, Nat.add_sub_cancel' hlt.le]
  rw [content, content, hformat, hplanes, hoffset, hsamples, hsplit, List.take_add, List.drop_drop]

structure Leaves (st : FrameStream) (src : AVFrame) (n : Nat) (st' : FrameStream) : Prop
    extends Moved st st' where
  first : src ∈ st.fifo
  count : n ≤ src.nbSamples
  total : n + samplesIn st'.fifo = samplesIn st.fifo
  sound : ∀ fmt, (∀ f ∈ st.fifo, Sound fmt f) → ∀ f ∈ st'.fifo, Sound fmt f
  order : ∀ p, ((src.planes p).drop src.offset).take (n * src.format.block) ++ contents st'.fifo p =
    contents st.fifo p

variable {st : FrameStream} {rest : List AVFrame}

theorem leaves_cut (hfifo : st.fifo = f :: rest) (hcut : offsetAudio f n = some g) :
    Leaves st f n { st with fifo := g :: rest, samplesQueued := st.samplesQueued - n } := by
  obtain ⟨hlt, _, _, _, hsamples⟩ := offsetAudio_eq hcut
  have hfirst : f ∈ st.fifo := hfifo ▸ List.mem_cons_self
  refine { sent := rfl, frames := rfl, limit := rfl, size := rfl, queued := ?_, positive := ?_,
           first := hfirst, count := hlt.le, total := ?_, sound := ?_, order := ?_ }
  · intro hq
    simp only [hfifo, samplesIn_cons, hsamples] at hq ⊢
    omega
  · intro hp d hd
    obtain rfl | hd := List.mem_cons.mp hd
    · omega
    · exact hp d (hfifo ▸ List.mem_cons_of_mem f hd)
  · simp only [hfifo, samplesIn_cons, hsamples]
    omega
  · intro fmt hs d hd
    obtain rfl | hd := List.mem_cons.mp hd
    · exact offsetAudio_sound hcut (hs f hfirst)
    · exact hs d (hfifo ▸ List.mem_cons_of_mem f hd)
  · intro p
    rw [hfifo, contents_cons, contents_cons, ← offsetAudio_content hcut p, List.append_assoc]

theorem leaves_whole (hfifo : st.fifo = f :: rest) : Leaves st f f.nbSamples
      { st with fifo := rest, samplesQueued := st.samplesQueued - f.nbSamples } := by
  refine { sent := rfl, frames := rfl, limit := rfl, size := rfl, queued := ?_, positive := ?_,
           first := hfifo ▸ List.mem_cons_self, count := Nat.le_refl _, total := ?_, sound := ?_,
           order := ?_ }
  · intro hq
    simp only [hfifo, samplesIn_cons] at hq ⊢
    omega
  · exact fun hp d hd => hp d (hfifo ▸ List.mem_cons_of_mem f hd)
  · simp only [hfifo, samplesIn_cons]
  · exact fun fmt hs d hd => hs d (hfifo ▸ List.mem_cons_of_mem f hd)
  · intro p
    rw [hfifo, contents_cons, content]

end Cut

section Fill

variable {dst src dst' : AVFrame} {st st' : FrameStream} {rest : List AVFrame} {n rounds : Nat}

theorem samplesCopy_eq (h : samplesCopy dst src n = some dst') {fmt : SampleFormat}
    (hdst : Sound fmt dst) (hstart : dst.offset = 0) (hsrc : src.format = fmt) :
    Sound fmt dst' ∧ ∀ p < fmt.planes, content dst' p =
      content dst p ++ ((src.planes p).drop src.offset).take (n * src.format.block) := by
  simp only [samplesCopy] at h
  split at h
  · next hinside =>
      obtain rfl := Option.some.inj h
      rw [hdst.format] at hinside
      have hlengths : ∀ p < fmt.planes,
          ((dst.planes p).take (dst.nbSamples * dst.format.block)).length =
              dst.nbSamples * fmt.block ∧
            (((src.planes p).drop src.offset).take (n * dst.format.block)).length =
              n * fmt.block := by
        intro p hp
        have hd := hdst.inside p hp
        have hs := hinside p hp
        rw [hdst.format, List.length_take, List.length_take, List.length_drop]
        omega
      refine ⟨⟨hdst.format, fun p hp => ?_⟩, fun p hp => ?_⟩
      · obtain ⟨hd, hs⟩ := hlengths p hp
        dsimp only
        rw [List.length_append, hd, hs, hstart, Nat.zero_add, Nat.add_mul]
      · obtain ⟨hd, hs⟩ := hlengths p hp
        simp only [content, hstart, List.drop_zero]
        rw [List.take_of_length_le, hsrc, hdst.format]
        rw [List.length_append, hd, hs, hdst.format, Nat.add_mul]
  · cases h

theorem samplesCopy_samples (h : samplesCopy dst src n = some dst') :
    dst'.nbSamples = dst.nbSamples + n ∧ dst'.offset = dst.offset := by
  simp only [samplesCopy] at h
  split at h
  · obtain rfl := Option.some.inj h
    exact ⟨rfl, rfl⟩
  · cases h

theorem Leaves.pours (h : Leaves st src n st') (hstart : dst.offset = 0)
    (hcopy : samplesCopy dst src n = some dst') : Pours dst st dst' st' where
  toMoved := h.toMoved
  total := by
    have htotal := h.total
    have hcount := (samplesCopy_samples hcopy).1
    omega
  sound fmt hd hs :=
    ⟨(samplesCopy_eq hcopy hd hstart (hs src h.first).format).1, h.sound fmt hs⟩
  order fmt hd hs p hp := by
    rw [(samplesCopy_eq hcopy hd hstart (hs src h.first).format).2 p hp, List.append_assoc, h.order]

theorem fillFrame_pours (h : fillFrame n rounds dst st = some (dst', st')) (hstart : dst.offset = 0)
    (hle : dst.nbSamples ≤ n) : Pours dst st dst' st' ∧ dst'.nbSamples = n := by
  induction rounds generalizing dst st with
  | zero => cases h
  | succ rounds ih =>
      rw [fillFrame] at h
      by_cases hmore : dst.nbSamples < n
      · rw [if_pos hmore] at h
        cases hfifo : st.fifo with
        | nil =>
            rw [hfifo] at h
            cases h
        | cons src rest =>
            rw [hfifo] at h
            obtain ⟨dst1, hcopy, h⟩ := Option.bind_eq_some_iff.mp h
            obtain ⟨hcount, hoffset⟩ := samplesCopy_samples hcopy
            split at h
            · obtain ⟨src1, hcut, h⟩ := Option.bind_eq_some_iff.mp h
              obtain ⟨hrest, hn⟩ := ih h (hoffset.trans hstart) (by omega)
              exact ⟨((leaves_cut hfifo hcut).pours hstart hcopy).trans hrest, hn⟩
            · next hwhole =>
                have hall : min (n - dst.nbSamples) src.nbSamples = src.nbSamples := by omega
                rw [hall] at hcopy h
                obtain ⟨hrest, hn⟩ := ih h (hoffset.trans hstart) (by omega)
                exact ⟨((leaves_whole hfifo).pours hstart hcopy).trans hrest, hn⟩
      · rw [if_neg hmore] at h
        obtain ⟨rfl, rfl⟩ := Prod.mk.inj (Option.some.inj h)
        exact ⟨Pours.refl dst st, by omega⟩

end Fill

section Release

variable {st st' : FrameStream} {frame : AVFrame} {n alignMask : Nat}

structure Takes (st : FrameStream) (frame : AVFrame) (st' : FrameStream) : Prop
    extends Moved st st' where
  total : frame.nbSamples + samplesIn st'.fifo = samplesIn st.fifo
  sound : ∀ fmt, (∀ f ∈ st.fifo, Sound fmt f) → Sound fmt frame ∧ ∀ f ∈ st'.fifo, Sound fmt f
  order : ∀ fmt, (∀ f ∈ st.fifo, Sound fmt f) → ∀ p < fmt.planes,
    content frame p ++ contents st'.fifo p = contents st.fifo p

theorem Leaves.takes {src : AVFrame} (h : Leaves st src n st') (duration : Int) :
    Takes st { src with nbSamples := n, duration := duration } st' where
  toMoved := h.toMoved
  total := h.total
  sound fmt hs := by
    have hsrc := hs src h.first
    refine ⟨⟨hsrc.format, fun p hp => ?_⟩, h.sound fmt hs⟩
    have hinside := hsrc.inside p hp
    have hless : n * fmt.block ≤ src.nbSamples * fmt.block := Nat.mul_le_mul_right _ h.count
    dsimp only
    omega
  order _ _ p _ := h.order p

theorem Pours.takes {blank dst : AVFrame} (h : Pours blank st dst st') (hblank : blank.nbSamples = 0)
    (hplanes : ∀ fmt, (∀ f ∈ st.fifo, Sound fmt f) → Sound fmt blank) (duration : Int) :
    Takes st { dst with duration := duration } st' where
  toMoved := h.toMoved
  total := by
    have htotal := h.total
    dsimp only
    omega
  sound fmt hs := by
    obtain ⟨hd, hs'⟩ := h.sound fmt (hplanes fmt hs) hs
    exact ⟨⟨hd.format, hd.inside⟩, hs'⟩
  order fmt hs p hp := by
    have horder := h.order fmt (hplanes fmt hs) hs p hp
    have hempty : content blank p = [] := by rw [content, hblank, Nat.zero_mul, List.take_zero]
    rw [hempty, List.nil_append] at horder
    exact horder

theorem blankLike_sound {src : AVFrame} {memory : FrameMemory} {fmt : SampleFormat}
    (h : src.format = fmt) : Sound fmt (src.blankLike memory) :=
  ⟨h, fun p _ => by simp only [AVFrame.blankLike, Nat.zero_mul, List.length_nil, Nat.le_refl]⟩

theorem receiveSamples_takes {memory : FrameMemory} {ret : Int} {out : Option AVFrame}
    (h : receiveSamples alignMask st n memory = some (ret, out, st')) :
    (ret = averrorEnomem ∧ out = none ∧ st' = st) ∨
      ret = 0 ∧ ∃ g, out = some g ∧ Takes st g st' ∧ g.nbSamples = n := by
  rw [receiveSamples] at h
  split at h
  · cases h
  · cases hfifo : st.fifo with
    | nil =>
        rw [hfifo] at h
        cases h
    | cons src rest =>
        rw [hfifo] at h
        obtain ⟨reference, _, h⟩ := Option.bind_eq_some_iff.mp h
        cases reference with
        | true =>
            rw [if_pos rfl] at h
            split at h
            · obtain ⟨rfl, rfl, rfl⟩ := h
              exact .inl ⟨rfl, rfl, rfl⟩
            · obtain ⟨left, hcut, h⟩ := Option.bind_eq_some_iff.mp h
              obtain ⟨rfl, rfl, rfl⟩ := h
              exact .inr ⟨rfl, _, rfl, (leaves_cut hfifo hcut).takes _, rfl⟩
        | false =>
            rw [if_neg Bool.false_ne_true] at h
            split at h
            · obtain ⟨rfl, rfl, rfl⟩ := h
              exact .inl ⟨rfl, rfl, rfl⟩
            · obtain ⟨⟨dst, st1⟩, hfill, h⟩ := Option.bind_eq_some_iff.mp h
              obtain ⟨rfl, rfl, rfl⟩ := h
              obtain ⟨hpours, hn⟩ := fillFrame_pours hfill rfl (Nat.zero_le n)
              refine .inr ⟨rfl, _, rfl, hpours.takes rfl (fun fmt hs => ?_) _, hn⟩
              exact blankLike_sound (hs src (hfifo ▸ List.mem_cons_self)).format

end Release

section Receive

variable {sq : FrameQueue} {i : Nat} {memory : FrameMemory} {received : FrameReceived}

theorem FrameQueue.set_self (sq : FrameQueue) (i : Nat) : sq.set i (sq.streams i) = sq := by
  rw [FrameQueue.set, Function.update_eq_self]

structure Taken (sq : FrameQueue) (i : Nat) (g : AVFrame) (st' : FrameStream) : Prop where
  nonempty : (sq.streams i).fifo ≠ []
  ready : (sq.streams i).frameSamples ≤ (sq.streams i).samplesQueued ∨ sq.Finished i
  takes : Takes (sq.streams i) g st'
  size : nextSamples sq i ≠ 0 ∧ g.nbSamples = nextSamples sq i ∨
    nextSamples sq i = 0 ∧ (sq.streams i).fifo = g :: st'.fifo

theorem releaseFrame_taken {peek : AVFrame} {rest : List AVFrame} (hfifo : (sq.streams i).fifo = peek :: rest)
    (hready : (sq.streams i).frameSamples ≤ (sq.streams i).samplesQueued ∨ sq.Finished i)
    (h : releaseFrame sq i peek rest memory = some received) : received = ⟨averrorEnomem, none, sq⟩ ∨
      ∃ g st', received = ⟨0, some g, sq.set i st'⟩ ∧ Taken sq i g st' := by
  have hnonempty : (sq.streams i).fifo ≠ [] := hfifo ▸ List.cons_ne_nil peek rest
  obtain ⟨regroup, hregroup, h⟩ := Option.bind_eq_some_iff.mp h
  cases regroup with
  | true =>
      rw [if_pos rfl] at h
      obtain ⟨⟨ret, out, st'⟩, hreceive, h⟩ := Option.bind_eq_some_iff.mp h
      obtain rfl := Option.some.inj h
      obtain ⟨rfl, rfl, rfl⟩ | ⟨rfl, g, rfl, htakes, hsize⟩ := receiveSamples_takes hreceive
      · exact .inl (by rw [FrameQueue.set_self])
      · refine .inr ⟨g, st', rfl, hnonempty, hready, htakes, .inl ⟨fun hzero => ?_, hsize⟩⟩
        rw [mustRegroup, if_pos hzero] at hregroup
        cases hregroup
  | false =>
      rw [if_neg Bool.false_ne_true] at h
      split at h
      · cases h
      · obtain rfl := Option.some.inj h
        refine .inr ⟨peek, _, rfl, hnonempty, hready, (leaves_whole hfifo).takes _, ?_⟩
        by_cases hzero : nextSamples sq i = 0
        · exact .inr ⟨hzero, hfifo⟩
        · rw [mustRegroup, if_neg hzero] at hregroup
          split at hregroup
          · cases hregroup
          · next hsame => exact .inl ⟨hzero, (not_not.mp hsame).symm⟩

theorem noFrameFor_ret (sq : FrameQueue) (i : Nat) : (noFrameFor sq i).ret < 0 := by
  simp only [noFrameFor]
  split <;> decide

theorem receiveFrameFor_taken (h : receiveFrameFor sq i memory = some received) :
    (∃ ret < 0, received = ⟨ret, none, sq⟩) ∨
      ∃ g st', received = ⟨0, some g, sq.set i st'⟩ ∧ Taken sq i g st' := by
  have hnothing : ∀ r, some (noFrameFor sq i) = some r → ∃ ret < 0, r = ⟨ret, none, sq⟩ := by
    intro r hr
    obtain rfl := Option.some.inj hr
    exact ⟨_, noFrameFor_ret sq i, rfl⟩
  simp only [receiveFrameFor] at h
  cases hfifo : (sq.streams i).fifo with
  | nil =>
      rw [hfifo] at h
      exact .inl (hnothing _ h)
  | cons peek rest =>
      rw [hfifo] at h
      dsimp only at h
      split at h
      · next hready =>
          obtain rfl | htaken := releaseFrame_taken hfifo hready.1 h
          · exact .inl ⟨_, by decide, rfl⟩
          · exact .inr htaken
      · exact .inl (hnothing _ h)

theorem receiveAnyFrame_taken {is : List Nat} {nbEof : Nat}
    (h : receiveAnyFrame sq memory is nbEof = some received) : (∃ ret < 0, received = ⟨ret, none, sq⟩) ∨
      ∃ i ∈ is, ∃ g st', received = ⟨i, some g, sq.set i st'⟩ ∧ Taken sq i g st' := by
  induction is generalizing nbEof with
  | nil =>
      obtain rfl := Option.some.inj h
      refine .inl ⟨_, ?_, rfl⟩
      split <;> decide
  | cons i is ih =>
      obtain ⟨first, hfirst, h⟩ := Option.bind_eq_some_iff.mp h
      split at h
      · exact (ih h).imp id fun ⟨j, hj, hrest⟩ => ⟨j, List.mem_cons_of_mem i hj, hrest⟩
      · obtain ⟨ret, hret, rfl⟩ | ⟨g, st', rfl, htaken⟩ := receiveFrameFor_taken hfirst
        · rw [if_pos hret] at h
          obtain rfl := Option.some.inj h
          exact .inl ⟨ret, hret, rfl⟩
        · rw [if_neg (lt_irrefl 0)] at h
          obtain rfl := Option.some.inj h
          exact .inr ⟨i, List.mem_cons_self, g, st', rfl, htaken⟩

theorem receiveFrameInternal_taken {streamIdx : Option Nat} (hidx : ∀ i ∈ streamIdx, i < sq.timing.nbStreams)
    (h : receiveFrameInternal sq memory streamIdx = some received) :
    (∃ ret < 0, received = ⟨ret, none, sq⟩) ∨ ∃ i < sq.timing.nbStreams, ∃ g st',
      received = ⟨i, some g, sq.set i st'⟩ ∧ Taken sq i g st' := by
  cases streamIdx with
  | none =>
      refine (receiveAnyFrame_taken h).imp id ?_
      rintro ⟨i, hi, hrest⟩
      exact ⟨i, List.mem_range.mp hi, hrest⟩
  | some i =>
      obtain ⟨first, hfirst, rfl⟩ := Option.map_eq_some_iff.mp h
      obtain ⟨ret, hret, rfl⟩ | ⟨g, st', rfl, htaken⟩ := receiveFrameFor_taken hfirst
      · rw [if_pos hret]
        exact .inl ⟨ret, hret, rfl⟩
      · rw [if_neg (lt_irrefl 0)]
        exact .inr ⟨i, hidx i rfl, g, st', rfl, htaken⟩

structure Beaten (sq turn : FrameQueue) : Prop where
  streams : turn.streams = sq.streams
  align : turn.alignMask = sq.alignMask
  timing : Kept sq.timing turn.timing

theorem Beaten.refl (sq : FrameQueue) : Beaten sq sq := ⟨rfl, rfl, Kept.refl sq.timing⟩

theorem frameHeartbeat_beaten (sq : FrameQueue) (streamIdx : Option Nat) :
    Beaten sq (frameHeartbeat sq streamIdx).2 := by
  rw [frameHeartbeat]
  split
  · exact .refl sq
  · dsimp only
    split
    · exact .refl sq
    · exact ⟨rfl, rfl, beats_kept _ _ _ sq.timing⟩

theorem frameReceive_taken {streamIdx : Option Nat} (hidx : ∀ i ∈ streamIdx, i < sq.timing.nbStreams)
    (h : frameReceive sq streamIdx memory = some received) :
    ∃ turn, Beaten sq turn ∧ ((∃ ret < 0, received = ⟨ret, none, turn⟩) ∨
      ∃ i < turn.timing.nbStreams, ∃ g st',
        received = ⟨i, some g, turn.set i st'⟩ ∧ Taken turn i g st') := by
  obtain ⟨first, hfirst, h⟩ := Option.bind_eq_some_iff.mp h
  have hgot := receiveFrameInternal_taken hidx hfirst
  split at h
  · next hagain =>
      -- a frame is not followed by a second try
      obtain ⟨ret, hret, rfl⟩ | ⟨i, _, g, st', rfl, _⟩ := hgot
      · dsimp only at h
        have hbeaten := frameHeartbeat_beaten sq streamIdx
        split at h
        · refine ⟨_, hbeaten, receiveFrameInternal_taken (fun i hi => ?_) h⟩
          rw [hbeaten.timing.nbStreams]
          exact hidx i hi
        · obtain rfl := Option.some.inj h
          exact ⟨_, hbeaten, .inl ⟨ret, hret, rfl⟩⟩
      · simp only [averrorEagain] at hagain
        omega
  · obtain rfl := Option.some.inj h
    exact ⟨sq, .refl sq, hgot⟩

end Receive

end P2PFFmpeg.Tools
