import P2PFFmpeg.Util.Error
import P2PFFmpeg.Util.Rescale

namespace P2PFFmpeg.Encoder

open Util

structure AVCodecContext where
  timeBase : AVRational
  sampleRate : Int
  initialPadding : Int

structure AVFrame where
  pts : Int
  nbSamples : Int

structure AudioFrame where
  pts : Int
  duration : Int

/-- The slots that have been written, of which only the first frameCount are in use; no slot
stands for a pointer that is NULL. -/
structure AudioFrameQueue where
  remainingDelay : Int
  remainingSamples : Int
  frames : List AudioFrame
  frameCount : Nat
  frameAlloc : Nat

/-- A sum of ints; nothing when it overflows. -/
def int (x : Int) : Option Int := if int32Min ≤ x ∧ x ≤ int32Max then some x else none

def ffAfQueueInit (avctx : AVCodecContext) : AudioFrameQueue where
  remainingDelay := avctx.initialPadding
  remainingSamples := avctx.initialPadding
  frames := []
  frameCount := 0
  frameAlloc := 0

def ffSamplesToTimeBase (avctx : AVCodecContext) (samples : Int) : Int :=
  if samples = avNoptsValue then avNoptsValue
  else avRescaleQ samples ⟨1, avctx.sampleRate⟩ avctx.timeBase

/-- The size that an array of some size has after av_fast_realloc; ok tells whether memory can be had. -/
def avFastRealloc (ok : Bool) (size minSize : Nat) : Option Nat :=
  if minSize ≤ size then some size
  else if ok = false ∨ 2147483647 < minSize then none
  else some (min 2147483647 (max (minSize + minSize / 16 + 32) minSize))

def framePts (avctx : AVCodecContext) (delay : Int) (f : AVFrame) : Option Int :=
  if f.pts ≠ avNoptsValue then int64 (avRescaleQ f.pts avctx.timeBase ⟨1, avctx.sampleRate⟩ - delay)
  else some avNoptsValue

def ffAfQueueAdd (avctx : AVCodecContext) (ok : Bool) (afq : AudioFrameQueue) (f : AVFrame) :
    Option (Int × AudioFrameQueue) :=
  match avFastRealloc ok afq.frameAlloc (16 * (afq.frameCount + 1)) with
  | none => some (averrorEnomem, { afq with frameAlloc := 0 })
  | some alloc => do
      let duration ← int (f.nbSamples + afq.remainingDelay)
      let pts ← framePts avctx afq.remainingDelay f
      let samples ← int (afq.remainingSamples + f.nbSamples)
      some (0, {
        remainingDelay := 0
        remainingSamples := samples
        frames := afq.frames.take afq.frameCount ++ ⟨pts, duration⟩ :: afq.frames.drop (afq.frameCount + 1)
        frameCount := afq.frameCount + 1
        frameAlloc := alloc })

def advance (f : AudioFrame) (n : Int) : Option Int :=
  if f.pts ≠ avNoptsValue then int64 (f.pts + n) else some f.pts

def takeSamples : List AudioFrame → Int → Int → Option (List AudioFrame × Int × Int × Nat)
  | [], nbSamples, removed => some ([], nbSamples, removed, 0)
  | f :: fs, nbSamples, removed =>
      if nbSamples = 0 then some (f :: fs, nbSamples, removed, 0)
      else
        (advance f (min f.duration nbSamples)).bind fun pts =>
          (takeSamples fs (nbSamples - min f.duration nbSamples) (removed + min f.duration nbSamples)).bind
            fun r => some (⟨pts, f.duration - min f.duration nbSamples⟩ :: r.1, r.2.1, r.2.2.1, r.2.2.2 + 1)

def emptied (frames : List AudioFrame) (i : Nat) : Nat :=
  if i ≠ 0 ∧ (frames.getD (i - 1) ⟨0, 0⟩).duration ≠ 0 then i - 1 else i

def moved (frames : List AudioFrame) (i count : Nat) : List AudioFrame :=
  (frames.drop i).take (count - i) ++ frames.drop (count - i)

def advanceFirst (frames : List AudioFrame) (nbSamples : Int) : Option (List AudioFrame) :=
  match frames with
  | [] => some []
  | f :: fs => (advance f nbSamples).map fun pts => ⟨pts, f.duration⟩ :: fs

def outPts (afq : AudioFrameQueue) : Option Int :=
  if afq.frameCount ≠ 0 ∨ afq.frameAlloc ≠ 0 then
    afq.frames.head?.map fun f => if f.pts ≠ avNoptsValue then f.pts else avNoptsValue
  else some avNoptsValue

/-- The slots behind the loop; nothing is a failed assertion or an overflow. -/
def slotsAfter (afq : AudioFrameQueue) (r : List AudioFrame × Int × Int × Nat) : Option (List AudioFrame) :=
  let i := emptied r.1 r.2.2.2
  let frames := moved (r.1 ++ afq.frames.drop afq.frameCount) i afq.frameCount
  if r.2.1 ≠ 0 then
    if afq.frameCount - i ≠ 0 then none
    else if afq.remainingSamples - r.2.2.1 ≠ afq.remainingDelay then none
    else advanceFirst frames r.2.1
  else some frames

/-- The timestamp and the duration of the packet come with the queue. -/
def ffAfQueueRemove (avctx : AVCodecContext) (afq : AudioFrameQueue) (nbSamples : Int) :
    Option (AudioFrameQueue × Int × Int) := do
  let out ← outPts afq
  let r ← takeSamples (afq.frames.take afq.frameCount) nbSamples 0
  let frames ← slotsAfter afq r
  some ({ afq with
    remainingSamples := afq.remainingSamples - r.2.2.1
    frames := frames
    frameCount := afq.frameCount - emptied r.1 r.2.2.2 },
    ffSamplesToTimeBase avctx out, ffSamplesToTimeBase avctx r.2.2.1)

section Rescaling

variable {rate x : Int}

theorem avRescaleQ_same (hrate : 0 < rate) (hmin : int64Min < x) (hmax : x ≤ int64Max) :
    avRescaleQ x ⟨1, rate⟩ ⟨1, rate⟩ = x := by
  have hhalf : (x.natAbs * rate + rate / 2) / rate = x.natAbs := by
    rw [Int.add_comm, Int.add_mul_ediv_right _ _ hrate.ne', Int.ediv_eq_zero_of_lt (by omega) (by omega)]
    omega
  have habove : max x (-int64Max) = x := by
    apply max_eq_left
    simp only [int64Min, int64Max] at hmin ⊢
    omega
  have hfits : ¬ ((x.natAbs : Int) > int64Max) := by
    simp only [int64Min, int64Max] at hmin hmax ⊢
    omega
  have hgood : ¬ (rate ≤ 0 ∨ rate < 0) := by omega
  simp only [avRescaleQ, Int.one_mul, avRescale, if_neg hgood, habove, hhalf, if_neg hfits]
  split <;> omega

end Rescaling

def Contiguous (p : Int) : List AudioFrame → Prop
  | [] => True
  | f :: fs => f.pts = p ∧ 0 < f.duration ∧ Contiguous (p + f.duration) fs

def total (frames : List AudioFrame) : Int := (frames.map AudioFrame.duration).sum

section Taking

variable {frames : List AudioFrame} {p nb removed : Int} {r : List AudioFrame × Int × Int × Nat}

theorem total_nonneg (h : Contiguous p frames) : 0 ≤ total frames := by
  induction frames generalizing p with
  | nil => exact Int.le_refl 0
  | cons f frames ih =>
      have hrest := ih h.2.2
      have hpos := h.2.1
      simp only [total, List.map_cons, List.sum_cons] at hrest ⊢
      omega

theorem total_pos (h : Contiguous p frames) (hne : frames ≠ []) : 0 < total frames := by
  cases frames with
  | nil => exact absurd rfl hne
  | cons f frames =>
      have hrest := total_nonneg h.2.2
      have hpos := h.2.1
      simp only [total, List.map_cons, List.sum_cons] at hrest ⊢
      omega

structure Takes (p nb removed : Int) (frames : List AudioFrame)
    (r : List AudioFrame × Int × Int × Nat) : Prop where
  left : r.2.1 = nb - min nb (total frames)
  removed : r.2.2.1 = removed + min nb (total frames)
  length : r.1.length = frames.length
  emptied : emptied r.1 r.2.2.2 ≤ frames.length
  rest : Contiguous (p + min nb (total frames)) (r.1.drop (Encoder.emptied r.1 r.2.2.2))
  amount : total (r.1.drop (Encoder.emptied r.1 r.2.2.2)) = total frames - min nb (total frames)
  bounded : (∀ f ∈ frames, f.pts ≤ int64Max) → ∀ f ∈ r.1, f.pts ≤ int64Max

theorem advance_pts {f : AudioFrame} {n x : Int} (h : advance f n = some x) (hpts : f.pts ≠ avNoptsValue) :
    x = f.pts + n ∧ x ≤ int64Max := by
  rw [advance, if_pos hpts, int64] at h
  split at h
  · next hfits =>
      obtain rfl := Option.some.inj h
      exact ⟨rfl, hfits.2⟩
  · cases h

theorem takes_nothing (h : Contiguous p frames) : Takes p 0 removed frames (frames, 0, removed, 0) := by
  have hmin : min 0 (total frames) = 0 := min_eq_left (total_nonneg h)
  have hemptied : emptied frames 0 = 0 := if_neg fun hne => hne.1 rfl
  refine ⟨by rw [hmin]; rfl, by rw [hmin, Int.add_zero], rfl, ?_, ?_, ?_, fun hb => hb⟩
  · rw [hemptied]
    exact Nat.zero_le _
  · rw [hemptied, hmin, Int.add_zero]
    exact h
  · rw [hemptied, hmin, Int.sub_zero]
    rfl

theorem emptied_cons (f : AudioFrame) (fs : List AudioFrame) (i : Nat)
    (hf : i = 0 → f.duration = 0) : emptied (f :: fs) (i + 1) = emptied fs i + 1 := by
  unfold emptied
  cases i with
  | zero => simp [hf rfl]
  | succ i =>
      simp only [Nat.add_sub_cancel, List.getD_cons_succ, ne_eq, Nat.succ_ne_zero, not_false_eq_true,
        true_and]
      split <;> rfl

theorem takeSamples_takes (hp : int64Min < p) (hnb : 0 ≤ nb) (h : Contiguous p frames)
    (hr : takeSamples frames nb removed = some r) : Takes p nb removed frames r := by
  induction frames generalizing p nb removed r with
  | nil =>
      obtain rfl := Option.some.inj hr
      have hmin : min nb (total []) = 0 := min_eq_right hnb
      refine ⟨by rw [hmin, Int.sub_zero], by rw [hmin, Int.add_zero], rfl, Nat.le_refl 0, trivial, ?_, fun hb => hb⟩
      rw [hmin]
      rfl
  | cons f frames ih =>
      rw [takeSamples] at hr
      split at hr
      · next hzero =>
          obtain rfl := Option.some.inj hr
          subst hzero
          exact takes_nothing h
      · next hne =>
          obtain ⟨pts, hpts, hr⟩ := Option.bind_eq_some_iff.mp hr
          obtain ⟨r, hrest, hr⟩ := Option.bind_eq_some_iff.mp hr
          obtain rfl := Option.some.inj hr
          obtain ⟨hfirst, hpos, hcontiguous⟩ := h
          have hnopts : f.pts ≠ avNoptsValue := by
            rw [hfirst]
            exact hp.ne'
          obtain ⟨hx, hbound⟩ := advance_pts hpts hnopts
          have hsum : total (f :: frames) = f.duration + total frames := rfl
          have hnonneg := total_nonneg hcontiguous
          by_cases hpart : nb < f.duration
          · -- the frame is not emptied, and nothing is left to take
            have hmin : min f.duration nb = nb := min_eq_right hpart.le
            have htotal : min nb (total (f :: frames)) = nb := min_eq_left (by omega)
            rw [hmin] at hrest hx ⊢
            have hstop : r = (frames, nb - nb, removed + nb, 0) := by
              cases frames with
              | nil => exact (Option.some.inj hrest).symm
              | cons g frames =>
                  rw [takeSamples, if_pos (Int.sub_self nb)] at hrest
                  exact (Option.some.inj hrest).symm
            subst hstop
            have hemptied : emptied (⟨pts, f.duration - nb⟩ :: frames) 1 = 0 := by
              have hleft : f.duration - nb ≠ 0 := (Int.sub_pos.mpr hpart).ne'
              exact if_pos ⟨Nat.one_ne_zero, hleft⟩
            refine ⟨by rw [htotal], by rw [htotal], rfl, ?_, ?_, ?_, ?_⟩
            · exact hemptied.le.trans (Nat.zero_le _)
            · rw [hemptied, htotal]
              refine ⟨by rw [hx, hfirst], Int.sub_pos.mpr hpart, ?_⟩
              change Contiguous (p + nb + (f.duration - nb)) frames
              rw [show p + nb + (f.duration - nb) = p + f.duration by omega]
              exact hcontiguous
            · rw [hemptied, htotal]
              change f.duration - nb + total frames = _
              omega
            · intro hb g hg
              rcases List.mem_cons.mp hg with rfl | hg
              · exact hbound
              · exact hb g (List.mem_cons_of_mem _ hg)
          · have hmin : min f.duration nb = f.duration := min_eq_left (by omega)
            rw [hmin] at hrest hx ⊢
            have htakes := ih (by omega) (by omega) hcontiguous hrest
            have htotal : min nb (total (f :: frames)) = f.duration + min (nb - f.duration) (total frames) := by
              omega
            have hemptied : emptied (⟨pts, f.duration - f.duration⟩ :: r.1) (r.2.2.2 + 1) =
                emptied r.1 r.2.2.2 + 1 := emptied_cons _ _ _ fun _ => Int.sub_self _
            refine ⟨?_, ?_, ?_, ?_, ?_, ?_, ?_⟩
            · rw [htakes.left, htotal]
              omega
            · rw [htakes.removed, htotal]
              omega
            · rw [List.length_cons, List.length_cons, htakes.length]
            · rw [hemptied]
              exact Nat.succ_le_succ htakes.emptied
            · rw [hemptied, List.drop_succ_cons, htotal, ← Int.add_assoc]
              exact htakes.rest
            · rw [hemptied, List.drop_succ_cons, htakes.amount, htotal]
              omega
            · intro hb g hg
              rcases List.mem_cons.mp hg with rfl | hg
              · exact hbound
              · exact htakes.bounded (fun d hd => hb d (List.mem_cons_of_mem _ hd)) g hg

theorem takeSamples_first {f : AudioFrame} (hr : takeSamples (f :: frames) nb removed = some r)
    (hnb : nb ≠ 0) (hpts : f.pts ≠ avNoptsValue) :
    ∃ fs, r.1 = ⟨f.pts + min f.duration nb, f.duration - min f.duration nb⟩ :: fs := by
  rw [takeSamples, if_neg hnb] at hr
  obtain ⟨pts, hadvance, hr⟩ := Option.bind_eq_some_iff.mp hr
  obtain ⟨rest, _, hr⟩ := Option.bind_eq_some_iff.mp hr
  obtain rfl := Option.some.inj hr
  obtain ⟨rfl, _⟩ := advance_pts hadvance hpts
  exact ⟨rest.1, rfl⟩

theorem advance_total {f : AudioFrame} {n : Int} (hmin : int64Min ≤ f.pts + n) (hmax : f.pts + n ≤ int64Max) :
    ∃ x, advance f n = some x := by
  unfold advance
  split
  · exact ⟨_, int64_some hmin hmax⟩
  · exact ⟨_, rfl⟩

theorem takeSamples_total (hp : int64Min < p) (hnb : 0 ≤ nb) (h : Contiguous p frames)
    (hfits : p + nb ≤ int64Max) : ∃ r, takeSamples frames nb removed = some r := by
  induction frames generalizing p nb removed with
  | nil => exact ⟨_, rfl⟩
  | cons f frames ih =>
      rw [takeSamples]
      split
      · exact ⟨_, rfl⟩
      · obtain ⟨hfirst, hpos, hcontiguous⟩ := h
        obtain ⟨pts, hpts⟩ := @advance_total f (min f.duration nb) (by omega) (by omega)
        rw [hpts, Option.bind_some]
        by_cases hpart : nb < f.duration
        · have hmin : min f.duration nb = nb := min_eq_right hpart.le
          rw [hmin, Int.sub_self]
          cases frames with
          | nil => exact ⟨_, rfl⟩
          | cons g frames =>
              rw [takeSamples, if_pos rfl]
              exact ⟨_, rfl⟩
        · have hmin : min f.duration nb = f.duration := min_eq_left (by omega)
          rw [hmin]
          obtain ⟨r, hr⟩ := @ih (p + f.duration) (nb - f.duration) (removed + f.duration) (by omega) (by omega)
            hcontiguous (by omega)
          rw [hr, Option.bind_some]
          exact ⟨_, rfl⟩

end Taking

structure Held (p : Int) (stale : Bool) (afq : AudioFrameQueue) : Prop where
  low : int64Min < p
  delay : afq.remainingDelay = 0
  slots : afq.frameCount ≤ afq.frames.length
  alloc : afq.frameAlloc ≠ 0
  live : Contiguous p (afq.frames.take afq.frameCount)
  samples : afq.remainingSamples = total (afq.frames.take afq.frameCount)
  front : ∃ f fs, afq.frames = f :: fs ∧ int64Min < f.pts ∧ f.pts ≤ p ∧ (f.pts = p ↔ stale = false)
  bounded : ∀ f ∈ afq.frames, f.pts ≤ int64Max

section Queue

variable {avctx : AVCodecContext} {ok : Bool} {afq afq' : AudioFrameQueue} {f : AVFrame}
  {p nb pts duration : Int} {stale : Bool}

theorem front_of_live {frames : List AudioFrame} {count : Nat} (h : Contiguous p (frames.take count))
    (hlength : count ≤ frames.length) (hcount : count ≠ 0) : ∃ f fs, frames = f :: fs ∧ f.pts = p := by
  cases frames with
  | nil => exact absurd (Nat.le_zero.mp hlength) hcount
  | cons f fs =>
      obtain ⟨count, rfl⟩ := Nat.exists_eq_succ_of_ne_zero hcount
      exact ⟨f, fs, rfl, h.1⟩

theorem Held.not_stale (h : Held p stale afq) (hcount : afq.frameCount ≠ 0) : stale = false := by
  obtain ⟨f, fs, hframes, _, _, hiff⟩ := h.front
  obtain ⟨g, gs, hg, hpts⟩ := front_of_live h.live h.slots hcount
  obtain rfl : f = g := (List.cons.inj (hframes.symm.trans hg)).1
  exact hiff.mp hpts

theorem avFastRealloc_pos {size minSize alloc : Nat} (hmin : 0 < minSize)
    (h : avFastRealloc ok size minSize = some alloc) : alloc ≠ 0 := by
  unfold avFastRealloc at h
  split at h
  · obtain rfl := Option.some.inj h
    omega
  · split at h
    · cases h
    · obtain rfl := Option.some.inj h
      omega

theorem add_cases (h : ffAfQueueAdd avctx ok afq f = some (0, afq')) :
    ∃ duration pts samples alloc, alloc ≠ 0 ∧ int (f.nbSamples + afq.remainingDelay) = some duration ∧
      framePts avctx afq.remainingDelay f = some pts ∧
      int (afq.remainingSamples + f.nbSamples) = some samples ∧
      afq' = ⟨0, samples, afq.frames.take afq.frameCount ++ ⟨pts, duration⟩ :: afq.frames.drop (afq.frameCount + 1),
        afq.frameCount + 1, alloc⟩ := by
  unfold ffAfQueueAdd at h
  split at h
  · cases h
  · next alloc halloc =>
      obtain ⟨duration, hduration, h⟩ := Option.bind_eq_some_iff.mp h
      obtain ⟨pts, hpts, h⟩ := Option.bind_eq_some_iff.mp h
      obtain ⟨samples, hsamples, h⟩ := Option.bind_eq_some_iff.mp h
      exact ⟨duration, pts, samples, alloc, avFastRealloc_pos (Nat.succ_pos _) halloc, hduration, hpts, hsamples,
        (congrArg Prod.snd (Option.some.inj h)).symm⟩

theorem int_some {x y : Int} (h : int x = some y) : y = x := by
  unfold int at h
  split at h
  · exact (Option.some.inj h).symm
  · cases h

structure AVCodecContext.PerSample (avctx : AVCodecContext) : Prop where
  rate : 0 < avctx.sampleRate
  timeBase : avctx.timeBase = ⟨1, avctx.sampleRate⟩

theorem framePts_eq (htb : avctx.PerSample) {delay x : Int} (hmin : int64Min < f.pts) (hmax : f.pts ≤ int64Max)
    (h : framePts avctx delay f = some x) : x = f.pts - delay ∧ x ≤ int64Max := by
  have hnopts : f.pts ≠ avNoptsValue := hmin.ne'
  rw [framePts, if_pos hnopts, htb.timeBase, avRescaleQ_same htb.rate hmin hmax, int64] at h
  split at h
  · next hfits =>
      obtain rfl := Option.some.inj h
      exact ⟨rfl, hfits.2⟩
  · cases h

theorem contiguous_snoc {frames : List AudioFrame} {x d : Int} (h : Contiguous p frames)
    (hx : x = p + total frames) (hd : 0 < d) : Contiguous p (frames ++ [⟨x, d⟩]) := by
  induction frames generalizing p with
  | nil => exact ⟨by rw [hx]; exact Int.add_zero p, hd, trivial⟩
  | cons g frames ih =>
      refine ⟨h.1, h.2.1, ih h.2.2 ?_⟩
      rw [hx, Int.add_assoc]
      rfl

theorem total_snoc (frames : List AudioFrame) (x d : Int) : total (frames ++ [⟨x, d⟩]) = total frames + d := by
  simp [total]

theorem held_written {x d : Int} (hlow : int64Min < p) (hslots : afq.frameCount ≤ afq.frames.length)
    (hlive : Contiguous p (afq.frames.take afq.frameCount)) (hx : x = p + total (afq.frames.take afq.frameCount))
    (hd : 0 < d) (hxmax : x ≤ int64Max) (hbounded : ∀ g ∈ afq.frames, g.pts ≤ int64Max) {size : Nat}
    (hsize : size ≠ 0) : Held p false ⟨0, total (afq.frames.take afq.frameCount) + d,
      afq.frames.take afq.frameCount ++ ⟨x, d⟩ :: afq.frames.drop (afq.frameCount + 1), afq.frameCount + 1, size⟩ := by
  have hlength : (afq.frames.take afq.frameCount).length = afq.frameCount := by
    rw [List.length_take, Nat.min_eq_left hslots]
  have htake : (afq.frames.take afq.frameCount ++ ⟨x, d⟩ :: afq.frames.drop (afq.frameCount + 1)).take
      (afq.frameCount + 1) = afq.frames.take afq.frameCount ++ [⟨x, d⟩] := by
    rw [List.append_cons, List.take_left' (by rw [List.length_append, hlength]; rfl)]
  have hnew : Contiguous p (afq.frames.take afq.frameCount ++ [⟨x, d⟩]) := contiguous_snoc hlive hx hd
  have hslots' : afq.frameCount + 1 ≤
      (afq.frames.take afq.frameCount ++ ⟨x, d⟩ :: afq.frames.drop (afq.frameCount + 1)).length := by
    rw [List.length_append, hlength, List.length_cons]
    omega
  refine ⟨hlow, rfl, hslots', hsize, ?_, ?_, ?_, ?_⟩
  · rw [htake]
    exact hnew
  · rw [htake, total_snoc]
  · obtain ⟨g, gs, hframes, hpts⟩ := front_of_live (htake.symm ▸ hnew) hslots' (Nat.succ_ne_zero _)
    exact ⟨g, gs, hframes, by omega, hpts.le, by simp [hpts]⟩
  · intro g hg
    rcases List.mem_append.mp hg with hg | hg
    · exact hbounded g (List.mem_of_mem_take hg)
    · rcases List.mem_cons.mp hg with rfl | hg
      · exact hxmax
      · exact hbounded g (List.mem_of_mem_drop hg)

theorem add_held (htb : avctx.PerSample) (h : Held p stale afq) (hnext : f.pts = p + afq.remainingSamples)
    (hnb : 0 < f.nbSamples) (hmax : f.pts ≤ int64Max) (hrun : ffAfQueueAdd avctx ok afq f = some (0, afq')) :
    Held p false afq' ∧ afq'.remainingSamples = afq.remainingSamples + f.nbSamples := by
  obtain ⟨duration, pts, samples, alloc, halloc, hduration, hpts, hsamples, rfl⟩ := add_cases hrun
  have hnonneg := total_nonneg h.live
  have hlow := h.low
  have hheld := h.samples
  obtain ⟨hx, hxmax⟩ := framePts_eq htb (by omega) hmax hpts
  obtain rfl := int_some hduration
  obtain rfl := int_some hsamples
  rw [h.delay, Int.sub_zero] at hx
  subst hx
  rw [h.delay, Int.add_zero]
  refine ⟨?_, rfl⟩
  rw [h.samples]
  exact held_written h.low h.slots h.live (by rw [hnext, h.samples]) hnb hmax h.bounded halloc

theorem add_first (htb : avctx.PerSample) (hpadding : 0 ≤ avctx.initialPadding)
    (hlow : int64Min < f.pts - avctx.initialPadding) (hnb : 0 < f.nbSamples) (hmax : f.pts ≤ int64Max)
    (hrun : ffAfQueueAdd avctx ok (ffAfQueueInit avctx) f = some (0, afq')) :
    Held (f.pts - avctx.initialPadding) false afq' ∧
      afq'.remainingSamples = avctx.initialPadding + f.nbSamples := by
  obtain ⟨duration, pts, samples, alloc, halloc, hduration, hpts, hsamples, rfl⟩ := add_cases hrun
  obtain ⟨rfl, hxmax⟩ := framePts_eq htb (by omega) hmax hpts
  obtain rfl := int_some hduration
  obtain rfl := int_some hsamples
  have hwritten := @held_written (ffAfQueueInit avctx) (f.pts - avctx.initialPadding)
    (f.pts - avctx.initialPadding) (f.nbSamples + avctx.initialPadding) hlow (Nat.le_refl 0) trivial
    (Int.add_zero _).symm (by omega) hxmax nofun alloc halloc
  refine ⟨?_, rfl⟩
  rw [show (ffAfQueueInit avctx).remainingSamples + f.nbSamples =
    total [] + (f.nbSamples + avctx.initialPadding) from (Int.add_comm _ _).trans (Int.zero_add _).symm]
  exact hwritten

def EmptiesSeveral (afq : AudioFrameQueue) (nb : Int) : Prop :=
  2 ≤ afq.frameCount ∧ afq.remainingSamples ≤ nb

instance (afq : AudioFrameQueue) (nb : Int) : Decidable (EmptiesSeveral afq nb) :=
  inferInstanceAs (Decidable (_ ∧ _))

def becomesStale (stale : Bool) (afq : AudioFrameQueue) (nb : Int) : Bool :=
  stale || decide (EmptiesSeveral afq nb)

variable {r : List AudioFrame × Int × Int × Nat}

theorem ffSamplesToTimeBase_same (htb : avctx.PerSample) {x : Int} (hmin : int64Min < x)
    (hmax : x ≤ int64Max) : ffSamplesToTimeBase avctx x = x := by
  have hnopts : x ≠ avNoptsValue := hmin.ne'
  rw [ffSamplesToTimeBase, if_neg hnopts, htb.timeBase, avRescaleQ_same htb.rate hmin hmax]

theorem Held.takes (h : Held p stale afq) (hnb : 0 < nb)
    (hr : takeSamples (afq.frames.take afq.frameCount) nb 0 = some r) :
    Takes p nb 0 (afq.frames.take afq.frameCount) r ∧ r.1.length = afq.frameCount := by
  have htakes := takeSamples_takes h.low hnb.le h.live hr
  refine ⟨htakes, ?_⟩
  rw [htakes.length, List.length_take, Nat.min_eq_left h.slots]

/-- The first slot where the last sample is taken: it is right if only one frame was left, and
behind the time of the next sample if there were more. -/
theorem Held.front_emptied (h : Held p stale afq) (hnb : 0 < nb) (hall : afq.remainingSamples ≤ nb)
    (hr : takeSamples (afq.frames.take afq.frameCount) nb 0 = some r) :
    ∃ g gs, r.1 ++ afq.frames.drop afq.frameCount = g :: gs ∧ int64Min < g.pts ∧
      g.pts + (nb - afq.remainingSamples) ≤ p + nb ∧
      (g.pts + (nb - afq.remainingSamples) = p + nb ↔ becomesStale stale afq nb = false) := by
  obtain ⟨f, fs, hframes, hlow, hle, hiff⟩ := h.front
  have hlive := h.live
  have hsamples := h.samples
  obtain ⟨_, hlength⟩ := h.takes hnb hr
  cases hcount : afq.frameCount with
  | zero =>
      have hnothing : r.1 = [] := List.eq_nil_of_length_eq_zero (hlength.trans hcount)
      have hzero : afq.remainingSamples = 0 := by
        rw [hsamples, hcount]
        rfl
      have hseveral : ¬ EmptiesSeveral afq nb := by
        simp [EmptiesSeveral, hcount]
      refine ⟨f, fs, by rw [hnothing, hframes]; rfl, hlow, by omega, ?_⟩
      rw [becomesStale, decide_eq_false hseveral, Bool.or_false, ← hiff]
      omega
  | succ count =>
      have hfresh := h.not_stale (hcount ▸ Nat.succ_ne_zero count)
      rw [hframes, hcount, List.take_succ_cons] at hr hlive hsamples
      obtain ⟨hpts, hpos, hrest⟩ := hlive
      have htotal : afq.remainingSamples = f.duration + total (fs.take count) := hsamples
      have hnonneg := total_nonneg hrest
      obtain ⟨gs, hg⟩ := takeSamples_first hr hnb.ne' hlow.ne'
      have hmin : min f.duration nb = f.duration := min_eq_left (by omega)
      rw [hmin] at hg
      refine ⟨_, gs ++ afq.frames.drop (count + 1), by rw [hg]; rfl, by change _ < f.pts + f.duration; omega,
        by change f.pts + f.duration + _ ≤ _; omega, ?_⟩
      change f.pts + f.duration + _ = _ ↔ _
      rw [becomesStale, hfresh, Bool.false_or, decide_eq_false_iff_not, EmptiesSeveral, hcount]
      by_cases hone : fs.take count = []
      · have hempty : total (fs.take count) = 0 := by
          rw [hone]
          rfl
        have hcountzero : count = 0 := by
          have hslots := h.slots
          rw [hframes, hcount, List.length_cons] at hslots
          rcases List.take_eq_nil_iff.mp hone with hzero | hnil
          · exact hzero
          · rw [hnil, List.length_nil] at hslots
            omega
        omega
      · have hmore := total_pos hrest hone
        have hcountpos : count ≠ 0 := by
          rintro rfl
          exact hone List.take_zero
        omega

theorem Held.movedSlots (h : Held p stale afq) (hnb : 0 < nb)
    (hr : takeSamples (afq.frames.take afq.frameCount) nb 0 = some r) :
    (moved (r.1 ++ afq.frames.drop afq.frameCount) (emptied r.1 r.2.2.2) afq.frameCount).take
        (afq.frameCount - emptied r.1 r.2.2.2) = r.1.drop (emptied r.1 r.2.2.2) ∧
      (moved (r.1 ++ afq.frames.drop afq.frameCount) (emptied r.1 r.2.2.2) afq.frameCount).length =
        afq.frames.length ∧
      ∀ g ∈ moved (r.1 ++ afq.frames.drop afq.frameCount) (emptied r.1 r.2.2.2) afq.frameCount,
        g.pts ≤ int64Max := by
  obtain ⟨htakes, hlength⟩ := h.takes hnb hr
  have hslots := h.slots
  have hbounded : ∀ g ∈ r.1 ++ afq.frames.drop afq.frameCount, g.pts ≤ int64Max := by
    intro g hg
    rcases List.mem_append.mp hg with hg | hg
    · exact htakes.bounded (fun d hd => h.bounded d (List.mem_of_mem_take hd)) g hg
    · exact h.bounded g (List.mem_of_mem_drop hg)
  have hemptied : emptied r.1 r.2.2.2 ≤ r.1.length := by
    rw [htakes.length]
    exact htakes.emptied
  have hdrop : (r.1.drop (emptied r.1 r.2.2.2)).length = afq.frameCount - emptied r.1 r.2.2.2 := by
    rw [List.length_drop, hlength]
  have hfirst : ((r.1 ++ afq.frames.drop afq.frameCount).drop (emptied r.1 r.2.2.2)).take
      (afq.frameCount - emptied r.1 r.2.2.2) = r.1.drop (emptied r.1 r.2.2.2) := by
    rw [List.drop_append_of_le_length hemptied, List.take_left' hdrop]
  unfold moved
  rw [hfirst]
  refine ⟨List.take_left' hdrop, ?_, ?_⟩
  · rw [List.length_append, hdrop, List.length_drop, List.length_append, hlength, List.length_drop]
    omega
  · intro g hg
    rcases List.mem_append.mp hg with hg | hg
    · exact hbounded g (List.mem_append_left _ (List.mem_of_mem_drop hg))
    · exact hbounded g (List.mem_of_mem_drop hg)

theorem Held.count_emptied (h : Held p stale afq) (hnb : 0 < nb)
    (hr : takeSamples (afq.frames.take afq.frameCount) nb 0 = some r) :
    afq.frameCount - emptied r.1 r.2.2.2 = 0 ↔ afq.remainingSamples ≤ nb := by
  obtain ⟨htakes, hlength⟩ := h.takes hnb hr
  have hamount := htakes.amount
  rw [← h.samples] at hamount
  have hdrop : (r.1.drop (emptied r.1 r.2.2.2)).length = afq.frameCount - emptied r.1 r.2.2.2 := by
    rw [List.length_drop, hlength]
  rw [← hdrop, List.length_eq_zero_iff]
  constructor
  · intro hnil
    rw [hnil] at hamount
    change 0 = _ at hamount
    omega
  · intro hall
    by_contra hne
    have hpos := total_pos htakes.rest hne
    omega

theorem Held.outPts_eq (h : Held p stale afq) :
    ∃ x, outPts afq = some x ∧ int64Min < x ∧ x ≤ int64Max ∧ (x = p ↔ stale = false) := by
  obtain ⟨f, fs, hframes, hlow, hle, hiff⟩ := h.front
  have hnopts : f.pts ≠ avNoptsValue := hlow.ne'
  have hmax := h.bounded f (by rw [hframes]; exact List.mem_cons_self)
  refine ⟨f.pts, ?_, hlow, hmax, hiff⟩
  rw [outPts, if_pos (.inr h.alloc), hframes, List.head?_cons, Option.map_some, if_pos hnopts]

theorem Held.removed (h : Held p stale afq) (hnb : 0 < nb)
    (hr : takeSamples (afq.frames.take afq.frameCount) nb 0 = some r) {frames : List AudioFrame}
    (hframes : slotsAfter afq r = some frames) :
    Held (p + nb) (becomesStale stale afq nb) { afq with
      remainingSamples := afq.remainingSamples - r.2.2.1
      frames := frames
      frameCount := afq.frameCount - emptied r.1 r.2.2.2 } := by
  obtain ⟨htakes, hlength⟩ := h.takes hnb hr
  obtain ⟨hlive, hslots, hbounded⟩ := h.movedSlots hnb hr
  have hcount := h.count_emptied hnb hr
  have hleft := htakes.left
  have hremoved := htakes.removed
  have hamount := htakes.amount
  have hrest := htakes.rest
  have hlow := h.low
  rw [← h.samples] at hleft hremoved hamount hrest
  rw [slotsAfter] at hframes
  by_cases hall : afq.remainingSamples ≤ nb
  · -- the queue is empty, and only its first slot is left to look at
    obtain ⟨g, gs, hg, hglow, hgle, hgiff⟩ := h.front_emptied hnb hall hr
    have hzero := hcount.mpr hall
    have hmoved : moved (r.1 ++ afq.frames.drop afq.frameCount) (emptied r.1 r.2.2.2) afq.frameCount =
        g :: gs := by
      rw [moved, hzero, List.take_zero, List.nil_append, List.drop_zero, hg]
    have hadvanced : ∃ x d, frames = ⟨x, d⟩ :: gs ∧ x = g.pts + (nb - afq.remainingSamples) ∧ x ≤ int64Max := by
      rw [hmoved] at hframes hbounded
      by_cases hexact : r.2.1 = 0
      · rw [if_neg (not_not.mpr hexact)] at hframes
        exact ⟨g.pts, g.duration, (Option.some.inj hframes).symm, by omega, hbounded g List.mem_cons_self⟩
      · rw [if_pos hexact, if_neg (not_not.mpr hzero)] at hframes
        split at hframes
        · cases hframes
        · obtain ⟨x, hx, rfl⟩ := Option.map_eq_some_iff.mp hframes
          have hnopts : g.pts ≠ avNoptsValue := hglow.ne'
          obtain ⟨hxeq, hxmax⟩ := advance_pts hx hnopts
          exact ⟨x, g.duration, rfl, by omega, hxmax⟩
    obtain ⟨x, d, rfl, hx, hxmax⟩ := hadvanced
    rw [hzero]
    refine ⟨by omega, h.delay, Nat.zero_le _, h.alloc, trivial, ?_, ⟨_, gs, rfl, ?_, ?_, ?_⟩, ?_⟩
    · change afq.remainingSamples - r.2.2.1 = 0
      omega
    · change int64Min < x
      omega
    · change x ≤ p + nb
      omega
    · change x = p + nb ↔ _
      rw [hx]
      exact hgiff
    · intro c hc
      rcases List.mem_cons.mp hc with rfl | hc
      · exact hxmax
      · exact hbounded c (by rw [hmoved]; exact List.mem_cons_of_mem _ hc)
  · have hzero : r.2.1 = 0 := by omega
    have hmin : min nb afq.remainingSamples = nb := min_eq_left (by omega)
    have hkept : afq.frameCount - emptied r.1 r.2.2.2 ≠ 0 := fun hnone => hall (hcount.mp hnone)
    have hstale : becomesStale stale afq nb = false := by
      rw [becomesStale, h.not_stale (by omega), Bool.false_or, decide_eq_false_iff_not, EmptiesSeveral]
      omega
    rw [if_neg (not_not.mpr hzero)] at hframes
    obtain rfl := Option.some.inj hframes
    rw [hmin] at hrest hamount hremoved
    have hcontiguous : Contiguous (p + nb) (List.take (afq.frameCount - emptied r.1 r.2.2.2)
        (moved (r.1 ++ afq.frames.drop afq.frameCount) (emptied r.1 r.2.2.2) afq.frameCount)) := by
      rw [hlive]
      exact hrest
    have hfits : afq.frameCount - emptied r.1 r.2.2.2 ≤
        (moved (r.1 ++ afq.frames.drop afq.frameCount) (emptied r.1 r.2.2.2) afq.frameCount).length := by
      rw [hslots]
      exact (Nat.sub_le _ _).trans h.slots
    refine ⟨by omega, h.delay, hfits, h.alloc, hcontiguous, ?_, ?_, hbounded⟩
    · rw [hlive, hamount, hremoved, Int.zero_add]
    · obtain ⟨g, gs, hg, hpts⟩ := front_of_live hcontiguous hfits hkept
      exact ⟨g, gs, hg, by omega, hpts.le, by simp [hpts, hstale]⟩

theorem remove_held (htb : avctx.PerSample) (h : Held p stale afq) (hnb : 0 < nb) (hint : nb ≤ int32Max)
    (hrun : ffAfQueueRemove avctx afq nb = some (afq', pts, duration)) :
    Held (p + nb) (becomesStale stale afq nb) afq' ∧ (pts = p ↔ stale = false) ∧
      duration = min nb afq.remainingSamples ∧
      afq'.remainingSamples = afq.remainingSamples - min nb afq.remainingSamples := by
  obtain ⟨x, hout, hxlow, hxmax, hxiff⟩ := h.outPts_eq
  rw [ffAfQueueRemove] at hrun
  obtain ⟨y, hy, hrun⟩ := Option.bind_eq_some_iff.mp hrun
  obtain rfl := Option.some.inj (hout.symm.trans hy)
  obtain ⟨r, hr, hrun⟩ := Option.bind_eq_some_iff.mp hrun
  obtain ⟨frames, hframes, hrun⟩ := Option.bind_eq_some_iff.mp hrun
  have hremoved := (h.takes hnb hr).1.removed
  have hnonneg := total_nonneg h.live
  rw [← h.samples, Int.zero_add] at hremoved
  rw [← h.samples] at hnonneg
  have hbig : (min nb afq.remainingSamples : Int) ≤ int64Max := by
    simp only [int32Max, int64Max] at hint ⊢
    omega
  have hsmall : int64Min < (min nb afq.remainingSamples : Int) := by
    simp only [int64Min]
    omega
  rw [ffSamplesToTimeBase_same htb hxlow hxmax, hremoved,
    ffSamplesToTimeBase_same htb hsmall hbig] at hrun
  obtain ⟨rfl, rfl, rfl⟩ : _ = afq' ∧ x = pts ∧ _ = duration := by
    simpa only [Option.some.injEq, Prod.mk.injEq] using hrun
  have hheld := h.removed hnb hr hframes
  rw [hremoved] at hheld
  exact ⟨hheld, hxiff, rfl, rfl⟩

theorem remove_total (avctx : AVCodecContext) (h : Held p stale afq) (hnb : 0 < nb)
    (hfits : p + nb ≤ int64Max) : ∃ res, ffAfQueueRemove avctx afq nb = some res := by
  obtain ⟨x, hout, _⟩ := h.outPts_eq
  obtain ⟨r, hr⟩ := @takeSamples_total (afq.frames.take afq.frameCount) p nb 0 h.low hnb.le h.live hfits
  have htakes := (h.takes hnb hr).1
  have hleft := htakes.left
  have hremoved := htakes.removed
  rw [← h.samples] at hleft hremoved
  have hframes : ∃ frames, slotsAfter afq r = some frames := by
    by_cases hzero : r.2.1 = 0
    · exact ⟨_, if_neg (not_not.mpr hzero)⟩
    · have hall : afq.remainingSamples ≤ nb := by omega
      have hnone := (h.count_emptied hnb hr).mpr hall
      have hdelay : afq.remainingSamples - r.2.2.1 = afq.remainingDelay := by
        rw [h.delay]
        omega
      obtain ⟨g, gs, hg, hglow, hgle, _⟩ := h.front_emptied hnb hall hr
      obtain ⟨y, hy⟩ := @advance_total g r.2.1 (by omega) (by omega)
      rw [slotsAfter, if_pos hzero, if_neg (not_not.mpr hnone), if_neg (not_not.mpr hdelay), moved, hnone, List.take_zero,
        List.nil_append, List.drop_zero, hg, advanceFirst, hy]
      exact ⟨_, rfl⟩
  obtain ⟨frames, hframes⟩ := hframes
  simp only [ffAfQueueRemove, hout, hr, hframes, Option.bind_eq_bind, Option.bind_some]
  exact ⟨_, rfl⟩

theorem int_some_of_fits {x : Int} (hmin : int32Min ≤ x) (hmax : x ≤ int32Max) : int x = some x :=
  if_pos ⟨hmin, hmax⟩

theorem add_total (htb : avctx.PerSample) (hdelay : 0 ≤ afq.remainingDelay)
    (hsamples : afq.remainingDelay ≤ afq.remainingSamples) (hnb : 0 < f.nbSamples)
    (hmin : int64Min < f.pts - afq.remainingDelay) (hmax : f.pts ≤ int64Max)
    (hsum : afq.remainingSamples + f.nbSamples ≤ int32Max)
    (hsize : 16 * (afq.frameCount + 1) ≤ 2147483647) : ∃ afq', ffAfQueueAdd avctx true afq f = some (0, afq') := by
  have halloc : ∃ alloc, avFastRealloc true afq.frameAlloc (16 * (afq.frameCount + 1)) = some alloc := by
    unfold avFastRealloc
    split
    · exact ⟨_, rfl⟩
    · have hgood : ¬ (true = false ∨ 2147483647 < 16 * (afq.frameCount + 1)) := by
        rintro (hno | hlarge)
        · cases hno
        · omega
      rw [if_neg hgood]
      exact ⟨_, rfl⟩
  obtain ⟨alloc, halloc⟩ := halloc
  have hlow : int32Min ≤ 0 := by decide
  have hduration := @int_some_of_fits (f.nbSamples + afq.remainingDelay) (by omega) (by omega)
  have htotal := @int_some_of_fits (afq.remainingSamples + f.nbSamples) (by omega) hsum
  have hpts : framePts avctx afq.remainingDelay f = some (f.pts - afq.remainingDelay) := by
    have hnopts : f.pts ≠ avNoptsValue := by
      change f.pts ≠ int64Min
      omega
    rw [framePts, if_pos hnopts, htb.timeBase, avRescaleQ_same htb.rate (by omega) hmax]
    exact int64_some hmin.le (by omega)
  simp only [ffAfQueueAdd, halloc, hduration, hpts, htotal, Option.bind_eq_bind, Option.bind_some]
  exact ⟨_, rfl⟩

end Queue

section Runs

inductive Event
  | add (f : AVFrame)
  | remove (nbSamples pts duration : Int)

/-- The runs of a queue, the last call first: whether the first slot is stale, and whether each
remove was made while it was not. -/
inductive Run (avctx : AVCodecContext) : Bool → Bool → List Event → AudioFrameQueue → Prop
  | init : Run avctx false true [] (ffAfQueueInit avctx)
  | add {stale clean events afq afq' ok} (h : Run avctx stale clean events afq) (f : AVFrame)
      (hrun : ffAfQueueAdd avctx ok afq f = some (0, afq')) : Run avctx false clean (.add f :: events) afq'
  | remove {stale clean events afq afq' pts duration} (h : Run avctx stale clean events afq) (nb : Int)
      (hrun : ffAfQueueRemove avctx afq nb = some (afq', pts, duration)) :
      Run avctx (becomesStale stale afq nb) (clean && !stale) (.remove nb pts duration :: events) afq'

def lastFrame : List Event → Option AVFrame
  | [] => none
  | .add f :: _ => some f
  | .remove .. :: older => lastFrame older

def firstPts : List Event → Option Int
  | [] => none
  | .add f :: older => some ((firstPts older).getD f.pts)
  | .remove .. :: older => firstPts older

def samplesAdded : List Event → Int
  | [] => 0
  | .add f :: older => samplesAdded older + f.nbSamples
  | .remove .. :: older => samplesAdded older

def samplesRemoved : List Event → Int
  | [] => 0
  | .add _ :: older => samplesRemoved older
  | .remove nb _ _ :: older => samplesRemoved older + nb

def durations : List Event → Int
  | [] => 0
  | .add _ :: older => durations older
  | .remove _ _ duration :: older => durations older + duration

/-- Contiguous frames and positive counts, an add before the first remove, and no add behind a
remove that asked for more samples than were queued. -/
def Admissible (padding : Int) : List Event → Prop
  | [] => True
  | .add f :: older =>
      Admissible padding older ∧ 0 < f.nbSamples ∧ f.pts ≤ int64Max ∧
        (∀ g, lastFrame older = some g → f.pts = g.pts + g.nbSamples) ∧
        (lastFrame older = none → int64Min < f.pts - padding) ∧
        samplesRemoved older ≤ padding + samplesAdded older
  | .remove nb _ _ :: older =>
      Admissible padding older ∧ 0 < nb ∧ nb ≤ int32Max ∧ lastFrame older ≠ none

/-- Each remove reports the first timestamp, moved by the padding and by what was removed before. -/
def Continuous (padding : Int) : List Event → Prop
  | [] => True
  | .add _ :: older => Continuous padding older
  | .remove _ pts _ :: older =>
      Continuous padding older ∧ ∀ first, firstPts older = some first →
        pts = first - padding + samplesRemoved older

variable {avctx : AVCodecContext} {padding : Int} {stale clean : Bool} {events : List Event}
  {afq : AudioFrameQueue}

theorem lastFrame_none_iff (events : List Event) : lastFrame events = none ↔ firstPts events = none := by
  induction events with
  | nil => exact ⟨fun _ => rfl, fun _ => rfl⟩
  | cons event events ih =>
      cases event with
      | add f => simp [lastFrame, firstPts]
      | remove => exact ih

theorem events_nil (h : Admissible padding events) (hnone : lastFrame events = none) : events = [] := by
  cases events with
  | nil => rfl
  | cons event events =>
      cases event with
      | add f => cases hnone
      | remove => exact absurd hnone h.2.2.2

theorem lastFrame_end (h : Admissible padding events) {g : AVFrame} {first : Int}
    (hlast : lastFrame events = some g) (hfirst : firstPts events = some first) :
    g.pts + g.nbSamples = first + samplesAdded events := by
  induction events generalizing g first with
  | nil => cases hlast
  | cons event events ih =>
      cases event with
      | add f =>
          obtain rfl := Option.some.inj hlast
          obtain rfl := Option.some.inj hfirst
          obtain ⟨hold, _, _, hnext, _⟩ := h
          cases hprev : lastFrame events with
          | none =>
              obtain rfl := events_nil hold hprev
              simp [firstPts, samplesAdded]
          | some d =>
              have hsome : firstPts events ≠ none := by
                rw [ne_eq, ← lastFrame_none_iff, hprev]
                exact Option.some_ne_none d
              obtain ⟨e, he⟩ := Option.ne_none_iff_exists'.mp hsome
              have hend := ih hold hprev he
              rw [hnext d hprev, he, Option.getD_some, samplesAdded]
              omega
      | remove => exact ih h.1 hlast hfirst

/-- What a run leaves: before the first frame the queue that was set up, and after it one that
holds the samples from the next one on. -/
structure Reached (avctx : AVCodecContext) (stale : Bool) (events : List Event) (afq : AudioFrameQueue) :
    Prop where
  before : lastFrame events = none → afq = ffAfQueueInit avctx
  held : ∀ first, firstPts events = some first →
    Held (first - avctx.initialPadding + samplesRemoved events) stale afq
  reported : firstPts events ≠ none →
    durations events + afq.remainingSamples = avctx.initialPadding + samplesAdded events
  reportedLe : durations events ≤ samplesRemoved events
  exact : 0 < afq.remainingSamples → durations events = samplesRemoved events

theorem reached_add (htb : avctx.PerSample) (hpadding : 0 ≤ avctx.initialPadding) {ok : Bool} {f : AVFrame}
    {afq' : AudioFrameQueue} (hr : Reached avctx stale events afq)
    (hadmissible : Admissible avctx.initialPadding (.add f :: events))
    (hrun : ffAfQueueAdd avctx ok afq f = some (0, afq')) : Reached avctx false (.add f :: events) afq' := by
  obtain ⟨hold, hnb, hmax, hnext, hlow, hqueued⟩ := hadmissible
  cases hlast : lastFrame events with
  | none =>
      obtain rfl := events_nil hold hlast
      obtain rfl := hr.before rfl
      obtain ⟨hheld, hsamples⟩ := add_first htb hpadding (hlow rfl) hnb hmax hrun
      refine ⟨nofun, ?_, ?_, Int.le_refl 0, fun _ => rfl⟩
      · intro first hfirst
        obtain rfl := Option.some.inj hfirst
        rw [show samplesRemoved [Event.add f] = 0 from rfl, Int.add_zero]
        exact hheld
      · intro _
        simp only [durations, samplesAdded, hsamples]
        omega
  | some g =>
      have hsome : firstPts events ≠ none := by
        rw [ne_eq, ← lastFrame_none_iff, hlast]
        exact Option.some_ne_none g
      obtain ⟨first, hfirst⟩ := Option.ne_none_iff_exists'.mp hsome
      have hheld := hr.held first hfirst
      have hreported := hr.reported hsome
      have hle := hr.reportedLe
      have hnonneg := total_nonneg hheld.live
      rw [← hheld.samples] at hnonneg
      -- all that was asked for has been there, as nothing more was asked for than was queued
      have hsame : durations events = samplesRemoved events := by
        by_cases hzero : 0 < afq.remainingSamples
        · exact hr.exact hzero
        · omega
      have hend := lastFrame_end hold hlast hfirst
      have hpts : f.pts = first - avctx.initialPadding + samplesRemoved events + afq.remainingSamples := by
        rw [hnext g hlast]
        omega
      obtain ⟨hafter, hsamples⟩ := add_held htb hheld hpts hnb hmax hrun
      refine ⟨nofun, ?_, ?_, hle, fun _ => hsame⟩
      · intro e he
        simp only [firstPts, hfirst, Option.getD_some, Option.some.injEq] at he
        subst he
        exact hafter
      · intro _
        simp only [durations, samplesAdded, hsamples]
        omega

theorem reached_remove (htb : avctx.PerSample) {nb pts duration : Int}
    {afq' : AudioFrameQueue} (hr : Reached avctx stale events afq) (hnb : 0 < nb) (hint : nb ≤ int32Max)
    (hlast : lastFrame events ≠ none) (hrun : ffAfQueueRemove avctx afq nb = some (afq', pts, duration)) :
    Reached avctx (becomesStale stale afq nb) (.remove nb pts duration :: events) afq' ∧
      ∀ first, firstPts events = some first →
        (pts = first - avctx.initialPadding + samplesRemoved events ↔ stale = false) := by
  have hsome : firstPts events ≠ none := fun hnone => hlast ((lastFrame_none_iff events).mpr hnone)
  obtain ⟨first, hfirst⟩ := Option.ne_none_iff_exists'.mp hsome
  have hheld := hr.held first hfirst
  have hreported := hr.reported hsome
  have hle := hr.reportedLe
  have hexact := hr.exact
  have hnonneg := total_nonneg hheld.live
  rw [← hheld.samples] at hnonneg
  obtain ⟨hafter, hiff, hduration, hsamples⟩ := remove_held htb hheld hnb hint hrun
  refine ⟨⟨fun hnone => absurd hnone hlast, ?_, ?_, ?_, ?_⟩, ?_⟩
  · intro e he
    obtain rfl : first = e := Option.some.inj (hfirst.symm.trans he)
    rw [samplesRemoved, ← Int.add_assoc]
    exact hafter
  · intro _
    simp only [durations, samplesAdded]
    omega
  · simp only [durations, samplesRemoved]
    omega
  · intro hpos
    simp only [durations, samplesRemoved]
    omega
  · intro e he
    obtain rfl : first = e := Option.some.inj (hfirst.symm.trans he)
    exact hiff

theorem Run.reached (htb : avctx.PerSample) (hpadding : 0 ≤ avctx.initialPadding)
    (h : Run avctx stale clean events afq) (hadmissible : Admissible avctx.initialPadding events) :
    Reached avctx stale events afq ∧ (Continuous avctx.initialPadding events ↔ clean = true) := by
  induction h with
  | init => exact ⟨⟨fun _ => rfl, nofun, fun h => absurd rfl h, Int.le_refl 0, fun _ => rfl⟩, by simp [Continuous]⟩
  | add _ f hrun ih =>
      obtain ⟨hreached, hclean⟩ := ih hadmissible.1
      exact ⟨reached_add htb hpadding hreached hadmissible hrun, hclean⟩
  | @remove stale clean events afq afq' pts duration _ nb hrun ih =>
      obtain ⟨hold, hnb, hint, hlast⟩ := hadmissible
      obtain ⟨hreached, hclean⟩ := ih hold
      obtain ⟨hafter, hpts⟩ := reached_remove htb hreached hnb hint hlast hrun
      have hsome : firstPts events ≠ none := fun hnone => hlast ((lastFrame_none_iff events).mpr hnone)
      obtain ⟨first, hfirst⟩ := Option.ne_none_iff_exists'.mp hsome
      have hreported := hpts first hfirst
      refine ⟨hafter, ?_⟩
      rw [Continuous, hclean, Bool.and_eq_true, Bool.not_eq_true', ← hreported]
      constructor
      · exact fun h => ⟨h.1, h.2 first hfirst⟩
      · rintro ⟨hc, hp⟩
        refine ⟨hc, fun e he => ?_⟩
        obtain rfl : first = e := Option.some.inj (hfirst.symm.trans he)
        exact hp

theorem Run.add_goes_on (htb : avctx.PerSample) (hpadding : 0 ≤ avctx.initialPadding)
    (h : Run avctx stale clean events afq) (f : AVFrame)
    (hadmissible : Admissible avctx.initialPadding (.add f :: events))
    (hsum : afq.remainingSamples + f.nbSamples ≤ int32Max)
    (hsize : 16 * (afq.frameCount + 1) ≤ 2147483647) : ∃ afq', ffAfQueueAdd avctx true afq f = some (0, afq') := by
  obtain ⟨hold, hnb, hmax, hnext, hlow, hqueued⟩ := hadmissible
  obtain ⟨hreached, _⟩ := h.reached htb hpadding hold
  cases hlast : lastFrame events with
  | none =>
      obtain rfl := hreached.before hlast
      exact add_total htb hpadding (Int.le_refl _) hnb (hlow hlast) hmax hsum hsize
  | some g =>
      have hsome : firstPts events ≠ none := by
        rw [ne_eq, ← lastFrame_none_iff, hlast]
        exact Option.some_ne_none g
      obtain ⟨first, hfirst⟩ := Option.ne_none_iff_exists'.mp hsome
      have hheld := hreached.held first hfirst
      have hreported := hreached.reported hsome
      have hnonneg := total_nonneg hheld.live
      rw [← hheld.samples] at hnonneg
      have hend := lastFrame_end hold hlast hfirst
      have hstart := hheld.low
      have hpts := hnext g hlast
      have hdelay := hheld.delay
      exact add_total htb (by omega) (by omega) hnb (by omega) hmax hsum hsize

/-- A run's timestamps are continuous exactly if no remove is made on an empty queue that a remove
emptied of the samples of several frames; its durations are complete, and no assertion fails. -/
theorem af_queue_continuous_iff (htb : avctx.PerSample) (hpadding : 0 ≤ avctx.initialPadding)
    (h : Run avctx stale clean events afq) (hadmissible : Admissible avctx.initialPadding events) :
    (Continuous avctx.initialPadding events ↔ clean = true) ∧
      (afq.frameCount = 0 → lastFrame events ≠ none →
        durations events = avctx.initialPadding + samplesAdded events) ∧
      (∀ nb first, 0 < nb → firstPts events = some first →
        first - avctx.initialPadding + samplesRemoved events + nb ≤ int64Max →
        ∃ res, ffAfQueueRemove avctx afq nb = some res) ∧
      ∀ f, Admissible avctx.initialPadding (.add f :: events) →
        afq.remainingSamples + f.nbSamples ≤ int32Max → 16 * (afq.frameCount + 1) ≤ 2147483647 →
        ∃ afq', ffAfQueueAdd avctx true afq f = some (0, afq') := by
  obtain ⟨hreached, hclean⟩ := h.reached htb hpadding hadmissible
  refine ⟨hclean, ?_, ?_, h.add_goes_on htb hpadding⟩
  · intro hempty hlast
    have hsome : firstPts events ≠ none := fun hnone => hlast ((lastFrame_none_iff events).mpr hnone)
    obtain ⟨first, hfirst⟩ := Option.ne_none_iff_exists'.mp hsome
    have hreported := hreached.reported hsome
    have hsamples := (hreached.held first hfirst).samples
    rw [hempty, List.take_zero] at hsamples
    rw [hsamples] at hreported
    exact (Int.add_zero _).symm.trans hreported
  · intro nb first hnb hfirst hfits
    exact remove_total avctx (hreached.held first hfirst) hnb hfits

end Runs

def unpadded : AVCodecContext := ⟨⟨1, 48000⟩, 48000, 0⟩

def padded : AVCodecContext := ⟨⟨1, 48000⟩, 48000, 20⟩

/-- Two frames behind a padding: the second remove takes the end of one and the beginning of
the other, the third goes beyond the end. -/
theorem af_queue_continuous_two_frames :
    Continuous 20 [.remove 100 130 70, .remove 90 40 90, .remove 60 (-20) 60, .add ⟨100, 100⟩, .add ⟨0, 100⟩] := by
  have hone : Run padded false true [.add ⟨0, 100⟩] ⟨0, 120, [⟨-20, 120⟩], 1, 49⟩ :=
    @Run.add _ _ _ _ _ _ true .init ⟨0, 100⟩ rfl
  have htwo : Run padded false true [.add ⟨100, 100⟩, .add ⟨0, 100⟩]
      ⟨0, 220, [⟨-20, 120⟩, ⟨100, 100⟩], 2, 49⟩ := @Run.add _ _ _ _ _ _ true hone ⟨100, 100⟩ rfl
  have hpart : Run padded false true [.remove 60 (-20) 60, .add ⟨100, 100⟩, .add ⟨0, 100⟩]
      ⟨0, 160, [⟨40, 60⟩, ⟨100, 100⟩], 2, 49⟩ := htwo.remove 60 rfl
  have hacross : Run padded false true [.remove 90 40 90, .remove 60 (-20) 60, .add ⟨100, 100⟩, .add ⟨0, 100⟩]
      ⟨0, 70, [⟨130, 70⟩, ⟨130, 70⟩], 1, 49⟩ := hpart.remove 90 rfl
  have hrun : Run padded false true
      [.remove 100 130 70, .remove 90 40 90, .remove 60 (-20) 60, .add ⟨100, 100⟩, .add ⟨0, 100⟩]
      ⟨0, 0, [⟨230, 0⟩, ⟨130, 70⟩], 0, 49⟩ := hacross.remove 100 rfl
  exact (af_queue_continuous_iff ⟨by decide, rfl⟩ (by decide) hrun
    (by simp [Admissible, lastFrame, samplesRemoved, samplesAdded, padded, int64Max, int64Min, int32Max])).1.mpr rfl

/-- Two frames are taken at once; the next remove reports the end of the first one. -/
theorem two_frames_at_once_stale :
    ∃ stale afq, Run unpadded stale false
        [.remove 100 100 0, .remove 200 0 200, .add ⟨100, 100⟩, .add ⟨0, 100⟩] afq ∧
      Admissible 0 [.remove 100 100 0, .remove 200 0 200, .add ⟨100, 100⟩, .add ⟨0, 100⟩] ∧
      ¬ Continuous 0 [.remove 100 100 0, .remove 200 0 200, .add ⟨100, 100⟩, .add ⟨0, 100⟩] := by
  have hone : Run unpadded false true [.add ⟨0, 100⟩] ⟨0, 100, [⟨0, 100⟩], 1, 49⟩ :=
    @Run.add _ _ _ _ _ _ true .init ⟨0, 100⟩ rfl
  have htwo : Run unpadded false true [.add ⟨100, 100⟩, .add ⟨0, 100⟩]
      ⟨0, 200, [⟨0, 100⟩, ⟨100, 100⟩], 2, 49⟩ := @Run.add _ _ _ _ _ _ true hone ⟨100, 100⟩ rfl
  have hempty : Run unpadded true true [.remove 200 0 200, .add ⟨100, 100⟩, .add ⟨0, 100⟩]
      ⟨0, 0, [⟨100, 0⟩, ⟨200, 0⟩], 0, 49⟩ := htwo.remove 200 rfl
  refine ⟨true, ⟨0, 0, [⟨200, 0⟩, ⟨200, 0⟩], 0, 49⟩, hempty.remove 100 rfl, ?_, ?_⟩
  · simp [Admissible, lastFrame, samplesRemoved, samplesAdded, int64Max, int64Min, int32Max]
  · simp [Continuous, firstPts, samplesRemoved]

end P2PFFmpeg.Encoder
