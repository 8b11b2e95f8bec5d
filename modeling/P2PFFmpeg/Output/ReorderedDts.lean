import P2PFFmpeg.Library.Window
import P2PFFmpeg.Output.Context

namespace P2PFFmpeg.Output

open Util Library.Window

/-- The packets of a stream one after another: what each call returns, and the
packet as it leaves it. -/
def muxerPktFields (of : AVOutputFormat) : AVStream → List AVPacket → List (Int × AVPacket)
  | _, [] => []
  | st, pkt :: pkts =>
      let made := computeMuxerPktFields of st pkt
      (made.1, made.2.2) :: muxerPktFields of made.2.1 pkts

section Accepts

variable {of : AVOutputFormat} {st st' : AVStream} {pkt pkt' : AVPacket} {t p : Int}

structure Accepts (st : AVStream) (pkt : AVPacket) (t : Int) (made : Int × AVStream × AVPacket) :
    Prop where
  ret : made.1 = 0
  pkt : made.2.2 = pkt
  curDts : made.2.1.curDts = some t
  delay : made.2.1.videoDelay = st.videoDelay
  buffer : made.2.1.ptsBuffer = st.ptsBuffer
  codecType : made.2.1.codecType = st.codecType
  timeBase : made.2.1.timeBase = st.timeBase
  privPts : st.codecType = .video → made.2.1.privPts =
    fracAdd { st.privPts with val := t } (st.timeBase.den * st.timeBase.num)

theorem refusesDts_increasing (hcur : ∀ c ∈ st.curDts, c < t) : refusesDts of st (some t) = false := by
  simp only [refusesDts, tsValue, Option.getD_some]
  split
  · rfl
  · next c hc =>
      have hless : c < t := hcur c hc
      simp only [ge_iff_le, gt_iff_lt, decide_eq_false (not_le.mpr hless),
        decide_eq_false (not_lt.mpr hless.le), Bool.and_false, Bool.or_false]

theorem computeMuxerPktFields_accepts (hmade : makeUpTimestamps st pkt = (st', pkt'))
    (hdts : pkt'.dts = some t) (hpts : pkt'.pts = some p) (hle : t ≤ p)
    (hcur : ∀ c ∈ st'.curDts, c < t) : Accepts st' pkt' t (computeMuxerPktFields of st pkt) := by
  have hbefore : isBefore pkt'.pts pkt'.dts = false := by
    rw [hdts, hpts]
    exact decide_eq_false (not_lt.mpr hle)
  have hvalue : tsValue pkt'.dts = t := by
    rw [hdts]
    rfl
  simp only [computeMuxerPktFields, hmade, hbefore, hdts ▸ refusesDts_increasing hcur, hvalue,
    Bool.false_eq_true, if_false]
  split
  · next haudio =>
      have hother : st'.codecType ≠ .video := fun hvideo => nomatch haudio.symm.trans hvideo
      split
      · exact ⟨rfl, rfl, hdts, rfl, rfl, rfl, rfl, fun hvideo => absurd hvideo hother⟩
      · exact ⟨rfl, rfl, hdts, rfl, rfl, rfl, rfl, fun hvideo => absurd hvideo hother⟩
  · exact ⟨rfl, rfl, hdts, rfl, rfl, rfl, rfl, fun _ => rfl⟩
  · next hother => exact ⟨rfl, rfl, hdts, rfl, rfl, rfl, rfl, fun hvideo => absurd hvideo hother⟩

def AVStream.reorder (st : AVStream) (p duration : Int) : List (Option Int) :=
  settlePtsBuffer st.videoDelay
    (some p :: fillPtsBuffer p duration st.videoDelay 1 st.ptsBuffer.tail)

theorem makeUpTimestamps_reorders (hdts : pkt.dts = none) (hpts : pkt.pts = some p)
    (hzero : st.videoDelay ≠ 0 ∨ p ≠ 0) (hdelay : st.videoDelay ≤ maxReorderDelay) :
    makeUpTimestamps st pkt = ({ st with ptsBuffer := st.reorder p pkt.duration },
      { pkt with dts := (st.reorder p pkt.duration).headD none }) := by
  have hsome : ¬ (pkt.pts = none ∧ pkt.dts ≠ none ∧ st.videoDelay = 0) := by
    rw [hpts]
    exact fun h => nomatch h.1
  have hkept : ¬ ((pkt.pts = some 0 ∨ pkt.pts = none) ∧ pkt.dts = none ∧ st.videoDelay = 0) := by
    rw [hpts]
    rintro ⟨hp | hp, _, hd⟩
    · exact hzero.elim (· hd) (· (Option.some.inj hp))
    · cases hp
  simp only [makeUpTimestamps, if_neg hsome, if_neg hkept]
  simp only [hpts, hdts, if_pos hdelay]
  rfl

theorem makeUpTimestamps_zero (hdts : pkt.dts = none) (hpts : pkt.pts = some 0)
    (hdelay : st.videoDelay = 0) : makeUpTimestamps st pkt =
      (st, { pkt with pts := some st.privPts.val, dts := some st.privPts.val }) := by
  simp only [makeUpTimestamps, hdts, hpts, hdelay, reduceCtorEq, false_and, if_false, true_or,
    and_self, if_true]

end Accepts

section Buffer

variable {d : Nat} {p duration : Int} {kept : List Int}

theorem settlePtsBuffer_insert (x : Int) (kept : List Int) (rest : List (Option Int)) :
    settlePtsBuffer kept.length (some x :: kept.map some ++ rest) =
      (kept.orderedInsert (· ≤ ·) x).map some ++ rest := by
  induction kept with
  | nil => rfl
  | cons y kept ih =>
      have hsteps : settlePtsBuffer (y :: kept).length (some x :: (y :: kept).map some ++ rest) =
          if x > y then some y :: settlePtsBuffer kept.length (some x :: kept.map some ++ rest)
          else some x :: (y :: kept).map some ++ rest := rfl
      by_cases hle : x ≤ y
      · rw [hsteps, if_neg (not_lt.mpr hle), List.orderedInsert_cons_of_le (· ≤ ·) kept hle]
        rfl
      · rw [hsteps, if_pos (not_le.mp hle), List.orderedInsert_of_not_le (· ≤ ·) kept hle, ih]
        rfl

theorem fillPtsBuffer_filled (x : Int) (rest : List (Option Int)) (i : Nat) :
    fillPtsBuffer p duration d i (some x :: rest) = some x :: rest := rfl

def seedsFrom (p duration : Int) (d i n : Nat) : List Int :=
  (List.range' i n).map fun j : Nat => p + ((j : Int) - d - 1) * duration

theorem fillPtsBuffer_fresh (i n m : Nat) (h : i + n = d + 1) :
    fillPtsBuffer p duration d i (List.replicate (n + m) none) =
      (seedsFrom p duration d i n).map some ++ List.replicate m none := by
  induction n generalizing i with
  | zero =>
      cases m with
      | zero => rfl
      | succ m =>
          rw [Nat.zero_add, List.replicate_succ, fillPtsBuffer, if_neg (by omega)]
          rfl
  | succ n ih =>
      rw [Nat.add_right_comm, List.replicate_succ, fillPtsBuffer, if_pos (by omega),
        ih (i + 1) (by omega)]
      rfl

theorem seeds_below (hduration : 0 < duration) {i n : Nat} (h : i + n = d + 1) :
    ∀ x ∈ seedsFrom p duration d i n, x < p := by
  intro x hx
  obtain ⟨j, hj, rfl⟩ := List.mem_map.mp hx
  have hj := (List.mem_range'_1.mp hj).2
  have hneg : ((j : Int) - d - 1) * duration < 0 :=
    Int.mul_neg_of_neg_of_pos (by omega) hduration
  omega

theorem seeds_above (hduration : 0 < duration) (n : Nat) :
    ∀ x ∈ seedsFrom p duration d 1 n, p - d * duration ≤ x := by
  intro x hx
  obtain ⟨j, hj, rfl⟩ := List.mem_map.mp hx
  have hj := (List.mem_range'_1.mp hj).1
  have hmul : -(d : Int) * duration ≤ ((j : Int) - d - 1) * duration :=
    Int.mul_le_mul_of_nonneg_right (by omega) hduration.le
  rw [Int.neg_mul] at hmul
  omega

theorem seeds_increasing (hduration : 0 < duration) (i n : Nat) :
    (seedsFrom p duration d i n).Pairwise (· < ·) := by
  refine List.pairwise_map.mpr ((List.pairwise_lt_range' (s := i) (n := n)).imp fun {a b} hab => ?_)
  have hmul : ((a : Int) - d - 1) * duration < ((b : Int) - d - 1) * duration :=
    Int.mul_lt_mul_of_pos_right (by omega) hduration
  omega

end Buffer

structure Undated (duration : Int) (pkt : AVPacket) (p : Int) : Prop where
  dts : pkt.dts = none
  pts : pkt.pts = some p
  duration : pkt.duration = duration

def Follows (d : Nat) : List Int → List Int → Prop
  | _, [] => True
  | seen, p :: ps => p ∉ seen ∧ (seen.filter (p < ·)).length ≤ d ∧ Follows d (seen ++ [p]) ps

structure Dated (pkt : AVPacket) (t : Int) (made : Int × AVPacket) : Prop where
  ret : made.1 = 0
  dts : made.2.dts = some t
  pts : ∃ p, made.2.pts = some p ∧ t ≤ p
  le : ∀ p ∈ pkt.pts, t ≤ p

def dtsOf (made : List (Int × AVPacket)) : List Int := made.filterMap fun m => m.2.dts

structure DatedAll (pkts : List AVPacket) (made : List (Int × AVPacket)) : Prop where
  dated : List.Forall₂ (fun pkt m => ∃ t, Dated pkt t m) pkts made
  increasing : (dtsOf made).Pairwise (· < ·)

section Runs

variable {of : AVOutputFormat} {d : Nat} {duration : Int} {st : AVStream} {pkt : AVPacket}
  {pkts : List AVPacket} {c p : Int} {ps seen : List Int}

theorem dated_run {I : AVStream → Int → List Int → Prop} {Q : Int → Prop}
    (hstep : ∀ st c seen pkt p, I st c seen → Undated duration pkt p → Q p → p ∉ seen →
      (seen.filter (p < ·)).length ≤ d → ∃ t, c < t ∧
        Dated pkt t ((computeMuxerPktFields of st pkt).1, (computeMuxerPktFields of st pkt).2.2) ∧
        I (computeMuxerPktFields of st pkt).2.1 t (seen ++ [p]))
    (hpkts : List.Forall₂ (Undated duration) pkts ps) (h : I st c seen)
    (hfollows : Follows d seen ps) (hq : ∀ p ∈ ps, Q p) :
    DatedAll pkts (muxerPktFields of st pkts) ∧ ∀ t ∈ dtsOf (muxerPktFields of st pkts), c < t := by
  induction hpkts generalizing st c seen with
  | nil => exact ⟨⟨.nil, .nil⟩, by simp [muxerPktFields, dtsOf]⟩
  | @cons pkt p pkts ps hpkt _ ih =>
      obtain ⟨hnew, hfew, hrest⟩ := hfollows
      obtain ⟨t, hct, hdated, hnext⟩ :=
        hstep st c seen pkt p h hpkt (hq p List.mem_cons_self) hnew hfew
      obtain ⟨⟨hall, hincreasing⟩, habove⟩ :=
        ih hnext hrest fun q hmem => hq q (List.mem_cons_of_mem p hmem)
      have hdts : dtsOf (muxerPktFields of st (pkt :: pkts)) =
          t :: dtsOf (muxerPktFields of (computeMuxerPktFields of st pkt).2.1 pkts) :=
        List.filterMap_cons_some hdated.dts
      refine ⟨⟨.cons ⟨t, hdated⟩ hall, ?_⟩, ?_⟩
      · rw [hdts]
        exact List.pairwise_cons.mpr ⟨habove, hincreasing⟩
      · rw [hdts]
        intro t' ht'
        obtain rfl | ht' := List.mem_cons.mp ht'
        · exact hct
        · exact hct.trans (habove t' ht')

structure Windowed (d : Nat) (st : AVStream) (c : Int) (seen : List Int) : Prop where
  delay : st.videoDelay = d
  curDts : st.curDts = some c
  window : ∃ rest, rest.length = d ∧ Keeps seen (c :: rest) ∧
    st.ptsBuffer = (c :: rest).map some ++ List.replicate (maxReorderDelay - d) none

theorem reorders_accepts {t : Int} {rest : List Int} (hpkt : Undated duration pkt p)
    (hdelay : st.videoDelay = d) (hd : 0 < d) (hmax : d ≤ maxReorderDelay) (hlength : rest.length = d)
    (hbuffer : st.reorder p pkt.duration =
      (t :: rest).map some ++ List.replicate (maxReorderDelay - d) none)
    (hle : t ≤ p) (hcur : ∀ c ∈ st.curDts, c < t) (hkeeps : Keeps seen (t :: rest)) :
    Dated pkt t ((computeMuxerPktFields of st pkt).1, (computeMuxerPktFields of st pkt).2.2) ∧
      Windowed d (computeMuxerPktFields of st pkt).2.1 t seen := by
  have hmade := makeUpTimestamps_reorders hpkt.dts hpkt.pts (.inl (by omega)) (hdelay ▸ hmax)
  have hdts : (st.reorder p pkt.duration).headD none = some t := by rw [hbuffer]; rfl
  rw [hdts] at hmade
  obtain ⟨hret, hout, hcur', hdelay', hbuffer', _, _, _⟩ :=
    @computeMuxerPktFields_accepts of _ _ _ _ _ _ hmade rfl hpkt.pts hle hcur
  refine ⟨⟨hret, ?_, ⟨p, ?_, hle⟩, fun q hq => ?_⟩, hdelay'.trans hdelay, hcur', rest, hlength,
    hkeeps, hbuffer'.trans hbuffer⟩
  · rw [hout]
  · rw [hout]
    exact hpkt.pts
  · rw [hpkt.pts] at hq
    exact (Option.some.inj hq) ▸ hle

theorem Windowed.step (h : Windowed d st c seen) (hd : 0 < d) (hmax : d ≤ maxReorderDelay)
    (hpkt : Undated duration pkt p) (hnew : p ∉ seen) (hfew : (seen.filter (p < ·)).length ≤ d) : ∃ t, c < t ∧
      Dated pkt t ((computeMuxerPktFields of st pkt).1, (computeMuxerPktFields of st pkt).2.2) ∧
      Windowed d (computeMuxerPktFields of st pkt).2.1 t (seen ++ [p]) := by
  obtain ⟨rest, hlength, hkeeps, hbuffer⟩ := h.window
  have hless : c < p := hkeeps.least_lt hnew (hlength ▸ hfew)
  obtain ⟨t, kept, hinsert, hkept, hle⟩ := exists_insert_eq p rest
  have hpush := hkeeps.push hnew
  have habove := hkeeps.lt_push hless
  rw [hinsert] at hpush habove
  have hct : c < t := habove t List.mem_cons_self
  refine ⟨t, hct, ?_⟩
  refine reorders_accepts hpkt h.delay hd hmax (hkept.trans hlength) ?_ hle ?_ hpush
  · obtain ⟨y, ys, rfl⟩ := List.exists_cons_of_length_pos (hlength ▸ hd)
    rw [AVStream.reorder, h.delay, hbuffer, List.map_cons, List.cons_append, List.tail_cons,
      List.map_cons, List.cons_append, fillPtsBuffer_filled, ← hlength, ← hinsert]
    exact settlePtsBuffer_insert p (y :: ys) _
  · intro c' hc'
    rw [h.curDts] at hc'
    exact (Option.some.inj hc') ▸ hct

theorem Follows.behind {seeds : List Int} (hbelow : ∀ x ∈ seeds, ∀ p ∈ ps, x < p)
    (h : Follows d seen ps) : Follows d (seeds ++ seen) ps := by
  induction ps generalizing seen with
  | nil => trivial
  | cons p ps ih =>
      obtain ⟨hnew, hfew, hrest⟩ := h
      have hseeds : seeds.filter (p < ·) = [] := by
        refine List.filter_eq_nil_iff.mpr fun x hx => ?_
        have hless := hbelow x hx p List.mem_cons_self
        simpa using hless.le
      refine ⟨fun hmem => ?_, ?_, ?_⟩
      · obtain hmem | hmem := List.mem_append.mp hmem
        · exact lt_irrefl p (hbelow p hmem p List.mem_cons_self)
        · exact hnew hmem
      · rw [List.filter_append, hseeds, List.nil_append]
        exact hfew
      · rw [List.append_assoc]
        exact ih (fun x hx q hq => hbelow x hx q (List.mem_cons_of_mem p hq)) hrest

theorem follows_of_depth (hdistinct : (seen ++ ps).Nodup)
    (hdepth : ∀ before p after, ps = before ++ p :: after →
      ((seen ++ before).filter (p < ·)).length ≤ d) : Follows d seen ps := by
  induction ps generalizing seen with
  | nil => trivial
  | cons p ps ih =>
      refine ⟨fun hmem => ?_, ?_, ih ?_ fun before q after heq => ?_⟩
      · exact (List.nodup_append.mp hdistinct).2.2 p hmem p List.mem_cons_self rfl
      · have hfirst := hdepth [] p ps rfl
        rwa [List.append_nil] at hfirst
      · rwa [List.append_assoc, List.singleton_append]
      · have hlater := hdepth (p :: before) q after (by rw [heq, List.cons_append])
        rwa [List.append_assoc, List.singleton_append]

end Runs

structure Ticks (st : AVStream) (next : Int) : Prop where
  val : st.privPts.val = next
  nonneg : 0 ≤ st.privPts.num
  less : st.privPts.num < st.privPts.den
  den : st.privPts.den = st.timeBase.den * st.timeBase.num

structure Unused (st : AVStream) : Prop where
  curDts : st.curDts = none
  ptsBuffer : st.ptsBuffer = List.replicate (maxReorderDelay + 1) none
  val : st.privPts.val = 0
  ticks : st.codecType = .video → Ticks st 0

theorem fracInit_zero {den : Int} (h : 0 < den) : fracInit 0 0 den = ⟨0, den / 2, den⟩ := by
  have hless : ¬ den / 2 ≥ den := by omega
  simp only [fracInit, Int.zero_add, if_neg hless]

theorem fracAdd_den {f : FFFrac} (hnonneg : 0 ≤ f.num) (hless : f.num < f.den) :
    fracAdd f f.den = ⟨f.val + 1, f.num, f.den⟩ := by
  have hden : f.den ≠ 0 := by omega
  have hsum : 0 ≤ f.num + f.den := by omega
  have hdiv : (f.num + f.den).tdiv f.den = 1 := by
    rw [Int.tdiv_eq_ediv_of_nonneg hsum, Int.add_ediv_of_dvd_right (Int.dvd_refl _), Int.ediv_self hden,
      Int.ediv_eq_zero_of_lt hnonneg hless, Int.zero_add]
  have hmod : (f.num + f.den).tmod f.den = f.num := by
    rw [Int.tmod_eq_emod_of_nonneg hsum, Int.add_emod_right, Int.emod_eq_of_lt hnonneg hless]
  have hmany : f.num + f.den ≥ f.den := by omega
  simp only [fracAdd, if_neg (not_lt.mpr hsum), if_pos hmany, hdiv, hmod]

theorem initPts_unused (ist : InputStream) (timeBase : AVRational)
    (hden : ∀ den, ptsDen { avformatNewStream ist with timeBase := timeBase } = some den → 0 < den) :
    Unused (initPts { avformatNewStream ist with timeBase := timeBase }) := by
  cases hpts : ptsDen { avformatNewStream ist with timeBase := timeBase } with
  | none =>
      simp only [initPts, hpts]
      refine ⟨rfl, rfl, rfl, fun hvideo => ?_⟩
      simp only [ptsDen] at hpts
      rw [hvideo] at hpts
      cases hpts
  | some den =>
      have hpositive := hden den hpts
      simp only [initPts, hpts, fracInit_zero hpositive]
      refine ⟨rfl, rfl, rfl, fun hvideo => ⟨rfl, by dsimp only; omega, by dsimp only; omega, ?_⟩⟩
      simp only [ptsDen] at hpts
      rw [hvideo] at hpts
      rw [← Option.some.inj hpts]
      exact Int.mul_comm _ _

section First

variable {of : AVOutputFormat} {d : Nat} {duration : Int} {st : AVStream} {pkt : AVPacket} {p : Int}

theorem Unused.windowed (h : Unused st) (hdelay : st.videoDelay = d) (hd : 0 < d)
    (hmax : d ≤ maxReorderDelay) (hduration : 0 < duration) (hpkt : Undated duration pkt p) :
    ∃ t, p - d * duration ≤ t ∧
      Dated pkt t ((computeMuxerPktFields of st pkt).1, (computeMuxerPktFields of st pkt).2.2) ∧
      Windowed d (computeMuxerPktFields of st pkt).2.1 t (seedsFrom p duration d 1 d ++ [p]) := by
  have hbelow : ∀ x ∈ seedsFrom p duration d 1 d, x < p := seeds_below hduration (Nat.add_comm 1 d)
  have hlength : (seedsFrom p duration d 1 d).length = d := by
    rw [seedsFrom, List.length_map, List.length_range']
  obtain ⟨t, kept, hinsert, hkept, hle⟩ := exists_insert_eq p (seedsFrom p duration d 1 d)
  have hkeeps : Keeps (seedsFrom p duration d 1 d ++ [p]) (t :: kept) := by
    rw [← hinsert]
    refine ⟨increasing_insert (seeds_increasing hduration 1 d) fun hmem => ?_, fun y hy => ?_⟩
    · exact lt_irrefl p (hbelow p hmem)
    · rw [List.mem_append, List.mem_singleton]
      exact ((List.mem_orderedInsert (· ≤ ·)).mp hy).symm
  have habove : p - d * duration ≤ t := by
    obtain hseed | hlast := List.mem_append.mp (hkeeps.seen t List.mem_cons_self)
    · exact seeds_above hduration d t hseed
    · have hnonneg : 0 ≤ (d : Int) * duration := Int.mul_nonneg (by omega) hduration.le
      rw [List.mem_singleton.mp hlast]
      omega
  refine ⟨t, habove, reorders_accepts hpkt hdelay hd hmax (hkept.trans hlength) ?_ hle ?_ hkeeps⟩
  · have hroom : maxReorderDelay = d + (maxReorderDelay - d) := by omega
    rw [AVStream.reorder, hdelay, h.ptsBuffer, List.replicate_succ, List.tail_cons, hpkt.duration,
      hroom, fillPtsBuffer_fresh 1 d _ (Nat.add_comm 1 d), ← hinsert, Nat.add_sub_cancel_left]
    have hsettled := settlePtsBuffer_insert p (seedsFrom p duration d 1 d)
      (List.replicate (maxReorderDelay - d) none)
    rw [hlength] at hsettled
    exact hsettled
  · simp [h.curDts]

structure Sequential (kind : AVMediaType) (st : AVStream) (c : Int) (seen : List Int) : Prop where
  delay : st.videoDelay = 0
  kind : st.codecType = kind
  curDts : st.curDts = some c
  reached : ∃ q ∈ seen, c ≤ q
  ticks : st.codecType = .video → Ticks st (c + 1)

theorem sequential_accepts {kind : AVMediaType} {st' : AVStream} {pkt' : AVPacket} {t : Int}
    {seen : List Int} (hmade : makeUpTimestamps st pkt = (st', pkt')) (hpts : pkt.pts = some p)
    (hdts : pkt'.dts = some t) (hpts' : pkt'.pts = some t) (hle : t ≤ p)
    (hcur : ∀ c ∈ st'.curDts, c < t) (hdelay : st'.videoDelay = 0) (hkind : st'.codecType = kind)
    {v : Int} (hticks : st'.codecType = .video → Ticks st' v) :
    Dated pkt t ((computeMuxerPktFields of st pkt).1, (computeMuxerPktFields of st pkt).2.2) ∧
      Sequential kind (computeMuxerPktFields of st pkt).2.1 t (seen ++ [p]) := by
  obtain ⟨hret, hout, hcur', hdelay', _, hcodec, htimeBase, hpriv⟩ :=
    @computeMuxerPktFields_accepts of _ _ _ _ _ _ hmade hdts hpts' le_rfl hcur
  refine ⟨⟨hret, hout ▸ hdts, ⟨t, hout ▸ hpts', le_rfl⟩, fun q hq => ?_⟩,
    ⟨hdelay'.trans hdelay, hcodec.trans hkind, hcur', ⟨p, by simp, hle⟩, fun hvideo => ?_⟩⟩
  · rw [hpts] at hq
    exact (Option.some.inj hq) ▸ hle
  · have hvideo' : st'.codecType = .video := hcodec.symm.trans hvideo
    obtain ⟨_, hnonneg, hless, hden⟩ := hticks hvideo'
    have hadd : fracAdd { st'.privPts with val := t } (st'.timeBase.den * st'.timeBase.num) =
        ⟨t + 1, st'.privPts.num, st'.privPts.den⟩ := by
      rw [← hden]
      exact @fracAdd_den { st'.privPts with val := t } hnonneg hless
    have hpriv := (hpriv hvideo').trans hadd
    refine ⟨by rw [hpriv], by rw [hpriv]; exact hnonneg, by rw [hpriv]; exact hless, ?_⟩
    rw [hpriv, htimeBase]
    exact hden

theorem sequential_nonzero {kind : AVMediaType} {seen : List Int} (hpkt : Undated duration pkt p)
    (hdelay : st.videoDelay = 0) (hkind : st.codecType = kind) (hp : p ≠ 0)
    (hcur : ∀ c ∈ st.curDts, c < p) {v : Int} (hticks : st.codecType = .video → Ticks st v) :
    Dated pkt p ((computeMuxerPktFields of st pkt).1, (computeMuxerPktFields of st pkt).2.2) ∧
      Sequential kind (computeMuxerPktFields of st pkt).2.1 p (seen ++ [p]) := by
  have hmade := makeUpTimestamps_reorders hpkt.dts hpkt.pts (.inr hp) (hdelay ▸ Nat.zero_le _)
  have hhead : (st.reorder p pkt.duration).headD none = some p := by
    rw [AVStream.reorder, hdelay]
    rfl
  rw [hhead] at hmade
  exact sequential_accepts hmade hpkt.pts rfl hpkt.pts le_rfl hcur hdelay hkind
    fun hvideo => ⟨(hticks hvideo).val, (hticks hvideo).nonneg, (hticks hvideo).less,
      (hticks hvideo).den⟩

theorem Unused.sequential (h : Unused st) (hdelay : st.videoDelay = 0) (hpkt : Undated duration pkt p) :
    Dated pkt p ((computeMuxerPktFields of st pkt).1, (computeMuxerPktFields of st pkt).2.2) ∧
      Sequential st.codecType (computeMuxerPktFields of st pkt).2.1 p ([] ++ [p]) := by
  have hcur : ∀ t : Int, ∀ c ∈ st.curDts, c < t := by simp [h.curDts]
  by_cases hp : p = 0
  · subst hp
    have hmade := makeUpTimestamps_zero hpkt.dts hpkt.pts hdelay
    rw [h.val] at hmade
    exact sequential_accepts hmade hpkt.pts rfl rfl le_rfl (hcur 0) hdelay rfl h.ticks
  · exact sequential_nonzero hpkt hdelay rfl hp (hcur p) h.ticks

theorem Sequential.step {kind : AVMediaType} {c : Int} {seen : List Int}
    (h : Sequential kind st c seen) (hpkt : Undated duration pkt p) (hp : p ≠ 0 ∨ kind = .video)
    (hnew : p ∉ seen) (hfew : (seen.filter (p < ·)).length ≤ 0) : ∃ t, c < t ∧
      Dated pkt t ((computeMuxerPktFields of st pkt).1, (computeMuxerPktFields of st pkt).2.2) ∧
      Sequential kind (computeMuxerPktFields of st pkt).2.1 t (seen ++ [p]) := by
  obtain ⟨q, hq, hcq⟩ := h.reached
  have hnone : seen.filter (p < ·) = [] := List.length_eq_zero_iff.mp (Nat.le_zero.mp hfew)
  have hqp : q < p := by
    have hnot := List.filter_eq_nil_iff.mp hnone q hq
    have hne : q ≠ p := fun heq => hnew (heq ▸ hq)
    simp only [decide_eq_true_eq, not_lt] at hnot
    omega
  have hcur : ∀ t, c < t → ∀ c' ∈ st.curDts, c' < t := by
    intro t hct c' hc'
    rw [h.curDts] at hc'
    exact (Option.some.inj hc') ▸ hct
  by_cases hzero : p = 0
  · subst hzero
    have hvideo : kind = .video := hp.resolve_left fun hne => hne rfl
    have hval := (h.ticks (h.kind.trans hvideo)).val
    have hmade := makeUpTimestamps_zero hpkt.dts hpkt.pts h.delay
    rw [hval] at hmade
    refine ⟨c + 1, by omega, ?_⟩
    exact sequential_accepts hmade hpkt.pts rfl rfl (by omega) (hcur _ (by omega)) h.delay h.kind
      h.ticks
  · refine ⟨p, by omega, ?_⟩
    exact sequential_nonzero hpkt h.delay h.kind hzero (hcur p (by omega)) h.ticks

end First

/-- Different pts, the first one of which is the smallest, that come at most so
many places late. -/
structure Reordered (d : Nat) (ps : List Int) : Prop where
  distinct : ps.Nodup
  first : ∀ p ∈ ps.head?, ∀ q ∈ ps, p ≤ q
  depth : ∀ before p after, ps = before ++ p :: after → (before.filter (p < ·)).length ≤ d

theorem depth_of_take {d : Nat} {ps : List Int}
    (h : ∀ i < ps.length, ((ps.take i).filter (ps.getD i 0 < ·)).length ≤ d)
    (before : List Int) (p : Int) (after : List Int) (heq : ps = before ++ p :: after) :
    (before.filter (p < ·)).length ≤ d := by
  have hless : before.length < ps.length := by
    rw [heq, List.length_append, List.length_cons]
    omega
  have htake : ps.take before.length = before := by rw [heq, List.take_left]
  have hget : ps.getD before.length 0 = p := by simp [heq]
  have hdepth := h before.length hless
  rwa [htake, hget] at hdepth

/-- All packets of a stream get a dts from pts that are reordered no further than
the stream says, and the smallest one is no more durations before the first pts;
without reordering a later pts of zero is taken as missing, which only video survives. -/
theorem reordered_pts_give_dts (of : AVOutputFormat) (st : AVStream) (d : Nat) (duration : Int)
    (pkts : List AVPacket) (ps : List Int) (hunused : Unused st) (hdelay : st.videoDelay = d)
    (hmax : d ≤ maxReorderDelay) (hduration : 0 < duration)
    (hpkts : List.Forall₂ (Undated duration) pkts ps) (hps : Reordered d ps)
    (hzero : d = 0 → st.codecType ≠ .video → 0 ∉ ps.tail) :
    DatedAll pkts (muxerPktFields of st pkts) ∧
      ∀ p ∈ ps.head?, ∀ t ∈ dtsOf (muxerPktFields of st pkts), p - d * duration ≤ t := by
  cases hpkts with
  | nil => exact ⟨⟨.nil, .nil⟩, by simp⟩
  | @cons pkt p pkts ps hpkt hrest =>
      have hfollows : Follows d [p] ps := follows_of_depth hps.distinct fun before q after heq =>
        hps.depth (p :: before) q after (by rw [heq, List.cons_append])
      -- the first packet, and then a run of what it leaves
      have hrun : ∃ t, p - d * duration ≤ t ∧
          Dated pkt t ((computeMuxerPktFields of st pkt).1, (computeMuxerPktFields of st pkt).2.2) ∧
          DatedAll pkts (muxerPktFields of (computeMuxerPktFields of st pkt).2.1 pkts) ∧
          ∀ t' ∈ dtsOf (muxerPktFields of (computeMuxerPktFields of st pkt).2.1 pkts), t < t' := by
        obtain rfl | hd := Nat.eq_zero_or_pos d
        · obtain ⟨hdated, hnext⟩ := @Unused.sequential of duration st pkt p hunused hdelay hpkt
          refine ⟨p, by omega, hdated, @dated_run of 0 duration _ _ p ps [p] (Sequential st.codecType)
            (fun q => q ≠ 0 ∨ st.codecType = .video) ?_ hrest hnext hfollows fun q hq => ?_⟩
          · intro st' c seen pkt' p' h hpkt' hp' hnew hfew
            exact h.step hpkt' hp' hnew hfew
          · by_cases hvideo : st.codecType = .video
            · exact .inr hvideo
            · exact .inl fun heq => hzero rfl hvideo (heq ▸ hq)
        · obtain ⟨t, hpt, hdated, hnext⟩ :=
            @Unused.windowed of d duration st pkt p hunused hdelay hd hmax hduration hpkt
          have hbehind : Follows d (seedsFrom p duration d 1 d ++ [p]) ps := by
            refine hfollows.behind fun x hx q hq => ?_
            have hxp := seeds_below hduration (Nat.add_comm 1 d) x hx
            exact hxp.trans_le (hps.first p rfl q (List.mem_cons_of_mem p hq))
          refine ⟨t, hpt, hdated, @dated_run of d duration _ _ t ps _ (Windowed d) (fun _ => True) ?_
            hrest hnext hbehind fun _ _ => trivial⟩
          intro st' c seen pkt' p' h hpkt' _ hnew hfew
          exact h.step hd hmax hpkt' hnew hfew
      obtain ⟨t, hpt, hdated, ⟨hall, hincreasing⟩, habove⟩ := hrun
      have hdts : dtsOf (muxerPktFields of st (pkt :: pkts)) =
          t :: dtsOf (muxerPktFields of (computeMuxerPktFields of st pkt).2.1 pkts) :=
        List.filterMap_cons_some hdated.dts
      refine ⟨⟨.cons ⟨t, hdated⟩ hall, ?_⟩, fun q hq t' ht' => ?_⟩
      · rw [hdts]
        exact List.pairwise_cons.mpr ⟨habove, hincreasing⟩
      · rw [← Option.some.inj hq]
        rw [hdts] at ht'
        obtain rfl | ht' := List.mem_cons.mp ht'
        · exact hpt
        · exact hpt.trans (habove t' ht').le

def flaglessFormat : AVOutputFormat := ⟨false, false, none, fun _ _ => 0⟩

def newStream (kind : AVMediaType) (videoDelay : Nat) : AVStream :=
  initPts (avformatNewStream ⟨⟨1, 1000⟩, kind, .other, 48000, videoDelay, false⟩)

def ptsPacket (p : Int) : AVPacket := ⟨some p, none, [], 0, true, false, 1⟩

theorem newStream_unused (kind : AVMediaType) (videoDelay : Nat) : Unused (newStream kind videoDelay) := by
  refine initPts_unused ⟨⟨1, 1000⟩, kind, .other, 48000, videoDelay, false⟩ ⟨1, 1000⟩ ?_
  intro den hden
  cases kind <;> simp_all [ptsDen, avformatNewStream] <;> omega

/-- One packet that comes one place late. -/
theorem reordered_pts_give_dts_three :
    dtsOf (muxerPktFields flaglessFormat (newStream .video 1) ([10, 12, 11].map ptsPacket)) =
        [9, 10, 11] ∧
      DatedAll ([10, 12, 11].map ptsPacket)
        (muxerPktFields flaglessFormat (newStream .video 1) ([10, 12, 11].map ptsPacket)) := by
  refine ⟨by decide +kernel, (reordered_pts_give_dts flaglessFormat (newStream .video 1) 1 1 _
    [10, 12, 11] (newStream_unused .video 1) rfl (by decide) Int.one_pos ?_ ?_ (by decide)).1⟩
  · exact .cons ⟨rfl, rfl, rfl⟩ (.cons ⟨rfl, rfl, rfl⟩ (.cons ⟨rfl, rfl, rfl⟩ .nil))
  · exact ⟨by decide, by decide, depth_of_take (by decide)⟩

/-- A timed packet of data at zero that follows an earlier one gets the dts of that one. -/
theorem zero_pts_repeats_dts : ∃ (st : AVStream) (pkts : List AVPacket) (ps : List Int),
    Unused st ∧ st.videoDelay = 0 ∧ List.Forall₂ (Undated 1) pkts ps ∧ Reordered 0 ps ∧
      dtsOf (muxerPktFields flaglessFormat st pkts) = [-5, -5] := by
  refine ⟨newStream .data 0, [-5, 0].map ptsPacket, [-5, 0], newStream_unused .data 0, rfl, ?_, ?_,
    by decide +kernel⟩
  · exact .cons ⟨rfl, rfl, rfl⟩ (.cons ⟨rfl, rfl, rfl⟩ .nil)
  · exact ⟨by decide, by decide, depth_of_take (by decide)⟩

end P2PFFmpeg.Output
