import P2PFFmpeg.Util.Packet
import P2PFFmpeg.Util.Uuid
import Mathlib.Data.Nat.Nth

namespace P2PFFmpeg.Util

def checked (x : Int) : Option Int := if -2147483648 ≤ x ∧ x ≤ int32Max then some x else none

/-- A number as an int, from unsigned arithmetic. -/
def int32 (x : Int) : Int := x.bmod (2 ^ 32)

def avTimecodeAdjustNtscFramenum2 (framenum fps : Int) : Option Int :=
  if fps ≠ 0 ∧ fps.tmod 30 = 0 then do
    let dropFrames := fps.tdiv 30 * 2
    let framesPer10mins ← checked (fps.tdiv 30 * 17982)
    let d := framenum.tdiv framesPer10mins
    let m := framenum.tmod framesPer10mins
    let dropped ← checked (dropFrames * (m - dropFrames).tdiv (framesPer10mins.tdiv 10))
    some (int32 (framenum + 9 * dropFrames * d + dropped))
  else some framenum

structure TimecodeFlags where
  dropFrame : Bool
  hours24Max : Bool
  allowNegative : Bool

structure AVTimecode where
  start : Int
  flags : TimecodeFlags
  rate : AVRational
  fps : Nat

/-- `%0*d`. -/
def paddedInt (width : Nat) (x : Int) : List Char :=
  let digits := Nat.toDigits 10 x.natAbs
  if x < 0 then '-' :: (List.replicate (width - 1 - digits.length) '0' ++ digits)
  else List.replicate (width - digits.length) '0' ++ digits

def ffLen (fps : Int) : Nat :=
  if fps > 10000 then 5 else if fps > 1000 then 4 else if fps > 100 then 3 else if fps > 10 then 2 else 1

def timecodeText (neg drop : Bool) (fps hh mm ss ff : Int) : List Char :=
  (if neg then ['-'] else []) ++ paddedInt 2 hh ++ ':' :: paddedInt 2 mm ++ ':' :: paddedInt 2 ss ++
    (if drop then ';' else ':') :: paddedInt (ffLen fps) ff

/-- The buffer has 23 bytes. -/
def avTimecodeMakeString (tc : AVTimecode) (framenum : Int) : Option (List Char) := do
  let fps := int32 tc.fps
  let framenum ← checked (framenum + tc.start)
  let framenum ← if tc.flags.dropFrame then avTimecodeAdjustNtscFramenum2 framenum fps else some framenum
  let neg := decide (framenum < 0) && tc.flags.allowNegative
  let framenum ← if framenum < 0 then checked (-framenum) else some framenum
  let ff := framenum.tmod fps
  let ss := (framenum.tdiv fps).tmod 60
  let mm := (framenum.tdiv (fps * 60)).tmod 60
  let hh := framenum.tdiv (fps * 3600)
  let hh := if tc.flags.hours24Max then hh.tmod 24 else hh
  some ((timecodeText neg tc.flags.dropFrame fps hh mm ss ff).take 22)

def supportedFps : List Nat := [24, 25, 30, 48, 50, 60, 100, 120, 150]

/-- The code returned, and whether the rate is warned about. -/
def checkTimecode (fps : Nat) (flags : TimecodeFlags) : Int × Bool :=
  if int32 fps ≤ 0 then (averrorEinval, false)
  else if flags.dropFrame ∧ fps % 30 ≠ 0 then (averrorEinval, false)
  else (0, decide (fps ∉ supportedFps))

def fpsFromFrameRate (rate : AVRational) : Option Int :=
  if rate.den = 0 ∨ rate.num = 0 then some (-1)
  else do
    let rounded ← checked (rate.num + rate.den.tdiv 2)
    checked (rounded.tdiv rate.den)

/-- The code returned and the timecode; nothing where an int overflows. -/
def avTimecodeInitFromComponents (rate : AVRational) (flags : TimecodeFlags) (hh mm ss ff : Int) :
    Option (Int × AVTimecode) := do
  let fps ← fpsFromFrameRate rate
  let tc : AVTimecode := ⟨0, flags, rate, (fps % 4294967296).toNat⟩
  if (checkTimecode tc.fps flags).1 < 0 then some ((checkTimecode tc.fps flags).1, tc)
  else
    let seconds ← checked (hh * 3600 + mm * 60 + ss)
    let start := int32 (seconds * tc.fps + ff)
    if flags.dropFrame then
      let tmins ← checked (60 * hh + mm)
      some (0, { tc with start := int32 (start - (tc.fps / 30 * 2 : Nat) * (tmins - tmins.tdiv 10)) })
    else some (0, { tc with start := start })

/-- The labels are counted as if none were dropped; those at the start of a minute
are, but every tenth minute. -/
def Dropped (fps label : Nat) : Prop := label / (60 * fps) % 10 ≠ 0 ∧ label % (60 * fps) < 2 * fps / 30

instance (fps label : Nat) : Decidable (Dropped fps label) := inferInstanceAs (Decidable (_ ∧ _))

noncomputable def keptLabel (fps n : Nat) : Nat := Nat.nth (fun label => ¬Dropped fps label) n

def Enumerates (fps : Nat) : Prop :=
  ∀ n : Nat, (keptLabel fps n : Int) ≤ int32Max → avTimecodeAdjustNtscFramenum2 n fps = some (keptLabel fps n : Int)

structure Components (fps hh mm ss ff : Nat) : Prop where
  minutes : mm < 60
  seconds : ss < 60
  frames : ff < fps
  kept : ¬Dropped fps ((hh * 3600 + mm * 60 + ss) * fps + ff)
  fits : (((hh * 3600 + mm * 60 + ss) * fps + ff : Nat) : Int) ≤ int32Max

def PrintsBack (fps : Nat) : Prop :=
  ∀ (rate : AVRational) (flags : TimecodeFlags) (hh mm ss ff : Nat), fpsFromFrameRate rate = some (fps : Int) →
    flags.dropFrame = true → (flags.hours24Max = true → hh < 24) → Components fps hh mm ss ff →
      ∃ tc, avTimecodeInitFromComponents rate flags hh mm ss ff = some (0, tc) ∧
        avTimecodeMakeString tc 0 = some (timecodeText false true fps hh mm ss ff)

section Labels

variable {k : Nat}

def labelOf (k n : Nat) : Nat :=
  n + 18 * k * (n / (17982 * k)) + 2 * k * ((n % (17982 * k) - 2 * k) / (17982 * k / 10))

def frameOf (k label : Nat) : Nat :=
  label - 2 * k * (label / (1800 * k) - label / (1800 * k) / 10)

theorem dropped_iff (label : Nat) :
    Dropped (30 * k) label ↔ label / (1800 * k) % 10 ≠ 0 ∧ label % (1800 * k) < 2 * k := by
  have hminute : 60 * (30 * k) = 1800 * k := by omega
  have hdrop : 2 * (30 * k) / 30 = 2 * k := by omega
  rw [Dropped, hminute, hdrop]

theorem labelOf_lt_succ (hk : 0 < k) (hsmall : k ≤ 4) (n : Nat) : labelOf k n < labelOf k (n + 1) := by
  unfold labelOf
  obtain rfl | rfl | rfl | rfl : k = 1 ∨ k = 2 ∨ k = 3 ∨ k = 4 := by omega
  all_goals omega

theorem labelOf_kept (hk : 0 < k) (hsmall : k ≤ 4) (n : Nat) : ¬Dropped (30 * k) (labelOf k n) := by
  rw [dropped_iff]
  unfold labelOf
  obtain rfl | rfl | rfl | rfl : k = 1 ∨ k = 2 ∨ k = 3 ∨ k = 4 := by omega
  all_goals omega

theorem labelOf_frameOf (hk : 0 < k) (hsmall : k ≤ 4) {label : Nat} (h : ¬Dropped (30 * k) label) :
    labelOf k (frameOf k label) = label := by
  rw [dropped_iff] at h
  unfold labelOf frameOf
  obtain rfl | rfl | rfl | rfl : k = 1 ∨ k = 2 ∨ k = 3 ∨ k = 4 := by omega
  all_goals omega

theorem labels_infinite (hk : 0 < k) (hsmall : k ≤ 4) : (Set.ofPred fun label => ¬Dropped (30 * k) label).Infinite :=
  Set.infinite_of_injective_forall_mem (strictMono_nat_of_lt_succ (labelOf_lt_succ hk hsmall)).injective
    (labelOf_kept hk hsmall)

theorem keptLabel_eq (hk : 0 < k) (hsmall : k ≤ 4) (n : Nat) : keptLabel (30 * k) n = labelOf k n := by
  have hmono : StrictMono (labelOf k) := strictMono_nat_of_lt_succ (labelOf_lt_succ hk hsmall)
  have hcomp := @Nat.nth_comp_of_strictMono (fun label => ¬Dropped (30 * k) label) n (labelOf k) hmono
    (fun label hlabel => ⟨frameOf k label, labelOf_frameOf hk hsmall hlabel⟩)
    (fun hfinite => absurd hfinite (labels_infinite hk hsmall))
  rw [keptLabel, ← hcomp, Nat.nth_of_forall fun i _ => labelOf_kept hk hsmall i]

end Labels

section Adjust

variable {k n : Nat}

theorem checked_of {x : Int} (hlow : -2147483648 ≤ x) (hhigh : x ≤ int32Max) : checked x = some x :=
  if_pos ⟨hlow, hhigh⟩

theorem int32_of {x : Int} (hlow : 0 ≤ x) (hhigh : x ≤ int32Max) : int32 x = x := by
  rw [int32Max] at hhigh
  exact Int.bmod_eq_of_le (by omega) (by omega)

theorem tdiv_sub {m d e : Nat} (hde : d < e) : ((m : Int) - d).tdiv e = ((m - d) / e : Nat) := by
  rcases Nat.lt_or_ge m d with hlt | hge
  · obtain ⟨r, rfl⟩ := Nat.exists_eq_add_of_lt hlt
    have hneg : (m : Int) - (m + r + 1 : Nat) = -((r + 1 : Nat) : Int) := by
      push_cast
      ring
    rw [hneg, Int.neg_tdiv, ← Int.ofNat_tdiv, Nat.div_eq_of_lt (by omega), Nat.sub_eq_zero_of_le (by omega),
      Nat.zero_div]
    rfl
  · rw [← Int.natCast_sub hge, ← Int.ofNat_tdiv]

theorem thirty_tdiv : ((30 * k : Nat) : Int).tdiv 30 = k := by
  rw [Int.tdiv_eq_ediv_of_nonneg (by omega)]
  omega

theorem thirty_multiple (hk : 0 < k) : ((30 * k : Nat) : Int) ≠ 0 ∧ ((30 * k : Nat) : Int).tmod 30 = 0 := by
  rw [Int.tmod_eq_emod_of_nonneg (by omega)]
  omega

theorem adjust_eq (hk : 0 < k) (hfits : k ≤ 119424) (hlabel : (labelOf k n : Int) ≤ int32Max) :
    avTimecodeAdjustNtscFramenum2 n (30 * k : Nat) = some (labelOf k n : Int) := by
  have hframes : (k : Int) * 17982 = (17982 * k : Nat) := by
    push_cast
    ring
  have hten : ((17982 * k : Nat) : Int).tdiv 10 = (17982 * k / 10 : Nat) := by
    rw [Int.tdiv_eq_ediv_of_nonneg (by omega)]
    rfl
  have hquot := @tdiv_sub (n % (17982 * k)) (2 * k) (17982 * k / 10) (by omega)
  have hdrop : (k : Int) * 2 = (2 * k : Nat) := by
    push_cast
    ring
  have hbound : 2 * k * ((n % (17982 * k) - 2 * k) / (17982 * k / 10)) ≤ 2 * k * 10 := by
    have hlt := Nat.mod_lt n (show 0 < 17982 * k by omega)
    exact Nat.mul_le_mul_left _ (Nat.lt_succ_iff.mp (Nat.div_lt_of_lt_mul (by omega)))
  have hproduct : ((2 * k : Nat) : Int) * ((n % (17982 * k) - 2 * k) / (17982 * k / 10) : Nat) ≤ int32Max := by
    have hsmall : ((2 * k * ((n % (17982 * k) - 2 * k) / (17982 * k / 10)) : Nat) : Int) ≤ int32Max := by
      rw [int32Max]
      omega
    rwa [Int.natCast_mul] at hsmall
  have hsum : (n : Int) + 9 * (2 * k : Nat) * (n / (17982 * k) : Nat) +
      (2 * k : Nat) * ((n % (17982 * k) - 2 * k) / (17982 * k / 10) : Nat) = labelOf k n := by
    rw [labelOf]
    push_cast
    ring
  rw [avTimecodeAdjustNtscFramenum2, if_pos (thirty_multiple hk), thirty_tdiv, hframes,
    checked_of (by omega) (by rw [int32Max]; omega), Option.bind_eq_bind, Option.bind_some, hten, hdrop,
    ← Int.ofNat_tdiv, ← Int.ofNat_tmod]
  simp only [hquot]
  rw [checked_of (by omega) hproduct, Option.bind_some, hsum, int32_of (by omega) hlabel]

theorem adjust_overflow (hk : 119424 < k) : avTimecodeAdjustNtscFramenum2 n (30 * k : Nat) = none := by
  have hframes : checked (((30 * k : Nat) : Int).tdiv 30 * 17982) = none := by
    rw [thirty_tdiv, checked, if_neg]
    rw [int32Max]
    omega
  rw [avTimecodeAdjustNtscFramenum2, if_pos (thirty_multiple (by omega)), hframes]
  rfl

theorem adjust_first_minute (hk : 5 ≤ k) (hfits : k ≤ 119424) :
    avTimecodeAdjustNtscFramenum2 (1800 * k : Nat) (30 * k : Nat) = some ((1800 * k : Nat) : Int) := by
  have hlabel : labelOf k (1800 * k) = 1800 * k := by
    have hblock : 1800 * k / (17982 * k) = 0 := Nat.div_eq_of_lt (by omega)
    have hrest : 1800 * k % (17982 * k) = 1800 * k := Nat.mod_eq_of_lt (by omega)
    have htenth : (1800 * k - 2 * k) / (17982 * k / 10) = 0 := Nat.div_eq_of_lt (by omega)
    simp only [labelOf, hblock, hrest, htenth, Nat.mul_zero, Nat.add_zero]
  rw [adjust_eq (by omega) hfits (by rw [hlabel, int32Max]; omega), hlabel]

theorem first_minute_dropped (hk : 0 < k) : Dropped (30 * k) (1800 * k) := by
  rw [dropped_iff, Nat.div_self (by omega), Nat.mod_self]
  exact ⟨by decide, by omega⟩

theorem not_dropped_before {label : Nat} (h : label < 1800 * k) : ¬Dropped (30 * k) label := by
  rw [dropped_iff, Nat.div_eq_of_lt h]
  exact fun hdropped => hdropped.1 rfl

theorem second_minute_kept (hk : 0 < k) : ¬Dropped (30 * k) (1800 * k + 2 * k) := by
  rw [dropped_iff, Nat.add_mod_left, Nat.mod_eq_of_lt (by omega : 2 * k < 1800 * k)]
  exact fun hdropped => Nat.lt_irrefl _ hdropped.2

theorem keptLabel_le (hk : 0 < k) : keptLabel (30 * k) (1800 * k) ≤ 1800 * k + 2 * k := by
  have hfirst : Nat.count (fun label => ¬Dropped (30 * k) label) (1800 * k) = 1800 * k :=
    Nat.count_of_forall fun label => not_dropped_before
  have hmono := Nat.count_monotone (fun label => ¬Dropped (30 * k) label) (Nat.le_add_right (1800 * k) (2 * k))
  have hnext := Nat.count_succ (fun label => ¬Dropped (30 * k) label) (1800 * k + 2 * k)
  rw [if_pos (second_minute_kept hk)] at hnext
  exact Nat.lt_succ_iff.mp (Nat.nth_lt_of_lt_count (lt_of_lt_of_eq (by omega) hnext.symm))

theorem kept_infinite (hk : 0 < k) : (Set.ofPred fun label => ¬Dropped (30 * k) label).Infinite := by
  have hinjective : Function.Injective fun i : Nat => 1800 * k * (10 * i) := by
    intro i j hij
    have hten := Nat.eq_of_mul_eq_mul_left (by omega : 0 < 1800 * k) hij
    omega
  refine Set.infinite_of_injective_forall_mem hinjective fun i => ?_
  rw [Set.mem_ofPred_eq, dropped_iff, Nat.mul_div_cancel_left _ (by omega), Nat.mul_mod_right]
  exact fun hdropped => hdropped.1 rfl

theorem enumerates_iff (hk : 0 < k) : Enumerates (30 * k) ↔ k ≤ 4 := by
  constructor
  · intro h
    by_contra hlarge
    have hfirst := keptLabel_le hk
    rcases Nat.lt_or_ge 119424 k with hover | hfits
    · have hzero : keptLabel (30 * k) 0 = 0 :=
        Nat.nth_of_forall fun label hlabel => not_dropped_before (by omega)
      have hadjust := h 0 (by rw [hzero]; decide)
      rw [adjust_overflow hover] at hadjust
      cases hadjust
    · have hadjust := h (1800 * k) (by rw [int32Max]; omega)
      rw [adjust_first_minute (by omega) hfits, Option.some.injEq, Nat.cast_inj] at hadjust
      have hkept : ¬Dropped (30 * k) (keptLabel (30 * k) (1800 * k)) :=
        Nat.nth_mem_of_infinite (kept_infinite hk) (1800 * k)
      rw [← hadjust] at hkept
      exact hkept (first_minute_dropped hk)
  · intro hsmall n hlabel
    rw [keptLabel_eq hk hsmall] at hlabel ⊢
    exact adjust_eq hk (by omega) hlabel

end Adjust

section Printing

variable {k hh mm ss ff : Nat}

theorem paddedInt_natCast (width n : Nat) : paddedInt width n =
    List.replicate (width - (Nat.toDigits 10 n).length) '0' ++ Nat.toDigits 10 n := by
  rw [paddedInt, if_neg (by omega), Int.natAbs_natCast]

theorem paddedInt_value (width n : Nat) : Nat.ofDigitChars 10 (paddedInt width n) 0 = n := by
  rw [paddedInt_natCast, Nat.ofDigitChars_append, Nat.ofDigitChars_replicate_zero, Nat.mul_zero,
    Nat.ofDigitChars_ten_toDigits]

theorem length_paddedInt {width n size : Nat} (hwidth : width ≤ size) (hsize : 0 < size) (hn : n < 10 ^ size) :
    (paddedInt width n).length ≤ size := by
  have hdigits := (@Nat.length_toDigits_le_iff 10 n size (by decide) hsize).mpr hn
  rw [paddedInt_natCast, List.length_append, List.length_replicate]
  omega

theorem length_timecodeText {fps : Int} (hhours : hh < 100000) (hminutes : mm < 60) (hseconds : ss < 60)
    (hframes : ff < 10 ^ 10) : (timecodeText false true fps hh mm ss ff).length ≤ 22 := by
  have hwidth : ffLen fps ≤ 10 := by
    rw [ffLen]
    split_ifs <;> decide
  have hh' := @length_paddedInt 2 hh 5 (by decide) (by decide) hhours
  have mm' := @length_paddedInt 2 mm 2 le_rfl (by decide) (by omega)
  have ss' := @length_paddedInt 2 ss 2 le_rfl (by decide) (by omega)
  have ff' := length_paddedInt hwidth (by decide) hframes
  simp only [timecodeText, List.length_append, List.length_cons]
  rw [if_neg Bool.false_ne_true]
  simp only [List.length_nil]
  omega

theorem label_parts {fps : Nat} (hfps : 0 < fps) (hframes : ff < fps) (hseconds : ss < 60) (hminutes : mm < 60) :
    ((hh * 3600 + mm * 60 + ss) * fps + ff) % fps = ff ∧
      ((hh * 3600 + mm * 60 + ss) * fps + ff) / fps % 60 = ss ∧
      ((hh * 3600 + mm * 60 + ss) * fps + ff) / (fps * 60) = 60 * hh + mm ∧
      ((hh * 3600 + mm * 60 + ss) * fps + ff) / (fps * 3600) = hh := by
  have hdiv : ((hh * 3600 + mm * 60 + ss) * fps + ff) / fps = hh * 3600 + mm * 60 + ss := by
    rw [Nat.mul_comm, Nat.mul_add_div hfps, Nat.div_eq_of_lt hframes, Nat.add_zero]
  refine ⟨?_, ?_, ?_, ?_⟩
  · rw [Nat.mul_comm, Nat.mul_add_mod, Nat.mod_eq_of_lt hframes]
  · rw [hdiv]
    omega
  · rw [← Nat.div_div_eq_div_mul, hdiv]
    omega
  · rw [← Nat.div_div_eq_div_mul, hdiv]
    omega

theorem int32_natCast {n : Nat} (h : (n : Int) ≤ int32Max) : int32 n = n := int32_of (Int.natCast_nonneg n) h

theorem makeString_label {tc : AVTimecode} {n : Nat} (hfps : 0 < tc.fps) (hint : (tc.fps : Int) ≤ int32Max)
    (hdrop : tc.flags.dropFrame = true) (hstart : tc.start = n) (hn : (n : Int) ≤ int32Max)
    (hminutes : mm < 60) (hseconds : ss < 60) (hframes : ff < tc.fps) (hday : tc.flags.hours24Max = true → hh < 24)
    (hadjust : avTimecodeAdjustNtscFramenum2 n tc.fps =
      some (((hh * 3600 + mm * 60 + ss) * tc.fps + ff : Nat) : Int)) :
    avTimecodeMakeString tc 0 = some ((timecodeText false true tc.fps hh mm ss ff).take 22) := by
  obtain ⟨hff, hss, hmm, hhh⟩ := @label_parts hh mm ss ff tc.fps hfps hframes hseconds hminutes
  generalize hlabel : (hh * 3600 + mm * 60 + ss) * tc.fps + ff = label at hff hss hmm hhh hadjust
  have hmm' : label / (tc.fps * 60) % 60 = mm := by omega
  have hchecked : checked (0 + tc.start) = some (n : Int) := by
    rw [hstart, zero_add, checked_of (by omega) hn]
  have hsixty : (tc.fps : Int) * 60 = (tc.fps * 60 : Nat) := by push_cast; rfl
  have hhour : (tc.fps : Int) * 3600 = (tc.fps * 3600 : Nat) := by push_cast; rfl
  rw [avTimecodeMakeString, hchecked, Option.bind_eq_bind, Option.bind_some, int32_natCast hint, if_pos hdrop, hadjust,
    Option.bind_some]
  have hnonneg : ¬(label : Int) < 0 := by omega
  have hminute : ((label / (tc.fps * 60) : Nat) : Int).tmod 60 = mm := by
    rw [Int.tmod_eq_emod_of_nonneg (Int.natCast_nonneg _)]
    exact_mod_cast hmm'
  have hsecond : ((label / tc.fps : Nat) : Int).tmod 60 = ss := by
    rw [Int.tmod_eq_emod_of_nonneg (Int.natCast_nonneg _)]
    exact_mod_cast hss
  have hhours : (if tc.flags.hours24Max = true then ((hh : Nat) : Int).tmod 24 else hh) = hh := by
    split
    · next hmax =>
        have hlt := hday hmax
        rw [Int.tmod_eq_emod_of_nonneg (by omega)]
        omega
    · rfl
  simp only [hnonneg, decide_false, Bool.false_and, if_false, Option.bind_some, hsixty, hhour, hdrop,
    ← Int.ofNat_tdiv, ← Int.ofNat_tmod, hff, hhh, hminute, hsecond, hhours]

theorem dropped_le (k label : Nat) : 2 * k * (label / (1800 * k) - label / (1800 * k) / 10) ≤ label :=
  calc 2 * k * (label / (1800 * k) - label / (1800 * k) / 10)
      ≤ 1800 * k * (label / (1800 * k)) := Nat.mul_le_mul (by omega) (Nat.sub_le _ _)
    _ ≤ label := Nat.mul_div_le label (1800 * k)

theorem initFromComponents_eq {rate : AVRational} {flags : TimecodeFlags} (hk : 0 < k)
    (hint : ((30 * k : Nat) : Int) ≤ int32Max) (hrate : fpsFromFrameRate rate = some ((30 * k : Nat) : Int))
    (hdrop : flags.dropFrame = true) (h : Components (30 * k) hh mm ss ff) :
    avTimecodeInitFromComponents rate flags hh mm ss ff =
      some (0, ⟨frameOf k ((hh * 3600 + mm * 60 + ss) * (30 * k) + ff), flags, rate, 30 * k⟩) := by
  have hfits := h.fits
  have hfps : (((30 * k : Nat) : Int) % 4294967296).toNat = 30 * k := by
    rw [int32Max] at hint
    omega
  have hcheck : (checkTimecode (30 * k) flags).1 = 0 := by
    rw [checkTimecode, int32_natCast hint, if_neg (by omega), if_neg (by omega)]
  have hscaled : hh * 3600 + mm * 60 + ss ≤ (hh * 3600 + mm * 60 + ss) * (30 * k) :=
    Nat.le_mul_of_pos_right _ (by omega)
  have hchecked : checked ((hh : Int) * 3600 + mm * 60 + ss) = some ((hh * 3600 + mm * 60 + ss : Nat) : Int) := by
    rw [checked_of (by omega) (by omega)]
    push_cast
    rfl
  have htmins : checked (60 * (hh : Int) + mm) = some ((60 * hh + mm : Nat) : Int) := by
    rw [checked_of (by omega) (by rw [int32Max] at hfits ⊢; omega)]
    push_cast
    rfl
  obtain ⟨-, -, hminute, -⟩ := @label_parts hh mm ss ff (30 * k) (by omega) h.frames h.seconds h.minutes
  rw [show 30 * k * 60 = 1800 * k by omega] at hminute
  have hstart : ((hh * 3600 + mm * 60 + ss : Nat) : Int) * (30 * k : Nat) + ff =
      ((hh * 3600 + mm * 60 + ss) * (30 * k) + ff : Nat) := by
    push_cast
    rfl
  have hle := dropped_le k ((hh * 3600 + mm * 60 + ss) * (30 * k) + ff)
  have hframe : (((hh * 3600 + mm * 60 + ss) * (30 * k) + ff : Nat) : Int) -
      (30 * k / 30 * 2 : Nat) * ((60 * hh + mm : Nat) - ((60 * hh + mm : Nat) : Int).tdiv 10) =
        frameOf k ((hh * 3600 + mm * 60 + ss) * (30 * k) + ff) := by
    rw [frameOf, Int.natCast_sub hle, hminute, show 30 * k / 30 * 2 = 2 * k by omega,
      Int.natCast_mul (2 * k) (60 * hh + mm - (60 * hh + mm) / 10), Int.natCast_sub (Nat.div_le_self _ _)]
    rfl
  have hframele : frameOf k ((hh * 3600 + mm * 60 + ss) * (30 * k) + ff) ≤
      (hh * 3600 + mm * 60 + ss) * (30 * k) + ff := Nat.sub_le _ _
  rw [avTimecodeInitFromComponents, hrate, Option.bind_eq_bind, Option.bind_some]
  simp only [hfps, hcheck, Int.lt_irrefl, if_false, hchecked, htmins, Option.bind_some, hdrop,
    if_true, hstart, int32_natCast hfits, hframe]
  rw [int32_natCast (by omega)]

theorem printed_components {rate : AVRational} {flags : TimecodeFlags} {hh' mm' ss' ff' : Nat} (hk : 0 < k)
    (hint : ((30 * k : Nat) : Int) ≤ int32Max) (hrate : fpsFromFrameRate rate = some ((30 * k : Nat) : Int))
    (hdrop : flags.dropFrame = true) (hday : flags.hours24Max = true → hh' < 24) (h : Components (30 * k) hh mm ss ff)
    (hminutes : mm' < 60) (hseconds : ss' < 60) (hframes : ff' < 30 * k)
    (hadjust : avTimecodeAdjustNtscFramenum2 (frameOf k ((hh * 3600 + mm * 60 + ss) * (30 * k) + ff))
      (30 * k : Nat) = some (((hh' * 3600 + mm' * 60 + ss') * (30 * k) + ff' : Nat) : Int)) :
    ∃ tc, avTimecodeInitFromComponents rate flags hh mm ss ff = some (0, tc) ∧
      avTimecodeMakeString tc 0 = some ((timecodeText false true (30 * k : Nat) hh' mm' ss' ff').take 22) := by
  have hframele : frameOf k ((hh * 3600 + mm * 60 + ss) * (30 * k) + ff) ≤
      (hh * 3600 + mm * 60 + ss) * (30 * k) + ff := Nat.sub_le _ _
  have hfits := h.fits
  refine ⟨_, initFromComponents_eq hk hint hrate hdrop h, ?_⟩
  exact makeString_label (show 0 < 30 * k by omega) hint hdrop rfl ((Int.ofNat_le.mpr hframele).trans hfits) hminutes
    hseconds hframes hday hadjust

theorem components_text {fps : Nat} (hint : (fps : Int) ≤ int32Max) (h : Components fps hh mm ss ff) (hfps : 30 ≤ fps) :
    (timecodeText false true fps hh mm ss ff).take 22 = timecodeText false true fps hh mm ss ff := by
  have hfits := h.fits
  have hframes := h.frames
  have hscaled : (hh * 3600 + mm * 60 + ss) * 30 ≤ (hh * 3600 + mm * 60 + ss) * fps := Nat.mul_le_mul_left _ hfps
  rw [int32Max] at hfits hint
  exact List.take_of_length_le (length_timecodeText (by omega) h.minutes h.seconds (by omega))

theorem printsBack_of_small (hk : 0 < k) (hsmall : k ≤ 4) : PrintsBack (30 * k) := by
  intro rate flags hh mm ss ff hrate hdrop hday h
  have hint : ((30 * k : Nat) : Int) ≤ int32Max := by
    rw [int32Max]
    omega
  have hlabel := labelOf_frameOf hk hsmall h.kept
  have hadjust := @adjust_eq k (frameOf k ((hh * 3600 + mm * 60 + ss) * (30 * k) + ff)) hk (by omega)
    (by rw [hlabel]; exact h.fits)
  rw [hlabel] at hadjust
  obtain ⟨tc, htc, htext⟩ := printed_components hk hint hrate hdrop hday h h.minutes h.seconds h.frames hadjust
  rw [components_text hint h (by omega)] at htext
  exact ⟨tc, htc, htext⟩

theorem timecodeText_frames {neg drop : Bool} {fps : Int} {ff' : Nat}
    (h : timecodeText neg drop fps hh mm ss ff = timecodeText neg drop fps hh mm ss ff') : ff = ff' := by
  rw [timecodeText, timecodeText, List.append_cancel_left_eq, List.cons.injEq] at h
  have hvalue := congrArg (fun text => Nat.ofDigitChars 10 text 0) h.2
  simp only [paddedInt_value] at hvalue
  exact hvalue

theorem fps_of_whole (hint : ((30 * k : Nat) : Int) ≤ int32Max) (hk : 0 < k) :
    fpsFromFrameRate ⟨(30 * k : Nat), 1⟩ = some ((30 * k : Nat) : Int) := by
  have hhalf : (1 : Int).tdiv 2 = 0 := rfl
  have hchecked : checked ((30 * k : Nat) : Int) = some ((30 * k : Nat) : Int) := checked_of (by omega) hint
  have hnonzero : ¬((1 : Int) = 0 ∨ ((30 * k : Nat) : Int) = 0) := by omega
  simp only [fpsFromFrameRate, hnonzero, if_false, hhalf, add_zero, hchecked, Option.bind_eq_bind, Option.bind_some,
    Int.tdiv_one]

theorem not_printsBack (hk : 5 ≤ k) (hint : ((30 * k : Nat) : Int) ≤ int32Max) : ¬PrintsBack (30 * k) := by
  intro h
  have hrate := fps_of_whole hint (by omega)
  rcases Nat.lt_or_ge 119424 k with hover | hfits
  · have hzero : Components (30 * k) 0 0 0 0 :=
      ⟨by decide, by decide, by omega, by simpa using @not_dropped_before k 0 (by omega), by simp [int32Max]⟩
    obtain ⟨tc, htc, htext⟩ := h _ ⟨true, false, false⟩ 0 0 0 0 hrate rfl (fun hday => by cases hday) hzero
    rw [initFromComponents_eq (by omega) hint hrate rfl hzero, Option.some.injEq, Prod.mk.injEq] at htc
    have hframe : frameOf k ((0 * 3600 + 0 * 60 + 0) * (30 * k) + 0) = 0 := by simp [frameOf]
    have hstart : checked (0 + ((0 : Nat) : Int)) = some ((0 : Nat) : Int) := rfl
    rw [← htc.2, hframe, avTimecodeMakeString] at htext
    simp only [hstart, int32_natCast hint, Option.bind_eq_bind, Option.bind_some, if_true, adjust_overflow hover,
      Option.bind_none] at htext
    cases htext
  · have hlabel : (0 * 3600 + 1 * 60 + 0) * (30 * k) + 2 * k = 1800 * k + 2 * k := by omega
    have hminute : (0 * 3600 + 1 * 60 + 0) * (30 * k) + 0 = 1800 * k := by omega
    have hcomponents : Components (30 * k) 0 1 0 (2 * k) := by
      refine ⟨by decide, by decide, by omega, ?_, ?_⟩
      · rw [hlabel]
        exact second_minute_kept (by omega)
      · rw [hlabel, int32Max]
        omega
    have hframe : frameOf k (1800 * k + 2 * k) = 1800 * k := by
      have hone : (1800 * k + 2 * k) / (1800 * k) = 1 := by
        rw [Nat.add_div_left _ (by omega), Nat.div_eq_of_lt (by omega)]
      rw [frameOf, hone]
      omega
    obtain ⟨tc, htc, htext⟩ := h _ ⟨true, false, false⟩ 0 1 0 (2 * k) hrate rfl (fun hday => by cases hday) hcomponents
    have hprinted := @printed_components k 0 1 0 (2 * k) ⟨(30 * k : Nat), 1⟩ ⟨true, false, false⟩ 0 1 0 0 (by omega) hint
      hrate rfl (fun hday => by cases hday) hcomponents (by decide) (by decide) (by omega)
      (by rw [hlabel, hframe, hminute]; exact adjust_first_minute hk hfits)
    obtain ⟨tc', htc', htext'⟩ := hprinted
    have hsame : tc = tc' := (Prod.mk.inj (Option.some.inj (htc.symm.trans htc'))).2
    rw [hsame, htext', Option.some.injEq, List.take_of_length_le (@length_timecodeText 0 1 0 0 _ (by decide) (by decide)
      (by decide) (by decide))] at htext
    have hzero := timecodeText_frames htext
    omega

theorem printsBack_iff (hk : 0 < k) (hint : ((30 * k : Nat) : Int) ≤ int32Max) : PrintsBack (30 * k) ↔ k ≤ 4 := by
  refine ⟨fun h => ?_, printsBack_of_small hk⟩
  by_contra hlarge
  exact not_printsBack (by omega) hint h

/-- The drop-frame labels are told right at no more than 120 of them for each second. -/
theorem drop_frame_right_iff (fps : Nat) (flags : TimecodeFlags) (hfps : fps < 4294967296)
    (hdrop : flags.dropFrame = true) (hcheck : (checkTimecode fps flags).1 = 0) :
    (Enumerates fps ↔ fps ≤ 120) ∧ (PrintsBack fps ↔ fps ≤ 120) := by
  have hvalid : 0 < int32 fps ∧ fps % 30 = 0 := by
    rw [checkTimecode] at hcheck
    split at hcheck
    · cases hcheck
    split at hcheck
    · cases hcheck
    next hpos hmultiple => exact ⟨not_le.mp hpos, not_not.mp fun hne => hmultiple ⟨hdrop, hne⟩⟩
  have hint : (fps : Int) ≤ int32Max := by
    have hsame : int32 fps % ((2 ^ 32 : Nat) : Int) = fps % ((2 ^ 32 : Nat) : Int) := Int.bmod_emod
    have hupper : int32 fps < (((2 ^ 32 : Nat) : Int) + 1) / 2 := Int.bmod_lt (by decide)
    rw [Int.emod_eq_of_lt hvalid.1.le (by omega), Int.emod_eq_of_lt (by omega) (by omega)] at hsame
    rw [int32Max]
    omega
  obtain ⟨k, rfl⟩ : ∃ k, fps = 30 * k := ⟨fps / 30, by omega⟩
  have hk : 0 < k := by
    by_contra hzero
    rw [Nat.eq_zero_of_not_pos hzero] at hvalid
    exact absurd hvalid.1 (by decide)
  rw [enumerates_iff hk, printsBack_iff hk hint]
  omega

theorem drop_frame_right_at_thirty : Enumerates 30 ∧ PrintsBack 30 := by
  have hright := drop_frame_right_iff 30 ⟨true, false, false⟩ (by decide) rfl (by decide)
  exact ⟨hright.1.mpr (by decide), hright.2.mpr (by decide)⟩

/-- At 150 labels for each second frame 9000 has a label that is dropped. -/
theorem dropped_at_150 : avTimecodeAdjustNtscFramenum2 9000 150 = some 9000 ∧ Dropped 150 9000 ∧ ¬Enumerates 150 ∧
    ¬PrintsBack 150 :=
  ⟨by decide, by decide, fun h => absurd ((@enumerates_iff 5 (by decide)).mp h) (by decide),
    fun h => absurd ((@printsBack_iff 5 (by decide) (by decide)).mp h) (by decide)⟩

end Printing

end P2PFFmpeg.Util
