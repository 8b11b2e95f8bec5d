import P2PFFmpeg.Util.Rescale
import Mathlib.Data.Sign.Basic

namespace P2PFFmpeg.Util

open Library.Rounding

/-- A signed number converted to an unsigned one of 64 bits. -/
def asUnsigned (x : Int) : Nat := (x % 18446744073709551616).toNat

def avCompareTsRnd (tsA : Int) (tbA : AVRational) (tsB : Int) (tbB : AVRational) : Option Int := do
  let a ← int64 (tbA.num * tbB.den)
  let b ← int64 (tbB.num * tbA.den)
  if ((tsA.natAbs ||| asUnsigned a ||| tsB.natAbs ||| asUnsigned b : Nat) : Int) ≤ int32Max then do
    let left ← int64 (tsA * a)
    let right ← int64 (tsB * b)
    some ((if left > right then 1 else 0) - (if left < right then 1 else 0))
  else do
    let downA ← avRescaleRnd tsA a b avRoundDown
    if downA < tsB then some (-1)
    else do
      let downB ← avRescaleRnd tsB b a avRoundDown
      if downB < tsA then some 1 else some 0

/-- A timestamp that is not `AV_NOPTS_VALUE`, with its time base. -/
structure Stamp where
  ts : Int
  tb : AVRational
  valid : int64Min < ts ∧ ts ≤ int64Max
  num : 0 < tb.num ∧ tb.num ≤ int32Max
  den : 0 < tb.den ∧ tb.den ≤ int32Max

def Stamp.time (x : Stamp) : ℚ := timeOf x.ts x.tb

def Stamp.compare (x y : Stamp) : Option Int := avCompareTsRnd x.ts x.tb y.ts y.tb

def Stamp.ToldIn (x : Stamp) (tb : AVRational) : Prop :=
  timeOf int64Min tb ≤ x.time ∧ x.time ≤ timeOf int64Max tb

/-- What is asked of the arguments of `av_compare_ts`. -/
def Stamp.Comparable (x y : Stamp) : Prop := x.ToldIn y.tb ∧ y.ToldIn x.tb

section Factors

variable {x y : Stamp}

def Stamp.factor (x y : Stamp) : Int := x.tb.num * y.tb.den

theorem Stamp.factor_pos (x y : Stamp) : 0 < x.factor y := mul_pos x.num.1 y.den.1

theorem Stamp.factor_le (x y : Stamp) : x.factor y ≤ int32Max * int32Max :=
  mul_le_mul x.num.2 y.den.2 y.den.1.le (by decide)

theorem Stamp.factor_int64 (x y : Stamp) : 0 ≤ x.factor y ∧ x.factor y ≤ int64Max := by
  have hpos := x.factor_pos y
  have hle := x.factor_le y
  simp only [int32Max] at hle
  refine ⟨hpos.le, ?_⟩
  simp only [int64Max]
  omega

theorem Stamp.positive (x : Stamp) : x.tb.Positive := ⟨x.num.1, x.den.1⟩

theorem Stamp.time_lt (x y : Stamp) : x.time < y.time ↔ x.ts * x.factor y < y.ts * y.factor x :=
  timeOf_lt x.positive y.positive

theorem Stamp.toldIn_iff (x y : Stamp) : x.ToldIn y.tb ↔
    (int64Min : ℚ) ≤ (x.ts * x.factor y : ℚ) / y.factor x ∧
      (x.ts * x.factor y : ℚ) / y.factor x ≤ int64Max := by
  have hnum : (0 : ℚ) < y.tb.num := Int.cast_pos.mpr y.num.1
  have hden : (0 : ℚ) < y.tb.den := Int.cast_pos.mpr y.den.1
  have hdenx : (0 : ℚ) < x.tb.den := Int.cast_pos.mpr x.den.1
  have hunit : (0 : ℚ) < y.tb.num / y.tb.den := div_pos hnum hden
  have htime : (x.ts * x.factor y : ℚ) / y.factor x * (y.tb.num / y.tb.den) = x.time := by
    simp only [Stamp.factor, Stamp.time, timeOf]
    push_cast
    field_simp
  have hscaled : ∀ n : Int, timeOf n y.tb = n * (y.tb.num / y.tb.den) := fun n => mul_div_assoc _ _ _
  rw [Stamp.ToldIn, hscaled, hscaled, ← htime, mul_le_mul_iff_left₀ hunit, mul_le_mul_iff_left₀ hunit]

end Factors

section Paths

theorem asUnsigned_of_nonneg {x : Int} (h : 0 ≤ x ∧ x ≤ int64Max) : asUnsigned x = x.toNat := by
  simp only [int64Max] at h
  rw [asUnsigned, Int.emod_eq_of_lt h.1 (by omega)]

theorem or_le_int32Max {a b c d : Nat} (h : ((a ||| b ||| c ||| d : Nat) : Int) ≤ int32Max) :
    (a : Int) ≤ int32Max ∧ (b : Int) ≤ int32Max ∧ (c : Int) ≤ int32Max ∧ (d : Int) ≤ int32Max := by
  have hd : d ≤ a ||| b ||| c ||| d := Nat.right_le_or
  have habc : a ||| b ||| c ≤ a ||| b ||| c ||| d := Nat.left_le_or
  have hc : c ≤ a ||| b ||| c := Nat.right_le_or
  have hab : a ||| b ≤ a ||| b ||| c := Nat.left_le_or
  have hb : b ≤ a ||| b := Nat.right_le_or
  have ha : a ≤ a ||| b := Nat.left_le_or
  omega

theorem int64_small {ts f : Int} (hts : (ts.natAbs : Int) ≤ int32Max) (hf : 0 ≤ f ∧ f ≤ int32Max) :
    int64 (ts * f) = some (ts * f) := by
  have hproduct : (ts.natAbs : Int) * f ≤ int32Max * int32Max := mul_le_mul hts hf.2 hf.1 (by decide)
  have hupper : ts * f ≤ ts.natAbs * f := mul_le_mul_of_nonneg_right Int.le_natAbs hf.1
  have hlower : -ts * f ≤ ts.natAbs * f := by
    apply mul_le_mul_of_nonneg_right _ hf.1
    omega
  rw [neg_mul] at hlower
  simp only [int32Max] at hproduct
  apply int64_some
  · simp only [int64Min]
    omega
  · simp only [int64Max]
    omega

theorem Stamp.rescale_down {x y : Stamp} (h : x.ToldIn y.tb) : ∃ down,
    avRescaleRnd x.ts (x.factor y) (y.factor x) avRoundDown = some down ∧
      (down < y.ts ↔ x.time < y.time) := by
  have hexact := avRescaleRnd_exact .down false x.valid (x.factor_int64 y)
    ⟨y.factor_pos x, (y.factor_int64 x).2⟩
  rw [if_neg (fun hpass => Bool.false_ne_true hpass.1)] at hexact
  obtain ⟨hlow, hhigh⟩ := (x.toldIn_iff y).mp h
  have hfloor : clipped (Mode.down.round ((x.ts * x.factor y : ℚ) / y.factor x)) =
      ⌊(x.ts * x.factor y : ℚ) / y.factor x⌋ := by
    apply if_pos
    constructor
    · exact Int.le_floor.mpr hlow
    · exact Int.cast_le.mp ((Int.floor_le _).trans hhigh)
  rw [hfloor] at hexact
  refine ⟨_, hexact, ?_⟩
  have hpos : (0 : ℚ) < y.factor x := Int.cast_pos.mpr (y.factor_pos x)
  rw [Int.floor_lt, div_lt_iff₀ hpos, x.time_lt y, ← @Int.cast_lt ℚ]
  push_cast
  rfl

theorem or_le_int32Max_iff {a b c d : Nat} : ((a ||| b ||| c ||| d : Nat) : Int) ≤ int32Max ↔
    (a : Int) ≤ int32Max ∧ (b : Int) ≤ int32Max ∧ (c : Int) ≤ int32Max ∧ (d : Int) ≤ int32Max := by
  refine ⟨or_le_int32Max, fun ⟨ha, hb, hc, hd⟩ => ?_⟩
  have hbits : ∀ n : Nat, (n : Int) ≤ int32Max ↔ n < 2 ^ 31 := by
    intro n
    simp only [int32Max]
    omega
  rw [hbits] at *
  exact Nat.or_lt_two_pow (Nat.or_lt_two_pow (Nat.or_lt_two_pow ha hb) hc) hd

/-- Without an overflow the comparison is the one in one step. -/
theorem Stamp.compare_avCompareTs (x y : Stamp) :
    x.compare y = some (avCompareTs x.ts x.tb y.ts y.tb) := by
  have hx := x.factor_int64 y
  have hy := y.factor_int64 x
  have hmin : int64Min ≤ 0 := by decide
  have hsmall : ∀ f : Int, 0 ≤ f → ((f.toNat : Int) ≤ int32Max ↔ f ≤ int32Max) := by
    intro f hf
    rw [Int.toNat_of_nonneg hf]
  unfold Stamp.compare avCompareTsRnd avCompareTs
  rw [show x.tb.num * y.tb.den = x.factor y from rfl, show y.tb.num * x.tb.den = y.factor x from rfl,
    int64_some (hmin.trans hx.1) hx.2, int64_some (hmin.trans hy.1) hy.2, Option.bind_eq_bind,
    Option.bind_some, Option.bind_some, asUnsigned_of_nonneg hx, asUnsigned_of_nonneg hy]
  simp only [or_le_int32Max_iff, hsmall _ hx.1, hsmall _ hy.1]
  split
  · next h =>
      rw [int64_small h.1 ⟨hx.1, h.2.1⟩, int64_small h.2.2.1 ⟨hy.1, h.2.2.2⟩, Option.bind_some,
        Option.bind_some]
  · rw [avRescaleDown_eq x.valid hx ⟨y.factor_pos x, hy.2⟩, avRescaleDown_eq y.valid hy ⟨x.factor_pos y, hx.2⟩,
      Option.bind_some, Option.bind_some]
    split
    · rfl
    · split <;> rfl

theorem Stamp.compare_eq {x y : Stamp} (h : x.Comparable y) : x.compare y =
    some (if x.time < y.time then -1 else if y.time < x.time then 1 else 0) := by
  have hx := x.factor_int64 y
  have hy := y.factor_int64 x
  have hmin : int64Min ≤ 0 := by decide
  unfold Stamp.compare avCompareTsRnd
  rw [show x.tb.num * y.tb.den = x.factor y from rfl, show y.tb.num * x.tb.den = y.factor x from rfl,
    int64_some (hmin.trans hx.1) hx.2, int64_some (hmin.trans hy.1) hy.2, Option.bind_eq_bind,
    Option.bind_some, Option.bind_some, asUnsigned_of_nonneg hx, asUnsigned_of_nonneg hy]
  split
  · next hsmall =>
      obtain ⟨htsx, hfx, htsy, hfy⟩ := or_le_int32Max hsmall
      rw [int64_small htsx ⟨hx.1, by omega⟩, int64_small htsy ⟨hy.1, by omega⟩, Option.bind_some,
        Option.bind_some]
      simp only [x.time_lt y, y.time_lt x]
      split
      · next hgt => rw [if_neg (by omega), if_neg (by omega), sub_zero]
      · next hle => split <;> rfl
  · obtain ⟨downx, hdownx, hltx⟩ := Stamp.rescale_down h.1
    obtain ⟨downy, hdowny, hlty⟩ := Stamp.rescale_down h.2
    rw [hdownx, hdowny, Option.bind_some, Option.bind_some]
    simp only [hltx, hlty]
    split
    · rfl
    · split <;> rfl

theorem sign_time (x y : Stamp) : (SignType.sign (x.time - y.time) : Int) =
    if x.time < y.time then -1 else if y.time < x.time then 1 else 0 := by
  obtain hlt | heq | hgt := lt_trichotomy x.time y.time
  · rw [if_pos hlt, sign_neg (sub_neg.mpr hlt)]
    rfl
  · rw [heq, sub_self, sign_zero, if_neg (lt_irrefl _), if_neg (lt_irrefl _)]
    rfl
  · rw [if_neg (not_lt.mpr hgt.le), if_pos hgt, sign_pos (sub_pos.mpr hgt)]
    rfl

theorem sign_time_le (x y : Stamp) : (SignType.sign (x.time - y.time) : Int) ≤ 0 ↔ x.time ≤ y.time := by
  rw [sign_time]
  split
  · next hlt => exact iff_of_true (by decide) hlt.le
  · split
    · next hgt => exact iff_of_false (by decide) (not_le.mpr hgt)
    · next hle => exact iff_of_true (by decide) (not_lt.mp hle)

theorem sign_time_lt (x y : Stamp) : (SignType.sign (x.time - y.time) : Int) < 0 ↔ x.time < y.time := by
  rw [sign_time]
  split
  · next hlt => exact iff_of_true (by decide) hlt
  · next hnot => split <;> exact iff_of_false (by decide) hnot

end Paths

/-- `av_compare_ts` gives the sign of the difference of the times; the order it tells is
antisymmetric and transitive. -/
theorem compare_sign {x y z : Stamp} (hxy : x.Comparable y) (hyz : y.Comparable z)
    (hxz : x.Comparable z) :
    x.compare y = some (SignType.sign (x.time - y.time) : Int) ∧
      y.compare x = (x.compare y).map Neg.neg ∧
      ∀ c ∈ x.compare y, ∀ d ∈ y.compare z, c ≤ 0 → d ≤ 0 →
        ∃ e ∈ x.compare z, e ≤ 0 ∧ (c < 0 ∨ d < 0 → e < 0) := by
  have hsign : ∀ {a b : Stamp}, a.Comparable b →
      a.compare b = some (SignType.sign (a.time - b.time) : Int) := by
    intro a b h
    rw [Stamp.compare_eq h, sign_time]
  refine ⟨hsign hxy, ?_, ?_⟩
  · rw [hsign hxy, hsign hxy.symm, Option.map_some, ← neg_sub, Left.sign_neg]
    exact congrArg some (SignType.coe_neg _)
  · intro c hc d hd hc0 hd0
    obtain rfl := Option.some.inj ((hsign hxy).symm.trans hc)
    obtain rfl := Option.some.inj ((hsign hyz).symm.trans hd)
    rw [sign_time_le] at hc0 hd0
    refine ⟨_, hsign hxz, (sign_time_le x z).mpr (hc0.trans hd0), ?_⟩
    rw [sign_time_lt, sign_time_lt, sign_time_lt]
    rintro (hlt | hlt)
    · exact lt_of_lt_of_le hlt hd0
    · exact lt_of_le_of_lt hc0 hlt

/-- A timestamp far from zero in a time base of 90 kHz, and two in milliseconds. -/
theorem compare_sign_late :
    let x : Stamp := ⟨9007199254740993, ⟨1, 90000⟩, by decide, by decide, by decide⟩
    let y : Stamp := ⟨100079991719344, ⟨1, 1000⟩, by decide, by decide, by decide⟩
    x.compare y = some (SignType.sign (x.time - y.time) : Int) := by
  intro x y
  have hxy : x.Comparable y := by
    simp only [Stamp.Comparable, Stamp.ToldIn, Stamp.time, timeOf, int64Min, int64Max, x, y]
    norm_num
  have hyy : y.Comparable y := by
    simp only [Stamp.Comparable, Stamp.ToldIn, Stamp.time, timeOf, int64Min, int64Max, y]
    norm_num
  exact (compare_sign hxy hyy hxy).1

end P2PFFmpeg.Util
