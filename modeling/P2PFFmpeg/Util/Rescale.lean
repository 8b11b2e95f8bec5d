import P2PFFmpeg.Library.Rounding
import P2PFFmpeg.Util.Packet
import Mathlib.Data.Nat.ModEq
import Mathlib.Data.Rat.Floor

namespace P2PFFmpeg.Util

open Library.Rounding

/-- The values of `enum AVRounding`. -/
def avRoundZero : UInt32 := 0

def avRoundInf : UInt32 := 1

def avRoundDown : UInt32 := 2

def avRoundUp : UInt32 := 3

def avRoundNearInf : UInt32 := 5

def avRoundPassMinmax : UInt32 := 8192

/-- A result of signed arithmetic; nothing when it overflows. -/
def int64 (x : Int) : Option Int := if int64Min ≤ x ∧ x ≤ int64Max then some x else none

/-- Unsigned arithmetic wraps around. -/
def word (x : Nat) : Nat := x % 18446744073709551616

def rescaleSmall (a b c r : Int) : Option Int := do
  let product ← int64 (a * b)
  let sum ← int64 (product + r)
  int64 (sum.tdiv c)

def rescaleSplit (a b c r : Int) : Option Int := do
  let ad ← int64 (a.tdiv c)
  let product ← int64 (a.tmod c * b)
  let sum ← int64 (product + r)
  let a2 ← int64 (sum.tdiv c)
  if ad ≥ int32Max ∧ b ≠ 0 ∧ ad > (int64Max - a2).tdiv b then some int64Min
  else do
    let high ← int64 (ad * b)
    int64 (high + a2)

/-- The loop over the bits of the low word, from the highest one: the remainder
and the quotient. -/
def divideBits (c a0 : Nat) : Nat → Nat × Nat → Nat × Nat
  | 0, st => st
  | i + 1, (a1, t1) =>
      let a1 := word (a1 + a1 + a0 / 2 ^ i % 2)
      let t1 := word (t1 + t1)
      if c ≤ a1 then divideBits c a0 i (a1 - c, word (t1 + 1)) else divideBits c a0 i (a1, t1)

def productWords (a b r : Nat) : Nat × Nat × Nat :=
  let a0 := a % 4294967296
  let a1 := a / 4294967296
  let b0 := b % 4294967296
  let b1 := b / 4294967296
  let t1 := word (word (a0 * b1) + word (a1 * b0))
  let t1a := word (t1 * 4294967296)
  let a0 := word (word (a0 * b0) + t1a)
  let a1 := word (word (a1 * b1) + t1 / 4294967296 + if a0 < t1a then 1 else 0)
  let a0 := word (a0 + r)
  let a1 := word (a1 + if a0 < r then 1 else 0)
  (a1, a0, t1)

def rescaleWide (a b c r : Int) : Int :=
  let words := productWords a.toNat b.toNat r.toNat
  let t1 := (divideBits c.toNat words.2.1 64 (words.1, words.2.2)).2
  if t1 > int64Max then int64Min else t1

def rescaleMagnitude (a b c : Int) (rnd : UInt32) : Option Int :=
  let r := if rnd = avRoundNearInf then c / 2 else if rnd &&& 1 ≠ 0 then c - 1 else 0
  if b ≤ int32Max ∧ c ≤ int32Max then
    if a ≤ int32Max then rescaleSmall a b c r else rescaleSplit a b c r
  else some (rescaleWide a b c r)

def roundingValid (rnd : UInt32) : Bool :=
  rnd &&& ~~~avRoundPassMinmax ≤ 5 && rnd &&& ~~~avRoundPassMinmax != 4

/-- The call of itself for a negative number passes the checks once more, as the
number is positive there and the flag is gone. -/
def avRescaleRnd (a b c : Int) (rnd : UInt32) : Option Int :=
  if c ≤ 0 ∨ b < 0 ∨ roundingValid rnd = false then some int64Min
  else if rnd &&& avRoundPassMinmax ≠ 0 ∧ (a = int64Min ∨ a = int64Max) then some a
  else
    let rnd := if rnd &&& avRoundPassMinmax ≠ 0 then rnd - avRoundPassMinmax else rnd
    if a < 0 then
      -- negated as an unsigned number
      (rescaleMagnitude (-(max a (-int64Max))) b c (rnd ^^^ ((rnd >>> 1) &&& 1))).map fun magnitude =>
        (-magnitude).bmod 18446744073709551616
    else rescaleMagnitude a b c rnd

section Words

theorem word_lt (x : Nat) : word x < 18446744073709551616 := Nat.mod_lt _ (by decide)

theorem word_eq {x : Nat} (h : x < 18446744073709551616) : word x = x := Nat.mod_eq_of_lt h

theorem word_carry {x y : Nat} (hx : x < 18446744073709551616) (hy : y < 18446744073709551616) :
    word (x + y) + 18446744073709551616 * (if word (x + y) < y then 1 else 0) = x + y := by
  by_cases hfits : x + y < 18446744073709551616
  · rw [word_eq hfits, if_neg (by omega)]
    omega
  · have hword : word (x + y) = x + y - 18446744073709551616 := by
      rw [word, Nat.mod_eq_sub_mod (by omega), Nat.mod_eq_of_lt (by omega)]
    rw [hword, if_pos (by omega)]
    omega

theorem productWords_eq {a b r : Nat} (ha : a < 9223372036854775808) (hb : b < 9223372036854775808)
    (hr : r < 9223372036854775808) :
    (productWords a b r).2.1 + 18446744073709551616 * (productWords a b r).1 = a * b + r ∧
      (productWords a b r).2.1 < 18446744073709551616 := by
  have hasplit := Nat.mod_add_div a 4294967296
  have hbsplit := Nat.mod_add_div b 4294967296
  have ha0 := Nat.mod_lt a (show 4294967296 > 0 by decide)
  have hb0 := Nat.mod_lt b (show 4294967296 > 0 by decide)
  have ha1 : a / 4294967296 < 2147483648 := by omega
  have hb1 : b / 4294967296 < 2147483648 := by omega
  simp only [productWords]
  generalize a % 4294967296 = a0 at *
  generalize a / 4294967296 = a1 at *
  generalize b % 4294967296 = b0 at *
  generalize b / 4294967296 = b1 at *
  have h00 : a0 * b0 < 4294967296 * 4294967296 := Nat.mul_lt_mul'' ha0 hb0
  have h01 : a0 * b1 < 4294967296 * 2147483648 := Nat.mul_lt_mul'' ha0 hb1
  have h10 : a1 * b0 < 2147483648 * 4294967296 := Nat.mul_lt_mul'' ha1 hb0
  have h11 : a1 * b1 < 2147483648 * 2147483648 := Nat.mul_lt_mul'' ha1 hb1
  have hab : a * b = a0 * b0 + 4294967296 * (a0 * b1 + a1 * b0) +
      18446744073709551616 * (a1 * b1) := by
    rw [← hasplit, ← hbsplit]
    ring
  rw [hab, @word_eq (a0 * b1) (by omega), @word_eq (a1 * b0) (by omega), @word_eq (a0 * b0) (by omega),
    @word_eq (a1 * b1) (by omega), @word_eq (a0 * b1 + a1 * b0) (by omega)]
  have ht1 : a0 * b1 + a1 * b0 < 18446744073709551616 := by omega
  generalize a0 * b1 + a1 * b0 = t1 at *
  have hshift : word (t1 * 4294967296) = t1 % 4294967296 * 4294967296 :=
    Nat.mul_mod_mul_right 4294967296 t1 4294967296
  rw [hshift]
  have hmiddle := @word_carry (a0 * b0) (t1 % 4294967296 * 4294967296) (by omega) (by omega)
  generalize hcarry : (if word (a0 * b0 + t1 % 4294967296 * 4294967296) <
    t1 % 4294967296 * 4294967296 then 1 else 0) = carry at *
  have hword := word_lt (a0 * b0 + t1 % 4294967296 * 4294967296)
  generalize word (a0 * b0 + t1 % 4294967296 * 4294967296) = low at *
  rw [@word_eq (a1 * b1 + t1 / 4294967296 + carry) (by omega)]
  have hadded := @word_carry low r hword (by omega)
  generalize hcarry' : (if word (low + r) < r then 1 else 0) = carry' at *
  rw [@word_eq (a1 * b1 + t1 / 4294967296 + carry + carry') (by omega)]
  refine ⟨?_, word_lt _⟩
  omega

theorem word_mul_add (x k y : Nat) : word (word x * k + y) = word (x * k + y) :=
  ((Nat.mod_modEq x 18446744073709551616).mul_right k).add_right y

theorem divideBits_eq {c : Nat} (hc : c < 9223372036854775808) (a0 i : Nat) {a1 : Nat}
    (ha1 : a1 < c) (t1 : Nat) : word (divideBits c a0 i (a1, t1)).2 =
      word (t1 * 2 ^ i + (a1 * 2 ^ i + a0 % 2 ^ i) / c) := by
  induction i generalizing a1 t1 with
  | zero => simp [divideBits, Nat.div_eq_of_lt ha1, Nat.mod_one]
  | succ i ih =>
      have hbit := Nat.mod_lt (a0 / 2 ^ i) (show 2 > 0 by decide)
      have hsplit : a1 * 2 ^ (i + 1) + a0 % 2 ^ (i + 1) =
          (a1 + a1 + a0 / 2 ^ i % 2) * 2 ^ i + a0 % 2 ^ i := by
        rw [pow_succ, Nat.mod_mul]
        ring
      have hquotient : t1 * 2 ^ (i + 1) = (t1 + t1) * 2 ^ i := by ring
      rw [divideBits, @word_eq (a1 + a1 + a0 / 2 ^ i % 2) (by omega), hsplit, hquotient]
      have hshifted : a1 + a1 + a0 / 2 ^ i % 2 < c + c := by omega
      generalize a1 + a1 + a0 / 2 ^ i % 2 = shifted at *
      by_cases hfits : c ≤ shifted
      · have hmore : (shifted * 2 ^ i + a0 % 2 ^ i) / c =
            ((shifted - c) * 2 ^ i + a0 % 2 ^ i) / c + 2 ^ i := by
          have hback : shifted * 2 ^ i + a0 % 2 ^ i =
              (shifted - c) * 2 ^ i + a0 % 2 ^ i + c * 2 ^ i := by
            nth_rewrite 1 [← Nat.sub_add_cancel hfits]
            ring
          rw [hback, Nat.add_mul_div_left _ _ (by omega)]
        have hone : (t1 + t1) * 2 ^ i + (((shifted - c) * 2 ^ i + a0 % 2 ^ i) / c + 2 ^ i) =
            (t1 + t1 + 1) * 2 ^ i + ((shifted - c) * 2 ^ i + a0 % 2 ^ i) / c := by ring
        have hcount : word (word (t1 + t1) + 1) = word (t1 + t1 + 1) := by
          simpa using word_mul_add (t1 + t1) 1 1
        rw [if_pos hfits, ih (by omega), hcount, word_mul_add, hmore, hone]
      · rw [if_neg hfits, ih (by omega), word_mul_add]

theorem divideBits_first (c a0 i : Nat) (a1 t1 : Nat) : ∃ k < 2 ^ i,
    word (divideBits c a0 i (a1, t1)).2 = word (t1 * 2 ^ i + k) := by
  induction i generalizing a1 t1 with
  | zero => exact ⟨0, by decide, by simp [divideBits]⟩
  | succ i ih =>
      rw [divideBits]
      by_cases hfits : c ≤ word (a1 + a1 + a0 / 2 ^ i % 2)
      · obtain ⟨k, hk, hrest⟩ := ih (word (a1 + a1 + a0 / 2 ^ i % 2) - c) (word (word (t1 + t1) + 1))
        have hcount : word (word (t1 + t1) + 1) = word (t1 + t1 + 1) := by
          simpa using word_mul_add (t1 + t1) 1 1
        have hone : (t1 + t1 + 1) * 2 ^ i + k = t1 * 2 ^ (i + 1) + (2 ^ i + k) := by ring
        rw [hcount, word_mul_add, hone] at hrest
        rw [if_pos hfits, hcount]
        exact ⟨2 ^ i + k, by omega, hrest⟩
      · obtain ⟨k, hk, hrest⟩ := ih (word (a1 + a1 + a0 / 2 ^ i % 2)) (word (t1 + t1))
        have hnone : (t1 + t1) * 2 ^ i + k = t1 * 2 ^ (i + 1) + k := by ring
        rw [word_mul_add, hnone] at hrest
        rw [if_neg hfits]
        exact ⟨k, by omega, hrest⟩

theorem divideBits_word (c a0 i : Nat) (a1 : Nat) {t1 : Nat} (ht1 : t1 < 18446744073709551616) :
    (divideBits c a0 i (a1, t1)).2 < 18446744073709551616 := by
  induction i generalizing a1 t1 with
  | zero => exact ht1
  | succ i ih =>
      rw [divideBits]
      split
      · exact ih _ (word_lt _)
      · exact ih _ (word_lt _)

end Words

theorem int64_some {x : Int} (hmin : int64Min ≤ x) (hmax : x ≤ int64Max) : int64 x = some x :=
  if_pos ⟨hmin, hmax⟩

section Paths

variable {a b c r : Int}

def quotientOf (a b c r : Int) : Int :=
  if (a * b + r) / c > int64Max then int64Min else (a * b + r) / c

theorem rescaleSmall_eq (ha : 0 ≤ a ∧ a ≤ int32Max) (hb : 0 ≤ b ∧ b ≤ int32Max) (hc : 0 < c)
    (hr : 0 ≤ r ∧ r < c) (hcmax : c ≤ int32Max) : rescaleSmall a b c r = some (quotientOf a b c r) := by
  have hproduct : a * b ≤ int32Max * int32Max := mul_le_mul ha.2 hb.2 hb.1 (by decide)
  have hnonneg : 0 ≤ a * b := mul_nonneg ha.1 hb.1
  have hsum : 0 ≤ a * b + r := by omega
  have hquotient : (a * b + r) / c ≤ a * b + r := Int.ediv_le_self c hsum
  have hqpos : 0 ≤ (a * b + r) / c := Int.ediv_nonneg hsum hc.le
  simp only [int32Max] at hproduct hcmax
  simp only [rescaleSmall, quotientOf]
  rw [int64_some (by simp only [int64Min]; omega) (by simp only [int64Max]; omega),
    Option.bind_eq_bind, Option.bind_some,
    int64_some (by simp only [int64Min]; omega) (by simp only [int64Max]; omega),
    Option.bind_some, Int.tdiv_eq_ediv_of_nonneg hsum,
    int64_some (by simp only [int64Min]; omega) (by simp only [int64Max]; omega),
    if_neg (by simp only [int64Max]; omega)]

theorem split_overflows {ad b a2 : Int} (hb : 0 ≤ b ∧ b ≤ int32Max) (ha2 : 0 ≤ a2 ∧ a2 ≤ b) :
    (ad ≥ int32Max ∧ b ≠ 0 ∧ ad > (int64Max - a2).tdiv b) ↔ ad * b + a2 > int64Max := by
  have hleft : 0 ≤ int64Max - a2 := by
    simp only [int64Max, int32Max] at *
    omega
  rw [Int.tdiv_eq_ediv_of_nonneg hleft]
  by_cases hzero : b = 0
  · subst hzero
    simp only [int64Max]
    omega
  · have hpos : 0 < b := by omega
    have hexceeds : (int64Max - a2) / b < ad ↔ int64Max - a2 < ad * b := Int.ediv_lt_iff_lt_mul hpos
    constructor
    · rintro ⟨_, _, habove⟩
      have habove' := hexceeds.mp habove
      omega
    · intro hsum
      refine ⟨?_, hzero, hexceeds.mpr (by omega)⟩
      by_contra hsmall
      have hproduct : ad * b ≤ int32Max * int32Max := mul_le_mul (by omega) hb.2 hb.1 (by decide)
      simp only [int32Max, int64Max] at *
      omega

theorem rescaleSplit_eq (ha : 0 ≤ a ∧ a ≤ int64Max) (hb : 0 ≤ b ∧ b ≤ int32Max) (hc : 0 < c)
    (hr : 0 ≤ r ∧ r < c) (hcmax : c ≤ int32Max) : rescaleSplit a b c r = some (quotientOf a b c r) := by
  have hlow := Int.emod_nonneg a (by omega : c ≠ 0)
  have hlow_lt := Int.emod_lt_of_pos a hc
  have hdivision := Int.mul_ediv_add_emod a c
  have had : a / c ≤ a := Int.ediv_le_self c ha.1
  have hadpos : 0 ≤ a / c := Int.ediv_nonneg ha.1 hc.le
  have hproduct : a % c * b ≤ int32Max * int32Max := mul_le_mul (by omega) hb.2 hb.1 (by decide)
  have hnonneg : 0 ≤ a % c * b := mul_nonneg hlow hb.1
  have hsum : 0 ≤ a % c * b + r := by omega
  have ha2 : (a % c * b + r) / c < b + 1 := by
    rw [Int.ediv_lt_iff_lt_mul hc]
    have hbound : a % c * b ≤ (c - 1) * b := mul_le_mul_of_nonneg_right (by omega) hb.1
    have hexpand : (b + 1) * c = (c - 1) * b + b + c := by ring
    omega
  have ha2pos : 0 ≤ (a % c * b + r) / c := Int.ediv_nonneg hsum hc.le
  have hquotient : (a * b + r) / c = a / c * b + (a % c * b + r) / c := by
    have hsplit : a * b + r = a % c * b + r + c * (a / c * b) := by
      nth_rewrite 1 [← hdivision]
      ring
    rw [hsplit, Int.add_mul_ediv_left _ _ (by omega), Int.add_comm]
  have hover := @split_overflows (a / c) b ((a % c * b + r) / c) hb ⟨ha2pos, by omega⟩
  simp only [int32Max] at hproduct hb hcmax
  simp only [rescaleSplit, quotientOf, hquotient]
  rw [Int.tdiv_eq_ediv_of_nonneg ha.1, Int.tmod_eq_emod_of_nonneg ha.1,
    int64_some (by simp only [int64Min]; omega) (by omega), Option.bind_eq_bind, Option.bind_some,
    int64_some (by simp only [int64Min]; omega) (by simp only [int64Max]; omega), Option.bind_some,
    int64_some (by simp only [int64Min]; omega) (by simp only [int64Max]; omega), Option.bind_some,
    Int.tdiv_eq_ediv_of_nonneg hsum, int64_some (by simp only [int64Min]; omega)
      (by simp only [int64Max]; omega), Option.bind_some]
  have hhighpos : 0 ≤ a / c * b := mul_nonneg hadpos hb.1
  by_cases hfits : a / c * b + (a % c * b + r) / c > int64Max
  · rw [if_pos (hover.mpr hfits), if_pos hfits]
  · rw [if_neg (fun h => hfits (hover.mp h)), if_neg hfits,
      int64_some (by simp only [int64Min]; omega) (by omega), Option.bind_some,
      int64_some (by simp only [int64Min]; omega) (by omega)]

theorem divideBits_quotient {a1 a0 c t1 : Nat} (hc : 0 < c ∧ c < 9223372036854775808)
    (ha0 : a0 < 18446744073709551616) (ht1 : t1 < 18446744073709551616) (hfits : a1 < c) :
    (divideBits c a0 64 (a1, t1)).2 = (a0 + 18446744073709551616 * a1) / c := by
  have hquotient := divideBits_eq hc.2 a0 64 hfits t1
  have hvalue : a1 * 2 ^ 64 + a0 % 2 ^ 64 = a0 + 18446744073709551616 * a1 := by omega
  have hbound : (a0 + 18446744073709551616 * a1) / c < 18446744073709551616 := by
    rw [Nat.div_lt_iff_lt_mul hc.1]
    omega
  have hshifted : word (t1 * 2 ^ 64 + (a0 + 18446744073709551616 * a1) / c) =
      (a0 + 18446744073709551616 * a1) / c := by
    have hpow : (2 : Nat) ^ 64 = 18446744073709551616 := by decide
    rw [word, hpow, Nat.mul_comm, Nat.mul_add_mod, Nat.mod_eq_of_lt hbound]
  rw [hvalue, hshifted, word_eq (divideBits_word c a0 64 a1 ht1)] at hquotient
  exact hquotient

theorem divideBits_too_large {a1 a0 c t1 : Nat} (ha1 : a1 < 9223372036854775808)
    (ht1 : t1 < 18446744073709551616) (hlarge : c ≤ a1) :
    9223372036854775808 ≤ (divideBits c a0 64 (a1, t1)).2 := by
  have hword := divideBits_word c a0 64 a1 ht1
  have hbit := Nat.mod_lt (a0 / 2 ^ 63) (show 2 > 0 by decide)
  rw [divideBits, @word_eq (a1 + a1 + a0 / 2 ^ 63 % 2) (by omega), if_pos (by omega)] at hword ⊢
  obtain ⟨k, hk, hrest⟩ := divideBits_first c a0 63 (a1 + a1 + a0 / 2 ^ 63 % 2 - c)
    (word (word (t1 + t1) + 1))
  rw [word_eq hword] at hrest
  rw [hrest]
  simp only [word]
  omega

theorem rescaleWide_eq (ha : 0 ≤ a ∧ a ≤ int64Max) (hb : 0 ≤ b ∧ b ≤ int64Max)
    (hc : 0 < c ∧ c ≤ int64Max) (hr : 0 ≤ r ∧ r < c) : rescaleWide a b c r = quotientOf a b c r := by
  obtain ⟨a, rfl⟩ := Int.eq_ofNat_of_zero_le ha.1
  obtain ⟨b, rfl⟩ := Int.eq_ofNat_of_zero_le hb.1
  obtain ⟨c, rfl⟩ := Int.eq_ofNat_of_zero_le hc.1.le
  obtain ⟨r, rfl⟩ := Int.eq_ofNat_of_zero_le hr.1
  simp only [int64Max] at ha hb hc
  obtain ⟨hwords, hlow⟩ := @productWords_eq a b r (by omega) (by omega) (by omega)
  have hproduct : a * b < 9223372036854775808 * 9223372036854775808 :=
    Nat.mul_lt_mul'' (by omega) (by omega)
  have ht1 : (productWords a b r).2.2 < 18446744073709551616 := word_lt _
  have hcast : ((a : Int) * b + r) / c = ((a * b + r) / c : Nat) := by push_cast; rfl
  simp only [rescaleWide, quotientOf, Int.toNat_natCast, hcast, ← hwords]
  generalize (productWords a b r).1 = a1 at *
  generalize (productWords a b r).2.1 = a0 at *
  generalize (productWords a b r).2.2 = t1 at *
  by_cases hfits : a1 < c
  · rw [@divideBits_quotient a1 a0 c t1 ⟨by omega, by omega⟩ hlow ht1 hfits]
  · have hlarge := @divideBits_too_large a1 a0 c t1 (by omega) ht1 (by omega)
    have hquotient : 18446744073709551616 ≤ (a0 + 18446744073709551616 * a1) / c := by
      rw [Nat.le_div_iff_mul_le (by omega)]
      omega
    rw [if_pos (by simp only [int64Max]; omega), if_pos (by simp only [int64Max]; omega)]

end Paths

/-- The value of a mode in `enum AVRounding`. -/
def roundingMode : Mode → UInt32
  | .zero => avRoundZero
  | .away => avRoundInf
  | .down => avRoundDown
  | .up => avRoundUp
  | .nearest => avRoundNearInf

/-- A mode with or without the flag. -/
def avRounding (m : Mode) (passMinmax : Bool) : UInt32 :=
  if passMinmax then roundingMode m ||| avRoundPassMinmax else roundingMode m

@[simp] theorem avRounding_valid (m : Mode) (p : Bool) : roundingValid (avRounding m p) = true := by
  cases m <;> cases p <;> decide

theorem avRounding_flag (m : Mode) (p : Bool) : avRounding m p &&& avRoundPassMinmax ≠ 0 ↔ p = true := by
  cases m <;> cases p <;> decide

theorem avRounding_mode (m : Mode) (p : Bool) :
    (if avRounding m p &&& avRoundPassMinmax ≠ 0 then avRounding m p - avRoundPassMinmax
      else avRounding m p) = roundingMode m := by
  cases m <;> cases p <;> decide

theorem roundingMode_mirror (m : Mode) :
    roundingMode m ^^^ ((roundingMode m >>> 1) &&& 1) = roundingMode m.mirror := by
  cases m <;> decide

theorem roundingMode_slack (m : Mode) (c : Int) : (if roundingMode m = avRoundNearInf then c / 2
      else if roundingMode m &&& 1 ≠ 0 then c - 1 else 0) = m.slack c := by
  cases m with
  | zero | down =>
      rw [if_neg (by decide), if_neg (by decide)]
      rfl
  | away | up =>
      rw [if_neg (by decide), if_pos (by decide)]
      rfl
  | nearest =>
      rw [if_pos (by decide)]
      rfl

section Exact

variable {a b c : Int}

theorem rescaleMagnitude_eq (m : Mode) (ha : 0 ≤ a ∧ a ≤ int64Max) (hb : 0 ≤ b ∧ b ≤ int64Max)
    (hc : 0 < c ∧ c ≤ int64Max) :
    rescaleMagnitude a b c (roundingMode m) = some (quotientOf a b c (m.slack c)) := by
  have hslack := m.slack_bounds hc.1
  rw [rescaleMagnitude, roundingMode_slack]
  split
  · next hsmall =>
      split
      · next ha32 => exact rescaleSmall_eq ⟨ha.1, ha32⟩ ⟨hb.1, hsmall.1⟩ hc.1 hslack hsmall.2
      · exact rescaleSplit_eq ha ⟨hb.1, hsmall.1⟩ hc.1 hslack hsmall.2
  · rw [rescaleWide_eq ha hb hc hslack]

/-- The rounded number itself, if it is one of 64 bits. -/
def clipped (q : Int) : Int := if int64Min ≤ q ∧ q ≤ int64Max then q else int64Min

theorem quotientOf_round (m : Mode) (ha : 0 ≤ a) (hb : 0 ≤ b) (hc : 0 < c) :
    quotientOf a b c (m.slack c) = clipped (m.round ((a * b : ℚ) / c)) := by
  have hnum : (0 : Int) ≤ a * b := mul_nonneg ha hb
  have hround : m.round ((a * b : ℚ) / c) = (a * b + m.slack c) / c := by
    have hdivision : m.round (((a * b : Int) : ℚ) / c) = (a * b + m.slack c) / c :=
      Mode.round_div m hnum hc
    rwa [Int.cast_mul] at hdivision
  have hslack := m.slack_bounds hc
  have hquotient : 0 ≤ (a * b + m.slack c) / c := Int.ediv_nonneg (by omega) hc.le
  rw [quotientOf, clipped, hround]
  by_cases hlarge : (a * b + m.slack c) / c > int64Max
  · rw [if_pos hlarge, if_neg (by omega)]
  · rw [if_neg hlarge, if_pos ⟨by simp only [int64Min]; omega, by omega⟩]

theorem clipped_neg {q : Int} (hq : 0 ≤ q) : (-clipped q).bmod 18446744073709551616 = clipped (-q) := by
  simp only [clipped]
  by_cases hlarge : q ≤ int64Max
  · have hfits : int64Min ≤ q ∧ q ≤ int64Max := ⟨by simp only [int64Min]; omega, hlarge⟩
    simp only [int64Max] at hlarge
    rw [if_pos hfits, if_pos (by simp only [int64Min, int64Max]; omega)]
    exact Int.bmod_eq_of_le (by omega) (by omega)
  · have hmin : (-int64Min).bmod 18446744073709551616 = int64Min := by decide
    rw [if_neg (by omega), hmin]
    by_cases hfits : int64Min ≤ -q ∧ -q ≤ int64Max
    · rw [if_pos hfits]
      simp only [int64Max, int64Min] at hlarge hfits ⊢
      omega
    · rw [if_neg hfits]

theorem avRescaleRnd_quotient (m : Mode) {passMinmax : Bool} (ha : int64Min < a ∧ a ≤ int64Max)
    (hb : 0 ≤ b ∧ b ≤ int64Max) (hc : 0 < c ∧ c ≤ int64Max) (hpass : ¬(passMinmax = true ∧ a = int64Max)) :
    avRescaleRnd a b c (avRounding m passMinmax) =
      some (if a < 0 then (-quotientOf (-a) b c (m.mirror.slack c)).bmod 18446744073709551616
        else quotientOf a b c (m.slack c)) := by
  have hgood : ¬(c ≤ 0 ∨ b < 0 ∨ roundingValid (avRounding m passMinmax) = false) := by
    simp only [avRounding_valid, Bool.true_eq_false, or_false]
    omega
  have hlimit : ¬(avRounding m passMinmax &&& avRoundPassMinmax ≠ 0 ∧
      (a = int64Min ∨ a = int64Max)) := by
    rintro ⟨hflag, hmin | hmax⟩
    · omega
    · exact hpass ⟨(avRounding_flag m passMinmax).mp hflag, hmax⟩
  rw [avRescaleRnd, if_neg hgood, if_neg hlimit, avRounding_mode]
  by_cases hneg : a < 0
  · have hmax : max a (-int64Max) = a := by
      apply max_eq_left
      simp only [int64Min, int64Max] at ha ⊢
      omega
    have hmagnitude : 0 ≤ -a ∧ -a ≤ int64Max := by
      simp only [int64Min, int64Max] at ha ⊢
      omega
    simp only [if_pos hneg]
    rw [hmax, roundingMode_mirror, rescaleMagnitude_eq _ hmagnitude hb hc, Option.map_some]
  · simp only [if_neg hneg]
    rw [rescaleMagnitude_eq _ ⟨by omega, ha.2⟩ hb hc]

theorem avRescaleRnd_rounds (m : Mode) {passMinmax : Bool} (ha : int64Min < a ∧ a ≤ int64Max)
    (hb : 0 ≤ b ∧ b ≤ int64Max) (hc : 0 < c ∧ c ≤ int64Max) (hpass : ¬(passMinmax = true ∧ a = int64Max)) :
    avRescaleRnd a b c (avRounding m passMinmax) = some (clipped (m.round ((a * b : ℚ) / c))) := by
  rw [avRescaleRnd_quotient m ha hb hc hpass]
  by_cases hneg : a < 0
  · have hmirror : ((a * b : ℚ) / c) = -(((-a : Int) * b : ℚ) / c) := by
      push_cast
      ring
    have hpos : (0 : ℚ) ≤ ((-a : Int) * b : ℚ) / c := by
      apply div_nonneg
      · exact mul_nonneg (Int.cast_nonneg (by omega)) (Int.cast_nonneg hb.1)
      · exact Int.cast_nonneg hc.1.le
    rw [if_pos hneg, quotientOf_round _ (by omega) hb.1 hc.1, hmirror, Mode.round_neg m hpos,
      clipped_neg (Mode.round_nonneg _ hpos)]
  · rw [if_neg hneg, quotientOf_round _ (by omega) hb.1 hc.1]

/-- The result is the exact quotient, rounded, if that is a number of 64 bits, and no
signed operation overflows; with the flag the largest number is passed on. -/
theorem avRescaleRnd_exact (m : Mode) (passMinmax : Bool) (ha : int64Min < a ∧ a ≤ int64Max)
    (hb : 0 ≤ b ∧ b ≤ int64Max) (hc : 0 < c ∧ c ≤ int64Max) :
    avRescaleRnd a b c (avRounding m passMinmax) =
      some (if passMinmax = true ∧ a = int64Max then int64Max
        else clipped (m.round ((a * b : ℚ) / c))) := by
  by_cases hpass : passMinmax = true ∧ a = int64Max
  · have hgood : ¬(c ≤ 0 ∨ b < 0 ∨ roundingValid (avRounding m passMinmax) = false) := by
      simp only [avRounding_valid, Bool.true_eq_false, or_false]
      omega
    rw [if_pos hpass, avRescaleRnd, if_neg hgood,
      if_pos ⟨(avRounding_flag m passMinmax).mpr hpass.1, .inr hpass.2⟩, hpass.2]
  · rw [if_neg hpass, avRescaleRnd_rounds m ha hb hc hpass]

/-- A number that takes the long division, rounded up. -/
theorem avRescaleRnd_exact_wide :
    avRescaleRnd (-4611686018427387905) 3 8589934592 (avRounding .up true) =
      some (clipped (Mode.up.round (((-4611686018427387905 : Int) * (3 : Int) : ℚ) /
        (8589934592 : Int)))) := by
  exact avRescaleRnd_exact .up true (by decide) (by decide) (by decide)

/-- The largest number is passed on with the flag, whatever it is to be scaled by. -/
theorem largest_number_passed_on :
    avRescaleRnd int64Max 0 1 (avRounding .down true) = some int64Max ∧
      clipped (Mode.down.round (((int64Max : Int) * (0 : Int) : ℚ) / (1 : Int))) = 0 := by
  constructor
  · decide
  · simp [clipped, int64Min, int64Max]

theorem quotientOf_neg {r : Int} (hb : 0 ≤ b) (hc : 0 < c) (ha : 0 ≤ a) (hr : 0 ≤ r) :
    (-quotientOf a b c r).bmod 18446744073709551616 =
      if (a * b + r) / c > int64Max then int64Min else -((a * b + r) / c) := by
  have hquotient : 0 ≤ (a * b + r) / c :=
    Int.ediv_nonneg (add_nonneg (mul_nonneg ha hb) hr) hc.le
  rw [quotientOf]
  by_cases hlarge : (a * b + r) / c > int64Max
  · rw [if_pos hlarge, if_pos hlarge]
    decide
  · rw [if_neg hlarge, if_neg hlarge]
    simp only [int64Max] at hlarge
    exact Int.bmod_eq_of_le (by omega) (by omega)

theorem avRescaleRnd_natAbs (m : Mode) (ha : int64Min < a ∧ a ≤ int64Max) (hb : 0 ≤ b ∧ b ≤ int64Max)
    (hc : 0 < c ∧ c ≤ int64Max) {q : Int}
    (hq : q = (a.natAbs * b + if a < 0 then m.mirror.slack c else m.slack c) / c) :
    avRescaleRnd a b c (avRounding m false) =
      some (if q > int64Max then int64Min else if a < 0 then -q else q) := by
  refine (avRescaleRnd_quotient m ha hb hc (by simp)).trans (congrArg some ?_)
  by_cases hneg : a < 0
  · have habs : (a.natAbs : Int) = -a := Int.ofNat_natAbs_of_nonpos hneg.le
    rw [if_pos hneg, habs] at hq
    rw [if_pos hneg, if_pos hneg, quotientOf_neg hb.1 hc.1 (by omega) (Mode.slack_bounds _ hc.1).1, hq]
  · have habs : (a.natAbs : Int) = a := Int.natAbs_of_nonneg (by omega)
    rw [if_neg hneg, habs] at hq
    rw [if_neg hneg, if_neg hneg, quotientOf, hq]

theorem max_int64Max (ha : int64Min < a) : max a (-int64Max) = a := by
  apply max_eq_left
  simp only [int64Min, int64Max] at ha ⊢
  omega

theorem avRescale_eq (ha : int64Min < a ∧ a ≤ int64Max) (hb : 0 ≤ b ∧ b ≤ int64Max)
    (hc : 0 < c ∧ c ≤ int64Max) : avRescaleRnd a b c avRoundNearInf = some (avRescale a b c) := by
  rw [avRescale, if_neg (by omega)]
  exact avRescaleRnd_natAbs .nearest ha hb hc (by simp only [max_int64Max ha.1, Mode.mirror, Mode.slack, ite_self])

theorem avRescaleDown_eq (ha : int64Min < a ∧ a ≤ int64Max) (hb : 0 ≤ b ∧ b ≤ int64Max)
    (hc : 0 < c ∧ c ≤ int64Max) : avRescaleRnd a b c avRoundDown = some (avRescaleDown a b c) := by
  rw [avRescaleDown, if_neg (by omega)]
  refine avRescaleRnd_natAbs .down ha hb hc ?_
  simp only [max_int64Max ha.1, Mode.mirror, Mode.slack]
  split
  · rfl
  · rw [Int.add_zero]

/-- A number that fits is rounded to the nearest, and the number that stands for a failure is not among them. -/
theorem avRescale_round (hb : 0 ≤ b) (hc : 0 < c) (hmin : -int64Max ≤ a) (hfits : (a.natAbs : Int) * b ≤ int64Max * c) :
    avRescale a b c = Mode.nearest.round ((a * b : ℚ) / c) ∧ avRescale a b c ≠ int64Min := by
  have hnum : 0 ≤ (a.natAbs : Int) * b := mul_nonneg (Int.natCast_nonneg _) hb
  have hround : Mode.nearest.round ((((a.natAbs : Int) * b : Int) : ℚ) / c) = ((a.natAbs : Int) * b + c / 2) / c :=
    Mode.round_div .nearest hnum hc
  have hlarge : ((a.natAbs : Int) * b + c / 2) / c ≤ int64Max := by
    apply Int.lt_add_one_iff.mp
    rw [Int.ediv_lt_iff_lt_mul hc]
    have hexpand : (int64Max + 1) * c = int64Max * c + c := by ring
    omega
  have hpos : 0 ≤ ((a.natAbs : Int) * b + c / 2) / c := Int.ediv_nonneg (by omega) hc.le
  rw [avRescale, if_neg (by omega), max_eq_left hmin]
  dsimp only
  rw [if_neg (by omega), ← hround]
  rw [← hround] at hlarge hpos
  by_cases hneg : a < 0
  · have habs : (a.natAbs : Int) = -a := Int.ofNat_natAbs_of_nonpos hneg.le
    have hmirror := Mode.round_neg (K := ℚ) .nearest (div_nonneg (Int.cast_nonneg hnum) (Int.cast_nonneg hc.le))
    rw [habs] at hmirror hlarge hpos ⊢
    rw [if_pos hneg]
    refine ⟨?_, by simp only [int64Min, int64Max] at hlarge hpos ⊢; omega⟩
    refine hmirror.symm.trans ?_
    push_cast
    congr 1
    ring
  · have habs : (a.natAbs : Int) = a := Int.natAbs_of_nonneg (by omega)
    rw [habs] at hlarge hpos ⊢
    rw [if_neg hneg]
    exact ⟨by push_cast; rfl, by simp only [int64Min]; omega⟩

theorem avRescaleQ_round {ts : Int} {tb tb' : AVRational} (htb : tb.Positive) (htb' : tb'.Positive)
    (hmin : -int64Max ≤ ts) (hfits : Fits ts tb tb') :
    avRescaleQ ts tb tb' = Mode.nearest.round (timeOf ts tb / timeOf 1 tb') ∧ avRescaleQ ts tb tb' ≠ int64Min := by
  have hround := avRescale_round (mul_pos htb.1 htb'.2).le (mul_pos htb'.1 htb.2) hmin hfits
  have hdivision : (ts * (tb.num * tb'.den : Int) : ℚ) / (tb'.num * tb.den : Int) = timeOf ts tb / timeOf 1 tb' := by
    have hden : (tb.den : ℚ) ≠ 0 := Int.cast_ne_zero.mpr htb.2.ne'
    have hden' : (tb'.den : ℚ) ≠ 0 := Int.cast_ne_zero.mpr htb'.2.ne'
    have hnum' : (tb'.num : ℚ) ≠ 0 := Int.cast_ne_zero.mpr htb'.1.ne'
    rw [timeOf, timeOf]
    push_cast
    field_simp
  rw [hdivision] at hround
  exact hround

end Exact

end P2PFFmpeg.Util
