import P2PFFmpeg.Util.Integer
import Mathlib.Data.Int.Order.Lemmas
import Mathlib.Tactic.Linarith

namespace P2PFFmpeg.Util

open AVInteger

variable {a b : AVInteger}

section Compare

theorem lor_neg_one : (-1 : Int).lor 1 = -1 := by
  change Int.negSucc (Nat.ldiff 0 1) = -1
  rw [Nat.ldiff, Nat.bitwise_zero_left]
  rfl

theorem signOf_eq {v : Int} (hv : v ≠ 0) (hlow : -65536 < v) (hhigh : v < 65536) : signOf v = v.sign := by
  rw [signOf, Int.shiftRight_eq_div_pow]
  rcases Int.lt_or_gt_of_ne hv with hneg | hpos
  · rw [Int.sign_eq_neg_one_of_neg hneg, show v / ((2 ^ 16 : Nat) : Int) = -1 by norm_num; omega,
      lor_neg_one]
  · rw [Int.sign_eq_one_of_pos hpos, show v / ((2 ^ 16 : Nat) : Int) = 0 by norm_num; omega]
    rfl

theorem sign_limbs {low low' m : Nat} {x y : Int} (hlow : low < m) (hlow' : low' < m) :
    ((low : Int) + m * x - (low' + m * y)).sign = if x = y then ((low : Int) - low').sign else (x - y).sign := by
  by_cases hxy : x = y
  · rw [if_pos hxy, hxy, add_sub_add_right_eq_sub]
  · rw [if_neg hxy]
    have hm : (0 : Int) ≤ m := Int.natCast_nonneg m
    rcases Int.lt_or_gt_of_ne hxy with hlt | hgt
    · have hle : (m : Int) * (x + 1) ≤ m * y := Int.mul_le_mul_of_nonneg_left hlt hm
      rw [Int.sign_eq_neg_one_of_neg (by linarith), Int.sign_eq_neg_one_of_neg (by omega)]
    · have hle : (m : Int) * (y + 1) ≤ m * x := Int.mul_le_mul_of_nonneg_left hgt hm
      rw [Int.sign_eq_one_of_pos (by linarith), Int.sign_eq_one_of_pos (by omega)]

theorem cmpLimbs_value {v w : List UInt16} (h : v.length = w.length) :
    cmpLimbs v.reverse w.reverse = ((valueOf v : Int) - valueOf w).sign := by
  induction v using List.reverseRecOn generalizing w with
  | nil =>
      rw [List.eq_nil_of_length_eq_zero h.symm]
      rfl
  | append_singleton v x ih =>
      obtain rfl | ⟨w, y, rfl⟩ := List.eq_nil_or_concat w
      · rw [List.length_append] at h
        cases h
      rw [List.concat_eq_append] at h ⊢
      have hlength : v.length = w.length := by simpa using h
      have hx := x.toNat_lt
      have hy := y.toNat_lt
      simp only [List.reverse_append, List.reverse_singleton, List.singleton_append, cmpLimbs, valueOf_append,
        valueOf_cons, valueOf_nil, Nat.mul_zero, Nat.add_zero, hlength]
      push_cast
      have hsign := @sign_limbs (valueOf v) (valueOf w) (65536 ^ w.length) x.toNat y.toNat
        (hlength ▸ valueOf_lt v) (valueOf_lt w)
      push_cast at hsign
      rw [hsign]
      by_cases hxy : (x.toNat : Int) = y.toNat
      · rw [if_pos hxy, if_neg (not_not.mpr (Int.sub_eq_zero.mpr hxy)), ih hlength]
      · have hne : (x.toNat : Int) - y.toNat ≠ 0 := fun hzero => hxy (Int.sub_eq_zero.mp hzero)
        rw [if_neg hxy, if_pos hne, signOf_eq hne (by omega) (by omega)]

theorem int16_eq (x : UInt16) : int16 x = if x.toNat < 32768 then (x.toNat : Int) else x.toNat - 65536 := by
  rw [int16, BitVec.toInt_eq_toNat_cond]
  simp only [UInt16.toNat_toBitVec]
  split <;> split <;> omega

theorem AVInteger.toInt_eq (a : AVInteger) :
    a.toInt = (valueOf (a.v.take 7) : Int) + (65536 ^ 7 : Nat) * int16 (a.limb 7) := by
  have htop : a.toNat = valueOf (a.v.take 7) + 65536 ^ 7 * (a.limb 7).toNat := by
    rw [← valueOf_take_succ, List.take_of_length_le a.size.le, toNat]
  have hlow : valueOf (a.v.take 7) < 65536 ^ 7 := by
    rw [valueOf_take]
    exact Nat.mod_lt _ (by decide)
  have hint := int16_eq (a.limb 7)
  have hlimb : (a.limb 7).toNat < 65536 := (a.limb 7).toNat_lt
  have hcongr : (a.toNat : Int) ≡ valueOf (a.v.take 7) + (65536 ^ 7 : Nat) * int16 (a.limb 7) [ZMOD 65536 ^ 8] := by
    rw [htop]
    refine (Int.modEq_iff_dvd.mpr ?_)
    split at hint
    · exact ⟨0, by rw [hint]; push_cast; ring⟩
    · exact ⟨-1, by rw [hint]; push_cast; ring⟩
  rw [toInt_of_modEq hcongr]
  generalize valueOf (a.v.take 7) = low at hlow ⊢
  generalize int16 (a.limb 7) = high at hint ⊢
  have hhigh : -32768 ≤ high ∧ high ≤ 32767 := by
    split at hint <;> omega
  refine Int.bmod_eq_of_le ?_ ?_ <;> omega

theorem avCmpI_eq (a b : AVInteger) : avCmpI a b = (a.toInt - b.toInt).sign := by
  have hlow (c : AVInteger) : valueOf (c.v.take 7) < 65536 ^ 7 := by
    rw [valueOf_take]
    exact Nat.mod_lt _ (by decide)
  have hlength : (a.v.take 7).length = (b.v.take 7).length := by
    rw [List.length_take, List.length_take, a.size, b.size]
  rw [a.toInt_eq, b.toInt_eq, sign_limbs (hlow a) (hlow b), avCmpI, cmpLimbs_value hlength]
  have ha := int16_eq (a.limb 7)
  have hb := int16_eq (b.limb 7)
  have ha' := (a.limb 7).toNat_lt
  have hb' := (b.limb 7).toNat_lt
  by_cases heq : int16 (a.limb 7) = int16 (b.limb 7)
  · rw [if_pos heq, if_neg (not_not.mpr (Int.sub_eq_zero.mpr heq))]
  · have hne : int16 (a.limb 7) - int16 (b.limb 7) ≠ 0 := fun hzero => heq (Int.sub_eq_zero.mp hzero)
    rw [if_neg heq, if_pos hne]
    refine signOf_eq hne ?_ ?_ <;> split at ha <;> split at hb <;> omega

end Compare

section Shift

def padded (a : AVInteger) (j : Nat) : Nat := if j < 8 then 0 else (a.limb (j - 8)).toNat

theorem padded_low (a : AVInteger) {j : Nat} (h : j < 8) : padded a j = 0 := if_pos h

theorem padded_high (a : AVInteger) {j : Nat} (h : 8 ≤ j) : padded a j = (a.limb (j - 8)).toNat :=
  if_neg (not_lt.mpr h)

theorem padded_eq (a : AVInteger) (j : Nat) : padded a j = a.toNat * 65536 ^ 8 / 65536 ^ j % 65536 := by
  by_cases hj : j < 8
  · rw [padded_low a hj]
    have hpow : 65536 ^ 8 = 65536 ^ (7 - j) * 65536 * 65536 ^ j := by
      rw [← pow_succ, ← Nat.pow_add]
      congr 1
      omega
    rw [hpow, ← Nat.mul_assoc, Nat.mul_div_cancel _ (Nat.pow_pos (by decide)), ← Nat.mul_assoc, Nat.mul_mod_left]
  · have hpow : 65536 ^ j = 65536 ^ 8 * 65536 ^ (j - 8) := by
      rw [← Nat.pow_add]
      congr 1
      omega
    rw [padded_high a (not_lt.mp hj), a.limb_eq, hpow, ← Nat.div_div_eq_div_mul, Nat.mul_div_cancel _ (by decide)]

theorem AVInteger.limb_of_le {i : Nat} (h : 8 ≤ i) : a.limb i = 0 := by
  by_contra hne
  exact absurd (limb_index hne) (by omega)

def shrWord (a : AVInteger) (index : Nat) : Nat :=
  let high := if (index + 1) % 4294967296 < 8 then
    (a.limb ((index + 1) % 4294967296)).toNat * 65536 % 4294967296 else 0
  if index < 8 then high ||| (a.limb index).toNat else high

theorem shrWord_eq (a : AVInteger) {index j : Nat} (hj : j < 4294967296)
    (h : index = if 8 ≤ j then j - 8 else 4294967288 + j) :
    shrWord a index = padded a j + 65536 * padded a (j + 1) := by
  have hhigh : (if (index + 1) % 4294967296 < 8 then
      (a.limb ((index + 1) % 4294967296)).toNat * 65536 % 4294967296 else 0) = 65536 * padded a (j + 1) := by
    by_cases hseven : 7 ≤ j
    · have hnext : (index + 1) % 4294967296 = j + 1 - 8 := by
        split at h <;> omega
      have hlimb := (a.limb (j + 1 - 8)).toNat_lt
      rw [hnext, padded_high a (by omega)]
      split
      · omega
      · next hout => rw [limb_of_le (not_lt.mp hout), UInt16.toNat_zero]
    · have hnext : ¬(index + 1) % 4294967296 < 8 := by
        split at h <;> omega
      rw [if_neg hnext, padded_low a (by omega)]
  rw [shrWord, hhigh]
  by_cases height : 8 ≤ j
  · have hpow : 65536 * padded a (j + 1) = 2 ^ 16 * padded a (j + 1) := rfl
    rw [if_pos height] at h
    rw [padded_high a height, h]
    split
    · rw [hpow, ← Nat.two_pow_add_eq_or_of_lt (a.limb (j - 8)).toNat_lt, Nat.add_comm]
    · next hout => rw [limb_of_le (not_lt.mp hout), UInt16.toNat_zero, Nat.zero_add]
  · have hout : ¬index < 8 := by
      rw [if_neg height] at h
      omega
    rw [padded_low a (not_le.mp height), if_neg hout, Nat.zero_add]

/-- Sixteen bits, from a place in the lower half of a word of thirty-two. -/
theorem word_bits (x : Nat) {r : Nat} (hr : r ≤ 16) :
    (x % 65536 + 65536 * (x / 65536 % 65536)) / 2 ^ r % 65536 = x / 2 ^ r % 65536 := by
  have hword : x % 65536 + 65536 * (x / 65536 % 65536) = x % (2 ^ r * 2 ^ (32 - r)) := by
    rw [← Nat.pow_add, Nat.add_sub_cancel' (by omega)]
    omega
  have hdvd : 65536 ∣ 2 ^ (32 - r) := Nat.pow_dvd_pow 2 (by omega : 16 ≤ 32 - r)
  rw [hword, Nat.mod_mul_right_div_self, Nat.mod_mod_of_dvd _ hdvd]

theorem shrLimb_eq (a : AVInteger) {s : Int} {i : Nat} (hlow : -128 ≤ s) (hhigh : s < 128) (hi : i < 8) :
    (shrLimb a s i).toNat = a.toNat * 65536 ^ 8 / 2 ^ (s + 128).toNat / 65536 ^ i % 65536 := by
  obtain ⟨j, hj⟩ : ∃ j : Nat, (j : Int) = i + s / 16 + 8 := ⟨(i + s / 16 + 8).toNat, by omega⟩
  have hshift : s >>> (4 : Nat) = s / 16 := Int.shiftRight_eq_div_pow s 4
  have hindex : ((i + s >>> (4 : Nat)) % 4294967296).toNat = if 8 ≤ j then j - 8 else 4294967288 + j := by
    rw [hshift]
    split <;> omega
  have hpow : 65536 ^ j * 2 ^ (s % 16).toNat = 2 ^ (s + 128).toNat * 65536 ^ i := by
    rw [show 65536 = 2 ^ 16 from rfl, ← Nat.pow_mul, ← Nat.pow_mul, ← Nat.pow_add, ← Nat.pow_add]
    congr 1
    omega
  calc (shrLimb a s i).toNat
      = shrWord a ((i + s >>> (4 : Nat)) % 4294967296).toNat >>> (s % 16).toNat % 65536 := rfl
    _ = (padded a j + 65536 * padded a (j + 1)) / 2 ^ (s % 16).toNat % 65536 := by
        rw [shrWord_eq a (by omega) hindex, Nat.shiftRight_eq_div_pow]
    _ = a.toNat * 65536 ^ 8 / 65536 ^ j / 2 ^ (s % 16).toNat % 65536 := by
        rw [padded_eq, padded_eq, pow_succ 65536 j, ← Nat.div_div_eq_div_mul, word_bits _ (by omega)]
    _ = a.toNat * 65536 ^ 8 / 2 ^ (s + 128).toNat / 65536 ^ i % 65536 := by
        rw [Nat.div_div_eq_div_mul, hpow, ← Nat.div_div_eq_div_mul]

theorem avShrI_toNat (a : AVInteger) {s : Int} (hlow : -128 ≤ s) (hhigh : s < 128) :
    (avShrI a s).toNat = a.toNat * 2 ^ 128 / 2 ^ (s + 128).toNat % 2 ^ 128 := by
  have hlimbs : digits (avShrI a s).v =
      (List.range 8).map fun i => a.toNat * 65536 ^ 8 / 2 ^ (s + 128).toNat / 65536 ^ i % 65536 := by
    rw [digits, avShrI, List.map_map]
    exact List.map_congr_left fun i hi => shrLimb_eq a hlow hhigh (List.mem_range.mp hi)
  rw [AVInteger.toNat, valueOf, hlimbs, Library.Digits.ofDigits_range, show 65536 ^ 8 = 2 ^ 128 from rfl]

theorem avShrI_right (a : AVInteger) {n : Nat} (hn : n < 128) : (avShrI a n).toNat = a.toNat / 2 ^ n := by
  have hexp : ((n : Int) + 128).toNat = 128 + n := by omega
  rw [avShrI_toNat a (by omega) (by omega), hexp, Nat.pow_add, ← Nat.div_div_eq_div_mul,
    Nat.mul_div_cancel _ (Nat.two_pow_pos 128)]
  exact Nat.mod_eq_of_lt (lt_of_le_of_lt (Nat.div_le_self _ _) a.toNat_lt)

theorem avShrI_left (a : AVInteger) {n : Nat} (hn : n ≤ 128) :
    (avShrI a (-n)).toNat = a.toNat * 2 ^ n % 2 ^ 128 := by
  have hexp : (-(n : Int) + 128).toNat = 128 - n := by omega
  have hpow : 2 ^ 128 = 2 ^ n * 2 ^ (128 - n) := by rw [← Nat.pow_add, Nat.add_sub_cancel' hn]
  rw [avShrI_toNat a (by omega) (by omega), hexp]
  congr 1
  rw [hpow, ← Nat.mul_assoc, Nat.mul_div_cancel _ (Nat.two_pow_pos _)]

end Shift

section Division

theorem toInt_of_lt (h : a.toNat < 2 ^ 127) : a.toInt = a.toNat :=
  Int.bmod_eq_of_le (by omega) (by omega)

theorem toNat_of_nonneg (h : 0 ≤ a.toInt) : (a.toNat : Int) = a.toInt ∧ a.toNat < 2 ^ 127 := by
  have hlt := a.toNat_lt
  have hupper : a.toInt < ((2 ^ 128 : Nat) + 1) / 2 := Int.bmod_lt (by decide)
  have hcongr : a.toInt % 65536 ^ 8 = a.toNat % 65536 ^ 8 := toInt_modEq a
  omega

theorem increment_toNat (h : a.toNat % 2 = 0) : a.increment.toNat = a.toNat + 1 := by
  obtain ⟨v, size⟩ := a
  match v, size with
  | x :: rest, size =>
      have hx := x.toNat_lt
      have heven : (x.toNat + 65536 * valueOf rest) % 2 = 0 := h
      have hadd : (x + 1).toNat = x.toNat + 1 := by
        rw [UInt16.toNat_add, UInt16.toNat_one]
        omega
      change (x + 1).toNat + 65536 * valueOf rest = x.toNat + 65536 * valueOf rest + 1
      omega

theorem avSubI_toNat (ha : a.toNat < 2 ^ 127) (h : b.toNat ≤ a.toNat) :
    (avSubI a b).toNat = a.toNat - b.toNat := by
  have hsub := avSubI_toInt a b
  rw [toInt_of_lt ha, toInt_of_lt (lt_of_le_of_lt h ha), Int.bmod_eq_of_le (by omega) (by omega)] at hsub
  have hnat := (@toNat_of_nonneg (avSubI a b) (by omega)).1
  omega

theorem avCmpI_le (ha : a.toNat < 2 ^ 127) (hb : b.toNat < 2 ^ 127) : avCmpI a b ≥ 0 ↔ b.toNat ≤ a.toNat := by
  rw [avCmpI_eq, toInt_of_lt ha, toInt_of_lt hb, ge_iff_le, Int.sign_nonneg_iff]
  omega

/-- Each round of the division gives one bit of the quotient. The divisor of a round is
the first one times a power of two, cut off after the last round. -/
theorem modLoop_value {n d : Nat} {quot a b : AVInteger} (hb : n ≠ 0 → b.toNat = 2 ^ n * d / 2)
    (hbound : 2 ^ n * d < 2 ^ 128) (ha : a.toNat < 2 ^ n * d) (hsmall : a.toNat < 2 ^ 127)
    (hquot : (quot.toNat + 1) * 2 ^ n ≤ 2 ^ 127) :
    (modLoop n quot a b).2.toNat < d ∧ (modLoop n quot a b).1.toNat < 2 ^ 127 ∧
      (modLoop n quot a b).1.toNat * d + (modLoop n quot a b).2.toNat = quot.toNat * 2 ^ n * d + a.toNat := by
  induction n generalizing quot a b with
  | zero =>
      rw [Nat.pow_zero, Nat.one_mul] at ha
      rw [Nat.pow_zero, Nat.mul_one] at hquot
      rw [modLoop, Nat.pow_zero, Nat.mul_one]
      exact ⟨ha, hquot, rfl⟩
  | succ n ih =>
      have hdouble : 2 ^ (n + 1) * d = 2 * (2 ^ n * d) := by rw [pow_succ']; ring
      rw [hdouble] at hb ha hbound
      have hb := hb (Nat.succ_ne_zero n)
      have hquot' : (2 * quot.toNat + 2) * 2 ^ n ≤ 2 ^ 127 := by
        calc (2 * quot.toNat + 2) * 2 ^ n = (quot.toNat + 1) * 2 ^ (n + 1) := by ring
          _ ≤ 2 ^ 127 := hquot
      have hle : quot.toNat + 1 ≤ 2 ^ 126 := by
        have hpos : 0 < 2 ^ n := Nat.two_pow_pos n
        have := Nat.le_mul_of_pos_right (2 * quot.toNat + 2) hpos
        omega
      have hshift : (avShrI quot (-1)).toNat = 2 * quot.toNat := by
        have hleft := @avShrI_left quot 1 (by decide)
        rw [Nat.cast_one] at hleft
        omega
      have hhalf : (avShrI b 1).toNat = 2 ^ n * d / 2 := by
        have hright := @avShrI_right b 1 (by decide)
        rw [Nat.cast_one] at hright
        omega
      have hwhole : b.toNat = 2 ^ n * d := by omega
      have hcmp := @avCmpI_le a b hsmall (by omega)
      rw [modLoop]
      by_cases hge : avCmpI a b ≥ 0
      · have hle := hcmp.mp hge
        have hincr : (avShrI quot (-1)).increment.toNat = 2 * quot.toNat + 1 := by
          rw [increment_toNat (by omega), hshift]
        have hsub := avSubI_toNat hsmall hle
        obtain ⟨hr, hq, hsum⟩ := @ih (avShrI quot (-1)).increment (avSubI a b) (avShrI b 1) (fun _ => hhalf) (by omega)
          (by omega) (by omega) (by rw [hincr]; exact hquot')
        simp only [if_pos hge]
        refine ⟨hr, hq, hsum.trans ?_⟩
        rw [hincr, hsub, hwhole]
        calc (2 * quot.toNat + 1) * 2 ^ n * d + (a.toNat - 2 ^ n * d)
            = quot.toNat * 2 ^ (n + 1) * d + (2 ^ n * d + (a.toNat - 2 ^ n * d)) := by ring
          _ = quot.toNat * 2 ^ (n + 1) * d + a.toNat := by rw [Nat.add_sub_cancel' (hwhole ▸ hle)]
      · have hlt : a.toNat < 2 ^ n * d := hwhole ▸ not_le.mp fun hle => hge (hcmp.mpr hle)
        obtain ⟨hr, hq, hsum⟩ := @ih (avShrI quot (-1)) a (avShrI b 1) (fun _ => hhalf) (by omega) hlt hsmall
          (hquot'.trans' (Nat.mul_le_mul_right _ (by omega)))
        simp only [if_neg hge]
        refine ⟨hr, hq, hsum.trans ?_⟩
        rw [hshift]
        ring

theorem limb_neg_iff (a : AVInteger) : int16 (a.limb 7) < 0 ↔ a.toInt < 0 := by
  have hlow : valueOf (a.v.take 7) < 65536 ^ 7 := by
    rw [valueOf_take]
    exact Nat.mod_lt _ (by decide)
  have hvalue := a.toInt_eq
  omega

/-- The number of rounds is what the divisor needs to reach the dividend. -/
theorem rounds_enough {x y n : Nat} (hx : x < 2 ^ 127) (hy : y < 2 ^ 127) (hpos : y ≠ 0)
    (hn : (n : Int) = max ((if x = 0 then -1 else (x.log2 : Int)) - y.log2 + 1) 0) :
    x < 2 ^ n * y ∧ 2 ^ n * y < 2 ^ 128 ∧ n ≤ 127 := by
  have hylog := (Nat.log2_eq_iff hpos).mp rfl
  by_cases hzero : x = 0
  · have hn : n = 0 := by
      rw [if_pos hzero] at hn
      omega
    rw [hn, hzero, Nat.pow_zero, Nat.one_mul]
    omega
  · rw [if_neg hzero] at hn
    have hxlog := (Nat.log2_eq_iff hzero).mp rfl
    have hmax : x.log2 < 127 := (Nat.log2_lt hzero).mpr hx
    refine ⟨?_, ?_, by omega⟩
    · calc x < 2 ^ (x.log2 + 1) := hxlog.2
        _ ≤ 2 ^ (n + y.log2) := Nat.pow_le_pow_right (by decide) (by omega)
        _ = 2 ^ n * 2 ^ y.log2 := Nat.pow_add 2 n y.log2
        _ ≤ 2 ^ n * y := Nat.mul_le_mul_left _ hylog.1
    · by_cases hn0 : n = 0
      · rw [hn0, Nat.pow_zero, Nat.one_mul]
        omega
      · calc 2 ^ n * y < 2 ^ n * 2 ^ (y.log2 + 1) := Nat.mul_lt_mul_of_pos_left hylog.2 (Nat.two_pow_pos n)
          _ = 2 ^ (n + (y.log2 + 1)) := (Nat.pow_add 2 n (y.log2 + 1)).symm
          _ ≤ 2 ^ 128 := Nat.pow_le_pow_right (by decide) (by omega)

theorem avModI_nonneg (fuel : Nat) (ha : 0 ≤ a.toInt) (hb : 0 < b.toInt) :
    ∃ q r : AVInteger, avModI (fuel + 1) a b = some (q, r) ∧ r.toNat < b.toNat ∧ q.toNat < 2 ^ 127 ∧
      q.toNat * b.toNat + r.toNat = a.toNat := by
  have hanat := toNat_of_nonneg ha
  have hbnat := toNat_of_nonneg hb.le
  have hbne : b.toNat ≠ 0 := by omega
  have hlogb : avLog2I b = b.toNat.log2 := by rw [avLog2I_eq, if_neg hbne]
  obtain ⟨n, hn⟩ : ∃ n, n = (avLog2I a - avLog2I b + 1).toNat := ⟨_, rfl⟩
  have hmax : (n : Int) = max (avLog2I a - avLog2I b + 1) 0 := by omega
  have hrounds := @rounds_enough a.toNat b.toNat n hanat.2 hbnat.2 hbne (by rw [hmax, avLog2I_eq a, hlogb])
  have hshifted : n ≠ 0 → (if avLog2I a - avLog2I b > 0 then avShrI b (-(avLog2I a - avLog2I b)) else b).toNat =
      2 ^ n * b.toNat / 2 := by
    intro hne
    obtain ⟨k, rfl⟩ := Nat.exists_eq_succ_of_ne_zero hne
    have hk : avLog2I a - avLog2I b = k := by omega
    have hdouble : 2 ^ (k + 1) * b.toNat = 2 * (b.toNat * 2 ^ k) := by ring
    have hfits : b.toNat * 2 ^ k < 2 ^ 128 := by
      have hbound := hrounds.2.1
      rw [Nat.succ_eq_add_one, hdouble] at hbound
      omega
    rw [hdouble, Nat.mul_div_cancel_left _ (by decide), hk]
    split
    · rw [avShrI_left b (by omega), Nat.mod_eq_of_lt hfits]
    · next hzero =>
        have hk0 : k = 0 := by omega
        rw [hk0, Nat.pow_zero, Nat.mul_one]
  have hzero : zeroI.toNat = 0 := rfl
  have hquot : (zeroI.toNat + 1) * 2 ^ n ≤ 2 ^ 127 := by
    rw [hzero, Nat.zero_add, Nat.one_mul]
    exact Nat.pow_le_pow_right (by decide) hrounds.2.2
  have hsign : ¬int16 (a.limb 7) < 0 := by
    rw [limb_neg_iff]
    omega
  obtain ⟨hr, hq, hsum⟩ := modLoop_value hshifted hrounds.2.1 hrounds.1 hanat.2 hquot
  rw [hzero, Nat.zero_mul, Nat.zero_mul, Nat.zero_add] at hsum
  exact ⟨_, _, by rw [avModI, if_neg hsign, ← hn], hr, hq, hsum⟩

structure Truncated (x y q r : Int) : Prop where
  sum : x = q * y + r
  abs_lt : |r| < y
  sign : r = 0 ∨ r.sign = x.sign

theorem Truncated.of_nonneg {x y q r : Int} (hsum : q * y + r = x) (hq : 0 ≤ q) (hr : 0 ≤ r) (hlt : r < y) :
    Truncated x y q r where
  sum := hsum.symm
  abs_lt := by rwa [abs_of_nonneg hr]
  sign := by
    rcases hr.eq_or_lt with hzero | hpos
    · exact .inl hzero.symm
    · have hprod : 0 ≤ q * y := mul_nonneg hq (by omega)
      exact .inr (by rw [Int.sign_eq_one_of_pos hpos, Int.sign_eq_one_of_pos (by omega)])

theorem Truncated.neg {x y q r : Int} (h : Truncated x y q r) : Truncated (-x) y (-q) (-r) where
  sum := by
    rw [h.sum]
    ring
  abs_lt := by
    rw [abs_neg]
    exact h.abs_lt
  sign := h.sign.imp (fun hzero => by rw [hzero, neg_zero]) fun hsign => by rw [Int.sign_neg, Int.sign_neg, hsign]

theorem neg_toInt (h : -2 ^ 127 < a.toInt) : (avSubI zeroI a).toInt = -a.toInt := by
  have hupper : a.toInt < ((2 ^ 128 : Nat) + 1) / 2 := Int.bmod_lt (by decide)
  have hzero : zeroI.toInt = 0 := @toInt_of_lt zeroI (by decide)
  rw [avSubI_toInt, hzero, zero_sub]
  exact Int.bmod_eq_of_le (by omega) (by omega)

theorem avModI_truncated (fuel : Nat) (ha : 0 ≤ a.toInt) (hb : 0 < b.toInt) :
    ∃ q r : AVInteger, avModI (fuel + 1) a b = some (q, r) ∧ 0 ≤ q.toInt ∧ 0 ≤ r.toInt ∧
      Truncated a.toInt b.toInt q.toInt r.toInt := by
  obtain ⟨q, r, hmod, hr, hq, hsum⟩ := avModI_nonneg fuel ha hb
  have hanat := toNat_of_nonneg ha
  have hbnat := toNat_of_nonneg hb.le
  have hqint := toInt_of_lt hq
  have hrint := toInt_of_lt (hr.trans hbnat.2)
  have hsumInt : (q.toNat : Int) * b.toNat + r.toNat = a.toNat := by exact_mod_cast hsum
  rw [hanat.1, hbnat.1, ← hqint, ← hrint] at hsumInt
  exact ⟨q, r, hmod, by omega, by omega, .of_nonneg hsumInt (by omega) (by omega) (by omega)⟩

theorem avModI_signed (fuel : Nat) (ha : -2 ^ 127 < a.toInt) (hb : 0 < b.toInt) :
    ∃ q r : AVInteger, avModI (fuel + 2) a b = some (q, r) ∧ Truncated a.toInt b.toInt q.toInt r.toInt := by
  by_cases hneg : a.toInt < 0
  · have hopposite := neg_toInt ha
    obtain ⟨q, r, hmod, hq, hr, htrunc⟩ := @avModI_truncated (avSubI zeroI a) b fuel (by omega) hb
    have htop := (limb_neg_iff a).mpr hneg
    refine ⟨avSubI zeroI q, avSubI zeroI r, ?_, ?_⟩
    · rw [avModI, if_pos htop, hmod]
      rfl
    · rw [hopposite] at htrunc
      have hback := htrunc.neg
      rw [neg_neg] at hback
      rwa [neg_toInt (by omega), neg_toInt (by omega)]
  · obtain ⟨q, r, hmod, -, -, htrunc⟩ := avModI_truncated (fuel + 1) (not_lt.mp hneg) hb
    exact ⟨q, r, hmod, htrunc⟩

/-- The arithmetic of the limbs is that of the numbers of 128 bits in two's complement. -/
theorem integer_arithmetic (a b : AVInteger) :
    (avAddI a b).toInt = (a.toInt + b.toInt).bmod (2 ^ 128) ∧
      (avSubI a b).toInt = (a.toInt - b.toInt).bmod (2 ^ 128) ∧
      (avMulI a b).toInt = (a.toInt * b.toInt).bmod (2 ^ 128) ∧
      avCmpI a b = (a.toInt - b.toInt).sign ∧
      (∀ n : Nat, n ≤ 127 → (avShrI a n).toNat = a.toNat / 2 ^ n ∧
        (avShrI a (-n)).toNat = a.toNat * 2 ^ n % 2 ^ 128) ∧
      (-2 ^ 127 < a.toInt → 0 < b.toInt → ∀ fuel, ∃ q r : AVInteger,
        avModI (fuel + 2) a b = some (q, r) ∧ avDivI (fuel + 2) a b = some q ∧
          a.toInt = q.toInt * b.toInt + r.toInt ∧ |r.toInt| < b.toInt ∧
          (r.toInt = 0 ∨ r.toInt.sign = a.toInt.sign)) := by
  refine ⟨avAddI_toInt a b, avSubI_toInt a b, avMulI_toInt a b, avCmpI_eq a b, ?_, ?_⟩
  · intro n hn
    exact ⟨avShrI_right a (by omega), avShrI_left a (by omega)⟩
  · intro ha hb fuel
    obtain ⟨q, r, hmod, htrunc⟩ := avModI_signed fuel ha hb
    exact ⟨q, r, hmod, by rw [avDivI, hmod]; rfl, htrunc.sum, htrunc.abs_lt, htrunc.sign⟩

theorem integer_arithmetic_seven_halves :
    ∃ q r : AVInteger, avModI 2 (avInt2i (-7)) (avInt2i 2) = some (q, r) ∧
      (-7 : Int) = q.toInt * 2 + r.toInt ∧ |r.toInt| < 2 := by
  have hseven : (avInt2i (-7)).toInt = -7 := avInt2i_toInt (-7)
  have htwo : (avInt2i 2).toInt = 2 := avInt2i_toInt 2
  obtain ⟨q, r, hmod, -, hsum, hlt, -⟩ := (integer_arithmetic (avInt2i (-7)) (avInt2i 2)).2.2.2.2.2
    (by rw [hseven]; decide) (by rw [htwo]; decide) 0
  rw [hseven, htwo] at hsum
  rw [htwo] at hlt
  exact ⟨q, r, hmod, hsum, hlt⟩

end Division

end P2PFFmpeg.Util
