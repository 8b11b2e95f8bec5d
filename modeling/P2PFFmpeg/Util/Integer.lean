import P2PFFmpeg.Library.Digits
import Mathlib.Data.Int.Bitwise
import Mathlib.Data.Int.ModEq
import Mathlib.Tactic.LinearCombination
import Mathlib.Tactic.NormNum

/-!
The 128-bit integers of integer.c: limbs of 16 bits, the lowest first.
-/

namespace P2PFFmpeg.Util

/-- `AV_INTEGER_SIZE` limbs. -/
structure AVInteger where
  v : List UInt16
  size : v.length = 8

namespace AVInteger

def limb (a : AVInteger) (i : Nat) : UInt16 := a.v.getD i 0

def digits (v : List UInt16) : List Nat := v.map UInt16.toNat

def valueOf (v : List UInt16) : Nat := Nat.ofDigits 65536 (digits v)

/-- The number without a sign. -/
def toNat (a : AVInteger) : Nat := valueOf a.v

def toInt (a : AVInteger) : Int := (a.toNat : Int).bmod (2 ^ 128)

end AVInteger

open AVInteger

def zeroI : AVInteger := ⟨List.replicate 8 0, rfl⟩

/-- A limb as an `int16_t`. -/
def int16 (x : UInt16) : Int := x.toBitVec.toInt

def carryLimbs (sign : Int) : Int → List UInt16 → List UInt16 → List UInt16
  | carry, a :: as, b :: bs =>
      let carry := carry >>> (16 : Nat) + a.toNat + sign * b.toNat
      UInt16.ofInt carry :: carryLimbs sign carry as bs
  | _, _, _ => []

theorem length_carryLimbs (sign carry : Int) {as bs : List UInt16} (h : as.length = bs.length) :
    (carryLimbs sign carry as bs).length = as.length := by
  induction as generalizing bs carry with
  | nil => rfl
  | cons a as ih =>
      cases bs with
      | nil => cases h
      | cons b bs => exact congrArg Nat.succ (ih _ (Nat.succ.inj h))

def avAddI (a b : AVInteger) : AVInteger :=
  ⟨carryLimbs 1 0 a.v b.v, (length_carryLimbs 1 0 (a.size.trans b.size.symm)).trans a.size⟩

def avSubI (a b : AVInteger) : AVInteger :=
  ⟨carryLimbs (-1) 0 a.v b.v, (length_carryLimbs (-1) 0 (a.size.trans b.size.symm)).trans a.size⟩

/-- `av_log2_16bit`. -/
def avLog216bit (x : UInt16) : Nat := x.toNat.log2

def log2Limbs : List UInt16 → Int
  | [] => -1
  | x :: rest => if x ≠ 0 then avLog216bit x + 16 * rest.length else log2Limbs rest

def avLog2I (a : AVInteger) : Int := log2Limbs a.v.reverse

/-- The inner loop of av_mul_i; the carry is an unsigned int. -/
def mulLimbs (x : Nat) : Nat → List UInt16 → List UInt16 → List UInt16
  | carry, b :: bs, o :: os =>
      let carry := (carry / 65536 + o.toNat + x * b.toNat) % 4294967296
      UInt16.ofNat carry :: mulLimbs x carry bs os
  | _, _, os => os

@[simp] theorem length_mulLimbs (x carry : Nat) (bs os : List UInt16) :
    (mulLimbs x carry bs os).length = os.length := by
  induction bs generalizing os carry with
  | nil => rfl
  | cons b bs ih =>
      cases os with
      | nil => rfl
      | cons o os => exact congrArg Nat.succ (ih _ os)

def mulRows (a b : AVInteger) (nb : Nat) : Nat → List UInt16
  | 0 => List.replicate 8 0
  | i + 1 =>
      let out := mulRows a b nb i
      if a.limb i ≠ 0 then
        out.take i ++ mulLimbs (a.limb i).toNat 0 (b.v.take (nb + 1)) (out.drop i)
      else out

theorem length_mulRows (a b : AVInteger) (nb i : Nat) : (mulRows a b nb i).length = 8 := by
  induction i with
  | zero => rfl
  | succ i ih =>
      rw [mulRows]
      split
      · rw [List.length_append, length_mulLimbs, ← List.length_append, List.take_append_drop, ih]
      · exact ih

def usedLimbs (a : AVInteger) : Nat := ((avLog2I a + 16) >>> (4 : Nat)).toNat

def avMulI (a b : AVInteger) : AVInteger :=
  ⟨mulRows a b (usedLimbs b) (usedLimbs a), length_mulRows _ _ _ _⟩

/-- `(v >> 16) | 1`. -/
def signOf (v : Int) : Int := Int.lor (v >>> (16 : Nat)) 1

def cmpLimbs : List UInt16 → List UInt16 → Int
  | a :: as, b :: bs =>
      let v := (a.toNat : Int) - b.toNat
      if v ≠ 0 then signOf v else cmpLimbs as bs
  | _, _ => 0

def avCmpI (a b : AVInteger) : Int :=
  let v := int16 (a.limb 7) - int16 (b.limb 7)
  if v ≠ 0 then signOf v else cmpLimbs (a.v.take 7).reverse (b.v.take 7).reverse

/-- One limb of av_shr_i; the index is an unsigned int. -/
def shrLimb (a : AVInteger) (s : Int) (i : Nat) : UInt16 :=
  let index := ((i + s >>> (4 : Nat)) % 4294967296).toNat
  let high := if (index + 1) % 4294967296 < 8 then
    (a.limb ((index + 1) % 4294967296)).toNat * 65536 % 4294967296 else 0
  let v := if index < 8 then high ||| (a.limb index).toNat else high
  UInt16.ofNat (v >>> (s % 16).toNat)

def avShrI (a : AVInteger) (s : Int) : AVInteger :=
  ⟨(List.range 8).map (shrLimb a s), by rw [List.length_map, List.length_range]⟩

def AVInteger.increment (a : AVInteger) : AVInteger :=
  ⟨a.v.set 0 (a.limb 0 + 1), by rw [List.length_set, a.size]⟩

def modLoop : Nat → AVInteger → AVInteger → AVInteger → AVInteger × AVInteger
  | 0, quot, a, _ => (quot, a)
  | n + 1, quot, a, b =>
      let quot := avShrI quot (-1)
      if avCmpI a b ≥ 0 then modLoop n quot.increment (avSubI a b) (avShrI b 1)
      else modLoop n quot a (avShrI b 1)

/-- The quotient and the remainder; nothing if the calls go deeper than the fuel. -/
def avModI : Nat → AVInteger → AVInteger → Option (AVInteger × AVInteger)
  | 0, _, _ => none
  | fuel + 1, a, b =>
      let i := avLog2I a - avLog2I b
      if int16 (a.limb 7) < 0 then do
        let result ← avModI fuel (avSubI zeroI a) b
        some (avSubI zeroI result.1, avSubI zeroI result.2)
      else
        let b := if i > 0 then avShrI b (-i) else b
        some (modLoop (i + 1).toNat zeroI a b)

def avDivI (fuel : Nat) (a b : AVInteger) : Option AVInteger := (avModI fuel a b).map Prod.fst

def int2iLimbs : Nat → Int → List UInt16
  | 0, _ => []
  | n + 1, a => UInt16.ofInt a :: int2iLimbs n (a >>> (16 : Nat))

theorem length_int2iLimbs (n : Nat) (a : Int) : (int2iLimbs n a).length = n := by
  induction n generalizing a with
  | zero => rfl
  | succ n ih => exact congrArg Nat.succ (ih _)

def avInt2i (a : Int64) : AVInteger := ⟨int2iLimbs 8 a.toInt, length_int2iLimbs 8 _⟩

section Values

variable {a b : AVInteger} {v w : List UInt16}

@[simp] theorem valueOf_nil : valueOf [] = 0 := rfl

@[simp] theorem valueOf_cons (x : UInt16) (v : List UInt16) : valueOf (x :: v) = x.toNat + 65536 * valueOf v :=
  rfl

theorem digits_lt (v : List UInt16) : ∀ d ∈ digits v, d < 65536 := by
  intro d hd
  obtain ⟨x, -, rfl⟩ := List.mem_map.mp hd
  exact x.toNat_lt

theorem valueOf_lt (v : List UInt16) : valueOf v < 65536 ^ v.length := by
  have hlt := Library.Digits.ofDigits_lt (by decide) (digits_lt v)
  rwa [digits, List.length_map] at hlt

theorem valueOf_append (v w : List UInt16) : valueOf (v ++ w) = valueOf v + 65536 ^ v.length * valueOf w := by
  rw [valueOf, digits, List.map_append, Nat.ofDigits_append, List.length_map]
  rfl

theorem valueOf_take (v : List UInt16) (n : Nat) : valueOf (v.take n) = valueOf v % 65536 ^ n := by
  rw [valueOf, digits, List.map_take]
  exact Library.Digits.ofDigits_take (by decide) (digits_lt v) n

theorem AVInteger.toNat_lt (a : AVInteger) : a.toNat < 2 ^ 128 := by
  have hlt := valueOf_lt a.v
  rwa [a.size] at hlt

theorem AVInteger.limb_eq (a : AVInteger) (i : Nat) : (a.limb i).toNat = a.toNat / 65536 ^ i % 65536 := by
  rw [toNat, valueOf, ← Library.Digits.getD_ofDigits (by decide) (digits_lt a.v), digits, limb,
    show (0 : Nat) = UInt16.toNat 0 from rfl, List.getD_map]

theorem ofInt_toNat (x : Int) : ((UInt16.ofInt x).toNat : Int) = x % 65536 := by
  rw [UInt16.ofInt, UInt16.toNat_ofNat']
  omega

theorem carryLimbs_value (sign carry : Int) {as bs : List UInt16} (h : as.length = bs.length) :
    (valueOf (carryLimbs sign carry as bs) : Int) ≡
      carry / 65536 + valueOf as + sign * valueOf bs [ZMOD 65536 ^ as.length] := by
  induction as generalizing bs carry with
  | nil => exact Int.modEq_one
  | cons a as ih =>
      cases bs with
      | nil => cases h
      | cons b bs =>
          have hshift : carry >>> (16 : Nat) = carry / 65536 := Int.shiftRight_eq_div_pow carry 16
          have hrest := ih (carry / 65536 + a.toNat + sign * b.toNat) (Nat.succ.inj h)
          rw [carryLimbs, hshift, List.length_cons, pow_succ']
          simp only [valueOf_cons]
          generalize hsum : carry / 65536 + a.toNat + sign * b.toNat = sum at hrest ⊢
          have hscaled := (hrest.mul_left' (c := 65536)).add_left (sum % 65536)
          have hvalue : sum % 65536 + 65536 * (sum / 65536 + valueOf as + sign * valueOf bs) =
              carry / 65536 + ((a.toNat : Int) + 65536 * valueOf as) +
                sign * ((b.toNat : Int) + 65536 * valueOf bs) := by
            have hsplit := Int.emod_add_mul_ediv sum 65536
            linear_combination hsplit - hsum
          rw [hvalue] at hscaled
          push_cast
          rwa [ofInt_toNat]

theorem bmod_modEq (x : Int) (n : Nat) : x.bmod n ≡ x [ZMOD n] := Int.bmod_emod

theorem bmod_congr {x y : Int} {n : Nat} (h : x ≡ y [ZMOD n]) : x.bmod n = y.bmod n := by
  rw [← Int.emod_bmod, h.eq, Int.emod_bmod]

theorem limbs_modulus : ((2 ^ 128 : Nat) : Int) = 65536 ^ 8 := by norm_num

theorem toInt_modEq (a : AVInteger) : a.toInt ≡ a.toNat [ZMOD 65536 ^ 8] := by
  rw [← limbs_modulus]
  exact bmod_modEq _ _

theorem toInt_of_modEq {x : Int} (h : (a.toNat : Int) ≡ x [ZMOD 65536 ^ 8]) : a.toInt = x.bmod (2 ^ 128) := by
  rw [← limbs_modulus] at h
  exact bmod_congr h

theorem avAddI_toInt (a b : AVInteger) : (avAddI a b).toInt = (a.toInt + b.toInt).bmod (2 ^ 128) := by
  have hvalue := carryLimbs_value 1 0 (a.size.trans b.size.symm)
  rw [a.size, Int.zero_ediv, zero_add, one_mul] at hvalue
  exact toInt_of_modEq (hvalue.trans ((toInt_modEq a).add (toInt_modEq b)).symm)

theorem avSubI_toInt (a b : AVInteger) : (avSubI a b).toInt = (a.toInt - b.toInt).bmod (2 ^ 128) := by
  have hvalue := carryLimbs_value (-1) 0 (a.size.trans b.size.symm)
  rw [a.size, Int.zero_ediv, zero_add, neg_one_mul, ← sub_eq_add_neg] at hvalue
  exact toInt_of_modEq (hvalue.trans ((toInt_modEq a).sub (toInt_modEq b)).symm)

theorem int2iLimbs_value (n : Nat) (x : Int) : (valueOf (int2iLimbs n x) : Int) ≡ x [ZMOD 65536 ^ n] := by
  induction n generalizing x with
  | zero => exact Int.modEq_one
  | succ n ih =>
      have hshift : x >>> (16 : Nat) = x / 65536 := Int.shiftRight_eq_div_pow x 16
      have hscaled := ((ih (x / 65536)).mul_left' (c := 65536)).add_left (x % 65536)
      rw [Int.emod_add_mul_ediv] at hscaled
      rw [int2iLimbs, hshift, valueOf_cons, pow_succ']
      push_cast
      rwa [ofInt_toNat]

theorem toInt_int2iLimbs {x : Int} (hlow : -2 ^ 63 ≤ x) (hhigh : x < 2 ^ 63) (ha : a.v = int2iLimbs 8 x) :
    a.toInt = x := by
  have hvalue := int2iLimbs_value 8 x
  rw [← ha] at hvalue
  rw [toInt_of_modEq hvalue]
  exact Int.bmod_eq_of_le (by omega) (by omega)

theorem avInt2i_toInt (x : Int64) : (avInt2i x).toInt = x.toInt :=
  toInt_int2iLimbs x.le_toInt x.toInt_lt rfl

end Values

section Log2

theorem log2_limb {x r k : Nat} (hx : x ≠ 0) (hr : r < 2 ^ k) : (r + 2 ^ k * x).log2 = x.log2 + k := by
  have hbounds := (Nat.log2_eq_iff hx).mp rfl
  have hpos : 0 < 2 ^ k := Nat.two_pow_pos k
  have hne : r + 2 ^ k * x ≠ 0 := by
    have hprod : 0 < 2 ^ k * x := Nat.mul_pos hpos (Nat.pos_of_ne_zero hx)
    omega
  rw [Nat.log2_eq_iff hne]
  constructor
  · calc 2 ^ (x.log2 + k) = 2 ^ k * 2 ^ x.log2 := by rw [Nat.pow_add, Nat.mul_comm]
      _ ≤ 2 ^ k * x := Nat.mul_le_mul_left _ hbounds.1
      _ ≤ r + 2 ^ k * x := Nat.le_add_left _ _
  · calc r + 2 ^ k * x < 2 ^ k + 2 ^ k * x := Nat.add_lt_add_right hr _
      _ = 2 ^ k * (x + 1) := by ring
      _ ≤ 2 ^ k * 2 ^ (x.log2 + 1) := Nat.mul_le_mul_left _ hbounds.2
      _ = 2 ^ (x.log2 + k + 1) := by ring

theorem log2Limbs_value (v : List UInt16) :
    log2Limbs v.reverse = if valueOf v = 0 then -1 else ((valueOf v).log2 : Int) := by
  induction v using List.reverseRecOn with
  | nil => rfl
  | append_singleton v x ih =>
      rw [List.reverse_concat, log2Limbs, valueOf_append, valueOf_cons, valueOf_nil, Nat.mul_zero, Nat.add_zero]
      by_cases hx : x = 0
      · rw [if_neg (not_not.mpr hx), ih, hx, UInt16.toNat_zero, Nat.mul_zero, Nat.add_zero]
      · have hnat : x.toNat ≠ 0 := fun h => hx (UInt16.toNat_inj.mp h)
        have hlt := valueOf_lt v
        have hpow : 65536 ^ v.length = 2 ^ (16 * v.length) := by rw [Nat.pow_mul]
        rw [hpow] at hlt ⊢
        have hprod : 0 < 2 ^ (16 * v.length) * x.toNat :=
          Nat.mul_pos (Nat.two_pow_pos _) (Nat.pos_of_ne_zero hnat)
        rw [if_pos hx, if_neg (by omega), log2_limb hnat hlt, List.length_reverse, avLog216bit]
        push_cast
        rfl

theorem avLog2I_eq (a : AVInteger) : avLog2I a = if a.toNat = 0 then -1 else (a.toNat.log2 : Int) :=
  log2Limbs_value a.v

theorem toNat_lt_usedLimbs (a : AVInteger) : a.toNat < 65536 ^ usedLimbs a := by
  have hpow : 65536 ^ usedLimbs a = 2 ^ (16 * usedLimbs a) := by rw [Nat.pow_mul]
  rw [hpow, usedLimbs, avLog2I_eq]
  by_cases hzero : a.toNat = 0
  · rw [if_pos hzero, hzero]
    exact Nat.two_pow_pos _
  · have hlt := ((Nat.log2_eq_iff hzero).mp rfl).2
    rw [if_neg hzero]
    refine hlt.trans_le (Nat.pow_le_pow_right (by decide) ?_)
    have hshift : ((a.toNat.log2 : Int) + 16) >>> (4 : Nat) = ((a.toNat.log2 + 16) / 16 : Nat) := by
      rw [Int.shiftRight_eq_div_pow]
      rfl
    rw [hshift, Int.toNat_natCast]
    omega

end Log2

section Mul

variable {a b : AVInteger} {nb : Nat}

theorem mulLimbs_value {x carry : Nat} (hx : x < 65536) (hcarry : carry < 4294967296) (bs os : List UInt16) :
    ∃ top < 65536, valueOf (mulLimbs x carry bs os) + 65536 ^ min bs.length os.length * top =
      carry / 65536 + valueOf os + x * valueOf (bs.take os.length) := by
  induction bs generalizing os carry with
  | nil => exact ⟨carry / 65536, by omega, by simp [mulLimbs, Nat.add_comm]⟩
  | cons b bs ih =>
      cases os with
      | nil => exact ⟨carry / 65536, by omega, by simp [mulLimbs]⟩
      | cons o os =>
          have hb := b.toNat_lt
          have ho := o.toNat_lt
          have hproduct : x * b.toNat ≤ 65535 * 65535 := Nat.mul_le_mul (by omega) (by omega)
          have hsum : carry / 65536 + o.toNat + x * b.toNat < 4294967296 := by omega
          rw [mulLimbs, Nat.mod_eq_of_lt hsum]
          obtain ⟨top, htop, hrest⟩ := ih hsum os
          refine ⟨top, htop, ?_⟩
          simp only [valueOf_cons, List.length_cons, List.take_succ_cons, UInt16.toNat_ofNat',
            Nat.add_min_add_right, pow_succ']
          generalize hs : carry / 65536 + o.toNat + x * b.toNat = sum at *
          have hsplit := Nat.mod_add_div sum 65536
          calc sum % 2 ^ 16 + 65536 * valueOf (mulLimbs x sum bs os) + 65536 * 65536 ^ min bs.length os.length * top
              = sum % 65536 + 65536 * (valueOf (mulLimbs x sum bs os) + 65536 ^ min bs.length os.length * top) := by
                rw [show 2 ^ 16 = 65536 from rfl]
                ring
            _ = sum % 65536 + 65536 * (sum / 65536 + valueOf os + x * valueOf (bs.take os.length)) := by rw [hrest]
            _ = sum + 65536 * valueOf os + x * (65536 * valueOf (bs.take os.length)) := by
                linear_combination hsplit
            _ = carry / 65536 + (o.toNat + 65536 * valueOf os) +
                x * (b.toNat + 65536 * valueOf (bs.take os.length)) := by
                rw [← hs]
                ring

theorem AVInteger.limb_index {a : AVInteger} {i : Nat} (h : a.limb i ≠ 0) : i < 8 := by
  by_contra hi
  refine h ?_
  rw [limb, List.getD_eq_getElem?_getD, List.getElem?_eq_none (by rw [a.size]; omega)]
  rfl

theorem valueOf_take_succ (a : AVInteger) (i : Nat) :
    valueOf (a.v.take (i + 1)) = valueOf (a.v.take i) + 65536 ^ i * (a.limb i).toNat := by
  rw [valueOf_take, valueOf_take, Nat.mod_pow_succ, a.limb_eq, AVInteger.toNat]

theorem row_long {m n low high row top x y : Nat} (hrow : row + n * top = high + x * (y % n)) :
    (low + m * row) % (m * n) = (low + m * high + m * (x * y)) % (m * n) := by
  have hsplit := Nat.mod_add_div y n
  have hsum : low + m * row + m * n * (top + x * (y / n)) = low + m * high + m * (x * y) :=
    calc low + m * row + m * n * (top + x * (y / n))
        = low + m * (row + n * top) + m * (x * (n * (y / n))) := by ring
      _ = low + m * high + m * (x * (y % n + n * (y / n))) := by
          rw [hrow]
          ring
      _ = low + m * high + m * (x * y) := by rw [hsplit]
  rw [← hsum, Nat.add_mul_mod_self_left]

theorem row_short {m n low high row top x y : Nat} (hrow : row + n * top = high + x * y)
    (hlt : low + m * high + m * (x * y) < m * n) : low + m * row = low + m * high + m * (x * y) := by
  have hsum : low + m * row + m * n * top = low + m * high + m * (x * y) :=
    calc low + m * row + m * n * top = low + m * (row + n * top) := by ring
      _ = low + m * high + m * (x * y) := by
          rw [hrow]
          ring
  have htop : top = 0 := by
    by_contra hne
    have hle := Nat.le_mul_of_pos_right (m * n) (Nat.pos_of_ne_zero hne)
    omega
  rwa [htop, Nat.mul_zero, Nat.add_zero] at hsum

theorem mulRow_value {i : Nat} {out : List UInt16} (hb : b.toNat < 65536 ^ nb)
    (hi : i < 8) (hout : out.length = 8) (hvalue : valueOf out = valueOf (a.v.take i) * b.toNat % 65536 ^ 8) :
    valueOf (out.take i ++ mulLimbs (a.limb i).toNat 0 (b.v.take (nb + 1)) (out.drop i)) =
      valueOf (a.v.take (i + 1)) * b.toNat % 65536 ^ 8 := by
  obtain ⟨top, -, hrow⟩ := mulLimbs_value (a.limb i).toNat_lt (show 0 < 4294967296 by decide)
    (b.v.take (nb + 1)) (out.drop i)
  have hlength : (out.take i ++ mulLimbs (a.limb i).toNat 0 (b.v.take (nb + 1)) (out.drop i)).length = 8 := by
    rw [List.length_append, length_mulLimbs, ← List.length_append, List.take_append_drop, hout]
  have hlt := valueOf_lt (out.take i ++ mulLimbs (a.limb i).toNat 0 (b.v.take (nb + 1)) (out.drop i))
  have hsplit : valueOf out = valueOf (out.take i) + 65536 ^ i * valueOf (out.drop i) := by
    have happend := valueOf_append (out.take i) (out.drop i)
    rwa [List.take_append_drop, List.length_take, hout, Nat.min_eq_left hi.le] at happend
  have hnext : valueOf (a.v.take (i + 1)) * b.toNat =
      valueOf (a.v.take i) * b.toNat + 65536 ^ i * ((a.limb i).toNat * b.toNat) := by
    rw [valueOf_take_succ]
    ring
  rw [hlength, valueOf_append, List.length_take, hout, Nat.min_eq_left hi.le] at hlt
  rw [valueOf_append, List.length_take, hout, Nat.min_eq_left hi.le, ← Nat.mod_eq_of_lt hlt]
  rw [List.length_take, b.size, List.length_drop, hout, List.take_take, valueOf_take, ← AVInteger.toNat,
    Nat.zero_div, Nat.zero_add] at hrow
  by_cases hfits : 8 - i ≤ nb + 1
  · have hmodulus : 65536 ^ i * 65536 ^ (8 - i) = 65536 ^ 8 := by rw [← Nat.pow_add, Nat.add_sub_cancel' hi.le]
    rw [Nat.min_eq_left hfits, Nat.min_eq_right (by omega : 8 - i ≤ min (nb + 1) 8)] at hrow
    rw [← hmodulus, row_long hrow, ← hsplit, hvalue, hmodulus, Nat.mod_add_mod, hnext]
  · have hfit : nb + 1 ≤ 8 - i := by omega
    have hbelow : b.toNat < 65536 ^ (nb + 1) := hb.trans_le (Nat.pow_le_pow_right (by decide) (Nat.le_succ nb))
    have hnextlt : valueOf (a.v.take (i + 1)) * b.toNat < 65536 ^ i * 65536 ^ (nb + 1) := by
      have hfirst : valueOf (a.v.take (i + 1)) < 65536 ^ (i + 1) := by
        rw [valueOf_take]
        exact Nat.mod_lt _ (Nat.pow_pos (by decide))
      calc valueOf (a.v.take (i + 1)) * b.toNat < 65536 ^ (i + 1) * 65536 ^ nb := Nat.mul_lt_mul'' hfirst hb
        _ = 65536 ^ i * 65536 ^ (nb + 1) := by ring
    have hprefix : valueOf out = valueOf (a.v.take i) * b.toNat := by
      refine hvalue.trans (Nat.mod_eq_of_lt (lt_of_le_of_lt ?_ (hnextlt.trans_le ?_)))
      · exact hnext ▸ Nat.le_add_right _ _
      · rw [← Nat.pow_add]
        exact Nat.pow_le_pow_right (by decide) (by omega)
    rw [Nat.min_eq_right hfit, Nat.min_eq_left (by omega : nb + 1 ≤ 8), Nat.min_eq_left hfit,
      Nat.mod_eq_of_lt hbelow] at hrow
    rw [row_short hrow (by rwa [← hsplit, hprefix, ← hnext]), ← hsplit, hprefix, hnext]

theorem mulRows_value (hb : b.toNat < 65536 ^ nb) (i : Nat) :
    valueOf (mulRows a b nb i) = valueOf (a.v.take i) * b.toNat % 65536 ^ 8 := by
  induction i with
  | zero => rw [List.take_zero, valueOf_nil, Nat.zero_mul]; rfl
  | succ i ih =>
      rw [mulRows]
      split
      · next hlimb => exact mulRow_value hb (limb_index hlimb) (length_mulRows a b nb i) ih
      · next hlimb => rw [ih, valueOf_take_succ, not_not.mp hlimb, UInt16.toNat_zero, Nat.mul_zero, Nat.add_zero]

theorem avMulI_toNat (a b : AVInteger) : (avMulI a b).toNat = a.toNat * b.toNat % 65536 ^ 8 := by
  have hall : valueOf (a.v.take (usedLimbs a)) = a.toNat := by
    rw [valueOf_take, ← AVInteger.toNat, Nat.mod_eq_of_lt (toNat_lt_usedLimbs a)]
  rw [← hall]
  exact mulRows_value (toNat_lt_usedLimbs b) (usedLimbs a)

theorem avMulI_toInt (a b : AVInteger) : (avMulI a b).toInt = (a.toInt * b.toInt).bmod (2 ^ 128) := by
  refine toInt_of_modEq (Int.ModEq.trans ?_ ((toInt_modEq a).mul (toInt_modEq b)).symm)
  rw [avMulI_toNat]
  push_cast
  exact Int.mod_modEq _ _

end Mul

end P2PFFmpeg.Util
