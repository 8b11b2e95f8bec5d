import P2PFFmpeg.Library.NearestFraction
import P2PFFmpeg.Util.Packet
import Mathlib.Algebra.Order.Field.Basic
import Mathlib.RingTheory.Coprime.Lemmas

namespace P2PFFmpeg.Util

open Library.NearestFraction

def ffCtzll (n : Nat) : Nat := if n = 0 ∨ n % 2 = 1 then 0 else ffCtzll (n / 2) + 1

theorem ctz_dvd (n : Nat) : 2 ^ ffCtzll n ∣ n := by
  induction n using ffCtzll.induct with
  | case1 n hstop => rw [ffCtzll, if_pos hstop]; exact one_dvd n
  | case2 n hgo ih =>
      rw [ffCtzll, if_neg hgo, pow_succ]
      obtain ⟨m, hm⟩ := ih
      exact ⟨m, by rw [Nat.mul_right_comm, ← hm]; omega⟩

theorem shift_odd {n : Nat} (hn : 0 < n) : n >>> ffCtzll n % 2 = 1 := by
  induction n using ffCtzll.induct with
  | case1 n hstop =>
      rw [ffCtzll, if_pos hstop, Nat.shiftRight_zero]
      exact hstop.resolve_left hn.ne'
  | case2 n hgo ih =>
      rw [ffCtzll, if_neg hgo, Nat.add_comm, Nat.shiftRight_add]
      exact ih (by omega)

theorem shift_pos {n : Nat} (hn : 0 < n) : 0 < n >>> ffCtzll n := by
  refine Nat.pos_of_ne_zero fun hzero => ?_
  have hodd := shift_odd hn
  rw [hzero] at hodd
  cases hodd

theorem shift_le (n k : Nat) : n >>> k ≤ n := Nat.shiftRight_le n k

def gcdLoop (u v : Nat) (hu : 0 < u) (hv : 0 < v) : Nat :=
  if u = v then u
  else if hgt : u > v then gcdLoop v ((u - v) >>> ffCtzll (u - v)) hv (shift_pos (Nat.sub_pos_of_lt hgt))
  else if hlt : v > u then gcdLoop u ((v - u) >>> ffCtzll (v - u)) hu (shift_pos (Nat.sub_pos_of_lt hlt))
  else u
termination_by u + v
decreasing_by
  · have hle := shift_le (u - v) (ffCtzll (u - v))
    omega
  · have hle := shift_le (v - u) (ffCtzll (v - u))
    omega

/-- Of numbers that are not negative. -/
def avGcd (a b : Nat) : Nat :=
  if ha : a = 0 then b
  else if hb : b = 0 then a
  else gcdLoop (a >>> ffCtzll a) (b >>> ffCtzll b) (shift_pos (Nat.pos_of_ne_zero ha))
    (shift_pos (Nat.pos_of_ne_zero hb)) <<< min (ffCtzll a) (ffCtzll b)

/-- The last step of the loop: the largest multiple that still fits, if it comes nearer.
Nothing if a product is no uint64_t, or a result no int. -/
def lastStep (max : Nat) (a0 a1 : Nat × Nat) (num den : Nat) : Option (Nat × Nat) :=
  if a0.1 > max ∨ a0.2 > max then none
  else
    let x := num / den
    let x := if a1.1 ≠ 0 then (max - a0.1) / a1.1 else x
    let x := if a1.2 ≠ 0 then min x ((max - a0.2) / a1.2) else x
    if den * (2 * x * a1.2 + a0.2) ≥ 2 ^ 64 ∨ num * a1.2 ≥ 2 ^ 63 then none
    else if den * (2 * x * a1.2 + a0.2) > num * a1.2 then
      if x * a1.1 + a0.1 ≥ 2 ^ 31 ∨ x * a1.2 + a0.2 ≥ 2 ^ 31 then none
      else some (x * a1.1 + a0.1, x * a1.2 + a0.2)
    else some a1

/-- The loop of av_reduce; it returns the fraction and what is left of the denominator. -/
def reduceLoop (max : Nat) (a0 a1 : Nat × Nat) (num den : Nat) : Option ((Nat × Nat) × Nat) :=
  if h : den = 0 then some (a1, den)
  else
    let x := num / den
    let nextDen := num - den * x
    let a2 := (x * a1.1 + a0.1, x * a1.2 + a0.2)
    if den * x > num ∨ a2.1 ≥ 2 ^ 63 ∨ a2.2 ≥ 2 ^ 63 then none
    else if a2.1 > max ∨ a2.2 > max then (lastStep max a0 a1 num den).map (·, den)
    else reduceLoop max a1 a2 den nextDen
termination_by den
decreasing_by
  rw [← Nat.mod_eq_sub_mul_div]
  exact Nat.mod_lt num (Nat.pos_of_ne_zero h)

/-- The numerator and the denominator that are stored, and the result; nothing if a number
overflows. -/
def avReduce (num den : Int) (max : Nat) : Option (Int × Int × Int) :=
  let sign := decide (num < 0) ^^ decide (den < 0)
  if num.natAbs ≥ 2 ^ 63 ∨ den.natAbs ≥ 2 ^ 63 then none
  else
    let gcd := avGcd num.natAbs den.natAbs
    let num := if gcd ≠ 0 then num.natAbs / gcd else num.natAbs
    let den := if gcd ≠ 0 then den.natAbs / gcd else den.natAbs
    let result := if num ≤ max ∧ den ≤ max then reduceLoop max (0, 1) (num, den) num 0
      else reduceLoop max (0, 1) (1, 0) num den
    result.map fun r => (if sign then -(r.1.1 : Int) else r.1.1, (r.1.2 : Int), if r.2 = 0 then 1 else 0)

section Gcd

theorem shift_mul (n : Nat) : n >>> ffCtzll n * 2 ^ ffCtzll n = n := by
  rw [Nat.shiftRight_eq_div_pow]
  exact Nat.div_mul_cancel (ctz_dvd n)

theorem gcd_mul_pow {u : Nat} (hu : u % 2 = 1) (v k : Nat) : u.gcd (v * 2 ^ k) = u.gcd v := by
  have hcoprime : Nat.Coprime u 2 := by
    rw [Nat.coprime_comm, Nat.Coprime, Nat.gcd_rec, hu]
    rfl
  exact Nat.Coprime.gcd_mul_right_cancel_right v (hcoprime.pow_right k).symm

theorem gcd_shift {u : Nat} (hu : u % 2 = 1) (n : Nat) : u.gcd (n >>> ffCtzll n) = u.gcd n := by
  rw [← gcd_mul_pow hu (n >>> ffCtzll n) (ffCtzll n), shift_mul]

theorem gcd_mul_pows {u v : Nat} (hu : u % 2 = 1) (hv : v % 2 = 1) (j k : Nat) :
    (u * 2 ^ j).gcd (v * 2 ^ k) = u.gcd v * 2 ^ min j k := by
  rcases Nat.le_total j k with hle | hle
  · obtain ⟨i, rfl⟩ := Nat.exists_eq_add_of_le hle
    rw [Nat.min_eq_left hle, Nat.add_comm j i, pow_add, ← Nat.mul_assoc, Nat.gcd_mul_right, gcd_mul_pow hu]
  · obtain ⟨i, rfl⟩ := Nat.exists_eq_add_of_le hle
    rw [Nat.min_eq_right hle, Nat.add_comm k i, pow_add, ← Nat.mul_assoc, Nat.gcd_mul_right, Nat.gcd_comm,
      gcd_mul_pow hv, Nat.gcd_comm]

theorem gcdLoop_eq (u v : Nat) (hu : 0 < u) (hv : 0 < v) (huodd : u % 2 = 1) (hvodd : v % 2 = 1) :
    gcdLoop u v hu hv = u.gcd v := by
  induction u, v, hu, hv using gcdLoop.induct with
  | case1 v hu hv => rw [gcdLoop, if_pos rfl, Nat.gcd_self]
  | case2 u v hu hv hne hgt ih =>
      rw [gcdLoop, if_neg hne, dif_pos hgt, ih hvodd (shift_odd (Nat.sub_pos_of_lt hgt)), gcd_shift hvodd (u - v),
        Nat.gcd_comm u v]
      exact Nat.gcd_sub_self_right hgt.le
  | case3 u v hu hv hne hle hlt ih =>
      rw [gcdLoop, if_neg hne, dif_neg hle, dif_pos hlt, ih huodd (shift_odd (Nat.sub_pos_of_lt hlt)), gcd_shift huodd (v - u)]
      exact Nat.gcd_sub_self_right hlt.le
  | case4 u v hu hv hne hle hge => omega

theorem avGcd_eq (a b : Nat) : avGcd a b = a.gcd b := by
  rw [avGcd]
  split
  · next ha => rw [ha, Nat.gcd_zero_left]
  split
  · next hb => rw [hb, Nat.gcd_zero_right]
  next ha hb =>
    have haodd := shift_odd (Nat.pos_of_ne_zero ha)
    have hbodd := shift_odd (Nat.pos_of_ne_zero hb)
    rw [gcdLoop_eq _ _ _ _ haodd hbodd, Nat.shiftLeft_eq, ← gcd_mul_pows haodd hbodd, shift_mul, shift_mul]

end Gcd

section Loop

variable {n d max num den : Nat} {a0 a1 : Nat × Nat} {ε : Int}

/-- A fraction with small parts that is as near to `n / d` as any of them. -/
structure Best (n d max : Nat) (r : Nat × Nat) : Prop where
  coprime : Nat.Coprime r.1 r.2
  pos : 0 < r.2
  num_le : r.1 ≤ max
  den_le : r.2 ≤ max
  nearest : ∀ a b : Int, a ≤ max → 0 < b → b ≤ max → |(n : Int) * r.2 - d * r.1| * b ≤ |n * b - d * a| * r.2

structure Convergents (n d max : Nat) (a0 a1 : Nat × Nat) (num den : Nat) (ε : Int) : Prop where
  num_sum : num * a1.1 + den * a0.1 = n
  den_sum : num * a1.2 + den * a0.2 = d
  unit : ε * ε = 1
  det : (a1.1 : Int) * a0.2 - a0.1 * a1.2 = ε
  le0 : a0.1 ≤ max ∧ a0.2 ≤ max
  le1 : a1.1 ≤ max ∧ a1.2 ≤ max

theorem Convergents.start (hmax : 1 ≤ max) : Convergents n d max (0, 1) (1, 0) n d 1 where
  num_sum := by omega
  den_sum := by omega
  unit := rfl
  det := by decide
  le0 := ⟨Nat.zero_le max, hmax⟩
  le1 := ⟨hmax, Nat.zero_le max⟩

theorem divided_sum (num den p q : Nat) :
    den * (num / den * p + q) + (num - den * (num / den)) * p = num * p + den * q :=
  calc den * (num / den * p + q) + (num - den * (num / den)) * p
      = (den * (num / den) + (num - den * (num / den))) * p + den * q := by ring
    _ = num * p + den * q := by rw [Nat.add_sub_cancel' (Nat.mul_div_le num den)]

theorem Convergents.step (h : Convergents n d max a0 a1 num den ε)
    (hle : num / den * a1.1 + a0.1 ≤ max ∧ num / den * a1.2 + a0.2 ≤ max) :
    Convergents n d max a1 (num / den * a1.1 + a0.1, num / den * a1.2 + a0.2) den (num - den * (num / den)) (-ε) where
  num_sum := (divided_sum num den a1.1 a0.1).trans h.num_sum
  den_sum := (divided_sum num den a1.2 a0.2).trans h.den_sum
  unit := by rw [neg_mul_neg, h.unit]
  det := by
    push_cast
    linear_combination -h.det
  le0 := h.le1
  le1 := hle

theorem Convergents.next_le (h : Convergents n d max a0 a1 num den ε) {x : Nat} (hx : den * x ≤ num) :
    den * (x * a1.1 + a0.1) ≤ n ∧ den * (x * a1.2 + a0.2) ≤ d ∧ num * a1.2 ≤ d := by
  refine ⟨?_, ?_, ?_⟩
  · calc den * (x * a1.1 + a0.1) = den * x * a1.1 + den * a0.1 := by ring
      _ ≤ num * a1.1 + den * a0.1 := Nat.add_le_add_right (Nat.mul_le_mul_right _ hx) _
      _ = n := h.num_sum
  · calc den * (x * a1.2 + a0.2) = den * x * a1.2 + den * a0.2 := by ring
      _ ≤ num * a1.2 + den * a0.2 := Nat.add_le_add_right (Nat.mul_le_mul_right _ hx) _
      _ = d := h.den_sum
  · exact h.den_sum ▸ Nat.le_add_right _ _

theorem Convergents.den_ne (h : Convergents n d max a0 a1 num den ε) (hcoprime : Nat.Coprime n d)
    (hlarge : ¬(n ≤ max ∧ d ≤ max)) : den ≠ 0 := by
  rintro rfl
  have hnum := h.num_sum
  have hden := h.den_sum
  rw [Nat.zero_mul, Nat.add_zero] at hnum hden
  have hone : num = 1 := by
    have hdvd := Nat.dvd_gcd (Dvd.intro _ hnum) (Dvd.intro _ hden)
    rw [hcoprime] at hdvd
    exact Nat.dvd_one.mp hdvd
  rw [hone, Nat.one_mul] at hnum hden
  exact hlarge ⟨hnum ▸ h.le1.1, hden ▸ h.le1.2⟩

structure Multiple (max : Nat) (a0 a1 : Nat × Nat) (num den x : Nat) : Prop where
  num_le : x * a1.1 + a0.1 ≤ max
  den_le : x * a1.2 + a0.2 ≤ max
  more : max < (x + 1) * a1.1 + a0.1 ∨ max < (x + 1) * a1.2 + a0.2
  below : x < num / den

theorem Convergents.neighbours (h : Convergents n d max a0 a1 num den ε) {x : Nat} (hx : den * x ≤ num) :
    Neighbours n d a1.1 a1.2 (x * a1.1 + a0.1 : Nat) (x * a1.2 + a0.2 : Nat) den (num - den * x : Nat) ε where
  unit := h.unit
  det := by
    push_cast
    linear_combination h.det
  first := by
    have hnum := h.num_sum
    have hden := h.den_sum
    rw [← hnum, ← hden]
    push_cast
    linear_combination -den * h.det
  second := by
    have hnum := h.num_sum
    have hden := h.den_sum
    rw [← hnum, ← hden, Nat.cast_sub hx]
    push_cast
    linear_combination (num - den * x) * h.det
  p_nonneg := Int.natCast_nonneg _
  q_nonneg := Int.natCast_nonneg _
  r_nonneg := Int.natCast_nonneg _
  s_nonneg := Int.natCast_nonneg _
  e_nonneg := Int.natCast_nonneg _
  f_nonneg := Int.natCast_nonneg _

theorem le_room_iff {m p q : Nat} (hq : q ≤ m) (hp : p ≠ 0) (x : Nat) : x ≤ (m - q) / p ↔ x * p + q ≤ m := by
  rw [Nat.le_div_iff_mul_le (Nat.pos_of_ne_zero hp)]
  omega

theorem Convergents.multiple (h : Convergents n d max a0 a1 num den ε)
    (hover : max < num / den * a1.1 + a0.1 ∨ max < num / den * a1.2 + a0.2) : Multiple max a0 a1 num den
      (if a1.2 ≠ 0 then min (if a1.1 ≠ 0 then (max - a0.1) / a1.1 else num / den) ((max - a0.2) / a1.2)
      else if a1.1 ≠ 0 then (max - a0.1) / a1.1 else num / den) := by
  obtain ⟨hp0, hq0⟩ := h.le0
  by_cases hp : a1.1 = 0
  · rw [hp, Nat.mul_zero, Nat.zero_add] at hover
    have hq : a1.2 ≠ 0 := by
      intro hq
      rw [hq, Nat.mul_zero, Nat.zero_add] at hover
      omega
    have hroom := le_room_iff hq0 hq
    have hless : (max - a0.2) / a1.2 < num / den := by
      by_contra hle
      have hfit := (hroom (num / den)).mp (not_lt.mp hle)
      omega
    rw [if_pos hq, if_neg (not_not.mpr hp), Nat.min_eq_right hless.le]
    refine ⟨?_, (hroom _).mp le_rfl, .inr ?_, hless⟩
    · rw [hp, Nat.mul_zero, Nat.zero_add]
      exact hp0
    · exact not_le.mp fun hfit => absurd ((hroom _).mpr hfit) (Nat.not_succ_le_self _)
  · have hroom := le_room_iff hp0 hp
    rw [if_pos hp]
    by_cases hq : a1.2 = 0
    · rw [hq, Nat.mul_zero, Nat.zero_add] at hover
      have hless : (max - a0.1) / a1.1 < num / den := by
        by_contra hle
        have hfit := (hroom (num / den)).mp (not_lt.mp hle)
        omega
      rw [if_neg (not_not.mpr hq)]
      refine ⟨(hroom _).mp le_rfl, ?_, .inl ?_, hless⟩
      · rw [hq, Nat.mul_zero, Nat.zero_add]
        exact hq0
      · exact not_le.mp fun hfit => absurd ((hroom _).mpr hfit) (Nat.not_succ_le_self _)
    · have hroom' := le_room_iff hq0 hq
      rw [if_pos hq]
      have hless : min ((max - a0.1) / a1.1) ((max - a0.2) / a1.2) < num / den := by
        by_contra hle
        obtain ⟨hfirst, hsecond⟩ := le_min_iff.mp (not_lt.mp hle)
        have hfit := (hroom _).mp hfirst
        have hfit' := (hroom' _).mp hsecond
        omega
      refine ⟨(hroom _).mp (min_le_left _ _), (hroom' _).mp (min_le_right _ _), ?_, hless⟩
      by_contra hmore
      rw [not_or, not_lt, not_lt] at hmore
      exact absurd (le_min ((hroom _).mpr hmore.1) ((hroom' _).mpr hmore.2)) (Nat.not_succ_le_self _)

theorem coprime_of_det {p q r s : Nat} (hunit : ε * ε = 1) (hdet : (p : Int) * s - r * q = ε) :
    Nat.Coprime p q ∧ Nat.Coprime r s := by
  rw [← Nat.isCoprime_iff_coprime, ← Nat.isCoprime_iff_coprime]
  exact ⟨⟨ε * s, -(ε * r), by linear_combination ε * hdet + hunit⟩, ⟨-(ε * q), ε * p, by linear_combination ε * hdet + hunit⟩⟩

theorem ne_zero_of_unit (h : ε * ε = 1) : ε ≠ 0 := by
  rintro rfl
  cases h

theorem Convergents.last (h : Convergents n d max a0 a1 num den ε) (hd : d < 2 ^ 63) (hint : max < 2 ^ 31)
    (hden : den ≠ 0) (hover : max < num / den * a1.1 + a0.1 ∨ max < num / den * a1.2 + a0.2) :
    ∃ r, lastStep max a0 a1 num den = some r ∧ Best n d max r := by
  have hmultiple := h.multiple hover
  rw [lastStep, if_neg (by have hle := h.le0; omega)]
  generalize hx : (if a1.2 ≠ 0 then min (if a1.1 ≠ 0 then (max - a0.1) / a1.1 else num / den) ((max - a0.2) / a1.2)
      else if a1.1 ≠ 0 then (max - a0.1) / a1.1 else num / den) = x at hmultiple
  simp only [hx]
  have hbelow : den * x ≤ num :=
    (Nat.mul_le_mul_left den hmultiple.below.le).trans (Nat.mul_div_le num den)
  obtain ⟨-, hden', hscaled⟩ := h.next_le hbelow
  have hneighbours := h.neighbours hbelow
  have hsmall (a b : Int) (ha : a ≤ max) (hb : b ≤ max) : a < a1.1 + (x * a1.1 + a0.1 : Nat) ∨
      b < a1.2 + (x * a1.2 + a0.2 : Nat) := by
    have hmore := hmultiple.more
    rw [Nat.succ_mul, Nat.succ_mul] at hmore
    omega
  have hdouble : den * (2 * x * a1.2 + a0.2) ≤ 2 * (den * (x * a1.2 + a0.2)) := by
    calc den * (2 * x * a1.2 + a0.2) ≤ den * (2 * x * a1.2 + 2 * a0.2) :=
          Nat.mul_le_mul_left _ (Nat.add_le_add_left (by omega) _)
      _ = 2 * (den * (x * a1.2 + a0.2)) := by ring
  have hsplit : den * (2 * x * a1.2 + a0.2) = den * (x * a1.2 + a0.2) + den * x * a1.2 := by ring
  have hoff : (num - den * x) * a1.2 = num * a1.2 - den * x * a1.2 := Nat.sub_mul _ _ _
  rw [if_neg (by omega)]
  split
  · next hnearer =>
      have hnum := hmultiple.num_le
      have hdenle := hmultiple.den_le
      rw [if_neg (by omega)]
      refine ⟨_, rfl, (coprime_of_det h.unit hneighbours.det).2, ?_, hnum, hdenle, fun a b ha hb hbmax => ?_⟩
      · by_contra hzero
        have hnone : x * a1.2 + a0.2 = 0 := Nat.eq_zero_of_not_pos hzero
        rw [hnone, Nat.mul_zero, Nat.mul_zero] at hdouble
        omega
      · have hcloser : (num - den * x) * a1.2 ≤ den * (x * a1.2 + a0.2) := by omega
        have hnearest := hneighbours.symm.nearest (a := a) (b := b) (by exact_mod_cast hcloser) hb
          (by have hfit := hsmall a b ha hbmax; omega)
        rw [hneighbours.second, Neighbours.abs_unit h.unit, abs_of_nonneg (Int.natCast_nonneg _)]
        exact hnearest
  · next hfarther =>
      refine ⟨_, rfl, (coprime_of_det h.unit hneighbours.det).1, ?_, h.le1.1, h.le1.2, fun a b ha hb hbmax => ?_⟩
      · by_contra hzero
        have hfirst : a1.2 = 0 := Nat.eq_zero_of_not_pos hzero
        have hdet := h.det
        rw [hfirst, Nat.mul_zero, Nat.mul_zero, Nat.zero_add] at hfarther
        have hsecond : a0.2 = 0 := (Nat.mul_eq_zero.mp (Nat.eq_zero_of_not_pos hfarther)).resolve_left hden
        rw [hfirst, hsecond, Nat.cast_zero, mul_zero, mul_zero, sub_zero] at hdet
        exact ne_zero_of_unit h.unit hdet.symm
      · have hcloser : den * (x * a1.2 + a0.2) ≤ (num - den * x) * a1.2 := by omega
        have hnearest := hneighbours.nearest (a := a) (b := b) (by exact_mod_cast hcloser) hb (hsmall a b ha hbmax)
        rw [hneighbours.first, neg_mul, abs_neg, Neighbours.abs_unit h.unit, abs_of_nonneg (Int.natCast_nonneg _)]
        exact hnearest

theorem Convergents.loop (h : Convergents n d max a0 a1 num den ε) (hcoprime : Nat.Coprime n d)
    (hlarge : ¬(n ≤ max ∧ d ≤ max)) (hn : n < 2 ^ 63) (hd : d < 2 ^ 63) (hint : max < 2 ^ 31) :
    ∃ r left, reduceLoop max a0 a1 num den = some (r, left) ∧ left ≠ 0 ∧ Best n d max r := by
  induction den using Nat.strong_induction_on generalizing num a0 a1 ε with
  | _ den ih =>
      have hden := h.den_ne hcoprime hlarge
      have hquotient := Nat.mul_div_le num den
      obtain ⟨hnum', hden', -⟩ := h.next_le hquotient
      have hlargest (m : Nat) : m ≤ den * m := Nat.le_mul_of_pos_left m (Nat.pos_of_ne_zero hden)
      have hnext := (hlargest _).trans hnum'
      have hnext' := (hlargest _).trans hden'
      rw [reduceLoop, dif_neg hden, if_neg (by omega)]
      split
      · next hover =>
          obtain ⟨r, hr, hbest⟩ := h.last hd hint hden hover
          exact ⟨r, den, by rw [hr, Option.map_some], hden, hbest⟩
      · next hfits =>
          rw [not_or, not_lt, not_lt] at hfits
          refine ih _ ?_ (h.step hfits)
          rw [← Nat.mod_eq_sub_mul_div]
          exact Nat.mod_lt num (Nat.pos_of_ne_zero hden)

theorem Best.refl (hcoprime : Nat.Coprime n d) (hpos : 0 < d) (hn : n ≤ max) (hd : d ≤ max) : Best n d max (n, d) where
  coprime := hcoprime
  pos := hpos
  num_le := hn
  den_le := hd
  nearest := by
    intro a b _ hb _
    rw [Int.mul_comm d n, sub_self, abs_zero, Int.zero_mul]
    exact mul_nonneg (abs_nonneg _) (Int.natCast_nonneg _)

theorem reduced (hcoprime : Nat.Coprime n d) (hpos : 0 < d) (hn : n < 2 ^ 63) (hd : d < 2 ^ 63) (hmax : 1 ≤ max)
    (hint : max < 2 ^ 31) :
    ∃ r left, (if n ≤ max ∧ d ≤ max then reduceLoop max (0, 1) (n, d) n 0 else reduceLoop max (0, 1) (1, 0) n d)
      = some (r, left) ∧ Best n d max r ∧ (left = 0 ↔ n ≤ max ∧ d ≤ max) ∧ (left = 0 → r = (n, d)) := by
  split
  · next hfits =>
      refine ⟨(n, d), 0, ?_, .refl hcoprime hpos hfits.1 hfits.2, iff_of_true rfl hfits, fun _ => rfl⟩
      rw [reduceLoop, dif_pos rfl]
  · next hlarge =>
      obtain ⟨r, left, hloop, hleft, hbest⟩ := (Convergents.start hmax).loop hcoprime hlarge hn hd hint
      exact ⟨r, left, hloop, hbest, iff_of_false hleft hlarge, fun hzero => absurd hzero hleft⟩

end Loop

section Stored

theorem abs_sub_div {n d a b : Rat} (hd : 0 < d) (hb : 0 < b) : |a / b - n / d| = |n * b - d * a| / (d * b) := by
  rw [div_sub_div _ _ hb.ne' hd.ne', abs_div, abs_of_pos (mul_pos hb hd), abs_sub_comm, mul_comm b d, mul_comm b n,
    mul_comm a d]

theorem Best.nearest_rat {n d max : Nat} {r : Nat × Nat} (h : Best n d max r) (hd : 0 < d) {a b : Int} (ha : a ≤ max)
    (hb : 0 < b) (hbmax : b ≤ max) : |(r.1 : Rat) / r.2 - n / d| ≤ |(a : Rat) / b - n / d| := by
  have hd' : (0 : Rat) < d := by exact_mod_cast hd
  have hb' : (0 : Rat) < b := by exact_mod_cast hb
  have hr : (0 : Rat) < r.2 := by exact_mod_cast h.pos
  rw [abs_sub_div hd' hr, abs_sub_div hd' hb', div_le_div_iff₀ (mul_pos hd' hr) (mul_pos hd' hb')]
  have hnearest : |(n : Rat) * r.2 - d * r.1| * b ≤ |(n : Rat) * b - d * a| * r.2 := by
    exact_mod_cast h.nearest a b ha hb hbmax
  calc |(n : Rat) * r.2 - d * r.1| * (d * b) = d * (|(n : Rat) * r.2 - d * r.1| * b) := by ring
    _ ≤ d * (|(n : Rat) * b - d * a| * r.2) := mul_le_mul_of_nonneg_left hnearest hd'.le
    _ = |(n : Rat) * b - d * a| * (d * r.2) := by ring

def dstSign (num den : Int) : Int := if decide (num < 0) ^^ decide (den < 0) then -1 else 1

theorem dstSign_cases (num den : Int) : dstSign num den = 1 ∨ dstSign num den = -1 := by
  rw [dstSign]
  split
  · exact .inr rfl
  · exact .inl rfl

theorem abs_sign_mul {s : Int} (h : s = 1 ∨ s = -1) (x : Rat) : |s * x| = |x| := by
  rcases h with rfl | rfl
  · rw [Int.cast_one, one_mul]
  · rw [Int.cast_neg, Int.cast_one, neg_one_mul, abs_neg]

theorem div_eq_sign {num den : Int} (hden : den ≠ 0) :
    (num : Rat) / den = dstSign num den * ((num.natAbs : Rat) / den.natAbs) := by
  rw [Nat.cast_natAbs, Nat.cast_natAbs, Int.cast_abs, Int.cast_abs, dstSign]
  rcases lt_or_ge num 0 with hn | hn <;> rcases lt_or_gt_of_ne hden with hd | hd
  · have hn' : (num : Rat) < 0 := by exact_mod_cast hn
    have hd' : (den : Rat) < 0 := by exact_mod_cast hd
    simp [hn, hd, abs_of_neg hn', abs_of_neg hd']
  · have hn' : (num : Rat) < 0 := by exact_mod_cast hn
    have hd' : (0 : Rat) < den := by exact_mod_cast hd
    simp [hn, hd.le, abs_of_neg hn', abs_of_pos hd', neg_div]
  · have hn' : (0 : Rat) ≤ num := by exact_mod_cast hn
    have hd' : (den : Rat) < 0 := by exact_mod_cast hd
    simp [hn, hd, abs_of_nonneg hn', abs_of_neg hd', div_neg]
  · have hn' : (0 : Rat) ≤ num := by exact_mod_cast hn
    have hd' : (0 : Rat) < den := by exact_mod_cast hd
    simp [hn.not_gt, hd.not_gt, abs_of_nonneg hn', abs_of_pos hd']

/-- In lowest terms, its parts are at most `max`. -/
def ReducedFits (num den : Int) (max : Nat) : Prop :=
  num.natAbs / num.gcd den ≤ max ∧ den.natAbs / num.gcd den ≤ max

theorem lowest_terms (num : Int) {den : Int} (hne : den ≠ 0) :
    Nat.Coprime (num.natAbs / num.gcd den) (den.natAbs / num.gcd den) ∧ 0 < den.natAbs / num.gcd den ∧
      (num : Rat) / den = dstSign num den * (((num.natAbs / num.gcd den : Nat) : Rat) / (den.natAbs / num.gcd den : Nat)) := by
  have hgcd : 0 < num.gcd den := Int.gcd_pos_of_ne_zero_right num hne
  obtain ⟨n, hn⟩ : num.gcd den ∣ num.natAbs := Nat.gcd_dvd_left _ _
  obtain ⟨d, hd⟩ : num.gcd den ∣ den.natAbs := Nat.gcd_dvd_right _ _
  refine ⟨Nat.coprime_div_gcd_div_gcd hgcd, Nat.div_pos (Nat.gcd_le_right _ (Int.natAbs_pos.mpr hne)) hgcd, ?_⟩
  have hgcd' : ((num.gcd den : Nat) : Rat) ≠ 0 := by exact_mod_cast hgcd.ne'
  rw [div_eq_sign hne, hn, hd, Nat.mul_div_cancel_left _ hgcd, Nat.mul_div_cancel_left _ hgcd, Nat.cast_mul, Nat.cast_mul,
    mul_div_mul_left _ _ hgcd']

theorem Best.signed {num den : Int} {max : Nat} {r : Nat × Nat} (hne : den ≠ 0)
    (h : Best (num.natAbs / num.gcd den) (den.natAbs / num.gcd den) max r) {a b : Int} (ha : a.natAbs ≤ max)
    (hb : b ≠ 0) (hbmax : b.natAbs ≤ max) :
    |dstSign num den * ((r.1 : Rat) / r.2) - num / den| ≤ |(a : Rat) / b - num / den| := by
  obtain ⟨-, hpos, hlowest⟩ := lowest_terms num hne
  have hsign := dstSign_cases num den
  -- the other fraction without the sign of the number
  obtain ⟨c, hc, hsame⟩ : ∃ c : Int, c ≤ max ∧ (a : Rat) / b = dstSign num den * ((c : Rat) / b.natAbs) := by
    have hsquare : (dstSign num den : Rat) * dstSign num den = 1 := by
      rcases hsign with hs | hs <;> rw [hs] <;> norm_num
    refine ⟨dstSign num den * dstSign a b * a.natAbs, ?_, ?_⟩
    · rcases hsign with hs | hs <;> rcases dstSign_cases a b with hs' | hs' <;> rw [hs, hs'] <;> omega
    · rw [div_eq_sign hb, Int.cast_mul, Int.cast_mul, Int.cast_natCast, mul_assoc, mul_div_assoc, ← mul_assoc, hsquare,
        one_mul, mul_div_assoc]
  have hnearest := h.nearest_rat hpos hc (b := b.natAbs) (by omega) (by omega)
  rw [hlowest, hsame, ← mul_sub, ← mul_sub, abs_sign_mul hsign, abs_sign_mul hsign]
  exact hnearest

/-- The best approximation by small parts is stored, and the number itself where it has small parts. -/
theorem av_reduce_nearest (num den : Int) (max : Nat) (hnum : num.natAbs < 2 ^ 63) (hden : den.natAbs < 2 ^ 63)
    (hne : den ≠ 0) (hmax : 1 ≤ max) (hint : max < 2 ^ 31) :
    ∃ dstNum dstDen ret, avReduce num den max = some (dstNum, dstDen, ret) ∧ dstNum.gcd dstDen = 1 ∧
      dstNum.natAbs ≤ max ∧ 0 < dstDen ∧ dstDen ≤ max ∧ (ret = 1 ∨ ret = 0) ∧
      (ret = 1 ↔ ReducedFits num den max) ∧ (ret = 1 → (dstNum : Rat) / dstDen = num / den) ∧
      ∀ a b : Int, a.natAbs ≤ max → b ≠ 0 → b.natAbs ≤ max →
        |(dstNum : Rat) / dstDen - num / den| ≤ |(a : Rat) / b - num / den| := by
  obtain ⟨hcoprime, hpos, hlowest⟩ := lowest_terms num hne
  have hn := (Nat.div_le_self num.natAbs (num.gcd den)).trans_lt hnum
  have hd := (Nat.div_le_self den.natAbs (num.gcd den)).trans_lt hden
  obtain ⟨r, left, hloop, hbest, hleft, hexact⟩ := reduced hcoprime hpos hn hd hmax hint
  have hsign := dstSign_cases num den
  have hstored : (((dstSign num den * r.1 : Int) : Rat) / (r.2 : Int)) = dstSign num den * ((r.1 : Rat) / r.2) := by
    rw [Int.cast_mul, Int.cast_natCast, Int.cast_natCast, mul_div_assoc]
  have hsize : (dstSign num den * (r.1 : Int)).natAbs = r.1 := by
    rcases hsign with hs | hs <;> rw [hs] <;> omega
  refine ⟨dstSign num den * r.1, r.2, if left = 0 then 1 else 0, ?_, ?_, ?_, ?_, ?_, ?_, ?_, ?_, ?_⟩
  · have hgcd : avGcd num.natAbs den.natAbs = num.gcd den := avGcd_eq _ _
    have hgcd' : num.gcd den ≠ 0 := (Int.gcd_pos_of_ne_zero_right num hne).ne'
    rw [avReduce, if_neg (by omega)]
    simp only [hgcd, if_pos hgcd', hloop, Option.map_some, dstSign]
    split
    · rw [neg_one_mul]
    · rw [one_mul]
  · rw [Int.gcd, hsize]
    exact hbest.coprime
  · exact hsize.le.trans hbest.num_le
  · exact Int.natCast_pos.mpr hbest.pos
  · exact Int.ofNat_le.mpr hbest.den_le
  · split
    · exact .inl rfl
    · exact .inr rfl
  · rw [ReducedFits, ← hleft]
    split
    · next hzero => exact iff_of_true rfl hzero
    · next hzero => exact iff_of_false (by decide) hzero
  · intro hret
    rw [hstored, hlowest, hexact (by by_contra hzero; rw [if_neg hzero] at hret; cases hret)]
  · intro a b ha hb hbmax
    rw [hstored]
    exact hbest.signed hne ha hb hbmax

theorem av_reduce_nearest_third :
    ∃ dstNum dstDen ret, avReduce (-10) 30000001 1000 = some (dstNum, dstDen, ret) ∧ dstNum.gcd dstDen = 1 ∧
      dstNum.natAbs ≤ 1000 ∧ 0 < dstDen ∧ dstDen ≤ (1000 : Nat) ∧ (ret = 1 ∨ ret = 0) ∧
      (ret = 1 ↔ ReducedFits (-10) 30000001 1000) ∧ (ret = 1 → (dstNum : Rat) / dstDen = (-10 : Int) / (30000001 : Int)) ∧
      ∀ a b : Int, a.natAbs ≤ 1000 → b ≠ 0 → b.natAbs ≤ 1000 →
        |(dstNum : Rat) / dstDen - (-10 : Int) / (30000001 : Int)| ≤ |(a : Rat) / b - (-10 : Int) / (30000001 : Int)| :=
  av_reduce_nearest (-10) 30000001 1000 (by decide) (by decide) (by decide) (by decide) (by decide)

end Stored

end P2PFFmpeg.Util
