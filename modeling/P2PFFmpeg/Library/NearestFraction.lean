import Mathlib.Algebra.Order.Ring.Abs
import Mathlib.Algebra.Order.Ring.Int
import Mathlib.Tactic.Linarith
import Mathlib.Tactic.LinearCombination
import Mathlib.Tactic.Ring

namespace P2PFFmpeg.Library.NearestFraction

/-- The fractions `p / q` and `r / s` on two sides of `n / d`, by the determinant `ε`; `e`
and `f` are how far off they are, times `d` and their denominators. -/
structure Neighbours (n d p q r s e f ε : ℤ) : Prop where
  unit : ε * ε = 1
  det : p * s - r * q = ε
  first : n * q - d * p = -ε * e
  second : n * s - d * r = ε * f
  p_nonneg : 0 ≤ p
  q_nonneg : 0 ≤ q
  r_nonneg : 0 ≤ r
  s_nonneg : 0 ≤ s
  e_nonneg : 0 ≤ e
  f_nonneg : 0 ≤ f

namespace Neighbours

variable {n d p q r s e f ε a b : ℤ}

theorem symm (h : Neighbours n d p q r s e f ε) : Neighbours n d r s p q f e (-ε) where
  unit := by rw [neg_mul_neg, h.unit]
  det := by linear_combination -h.det
  first := by linear_combination h.second
  second := by linear_combination h.first
  p_nonneg := h.r_nonneg
  q_nonneg := h.s_nonneg
  r_nonneg := h.p_nonneg
  s_nonneg := h.q_nonneg
  e_nonneg := h.f_nonneg
  f_nonneg := h.e_nonneg

theorem combination (h : Neighbours n d p q r s e f ε) (a b : ℤ) :
    ∃ u v, a = p * u + r * v ∧ b = q * u + s * v ∧ n * b - d * a = ε * (f * v - e * u) := by
  obtain ⟨u, hu⟩ : ∃ u, u = ε * (a * s - r * b) := ⟨_, rfl⟩
  obtain ⟨v, hv⟩ : ∃ v, v = ε * (p * b - a * q) := ⟨_, rfl⟩
  have ha : a = p * u + r * v := by
    rw [hu, hv]
    linear_combination -a * h.unit - a * ε * h.det
  have hb : b = q * u + s * v := by
    rw [hu, hv]
    linear_combination -b * h.unit - b * ε * h.det
  refine ⟨u, v, ha, hb, ?_⟩
  rw [ha, hb]
  linear_combination u * h.first + v * h.second

theorem not_between (h : Neighbours n d p q r s e f ε) {u v : ℤ} (ha : a = p * u + r * v) (hb : b = q * u + s * v)
    (hsmall : a < p + r ∨ b < q + s) : u ≤ 0 ∨ v ≤ 0 := by
  by_contra hboth
  rw [not_or, not_le, not_le] at hboth
  have hp : p ≤ p * u := le_mul_of_one_le_right h.p_nonneg hboth.1
  have hq : q ≤ q * u := le_mul_of_one_le_right h.q_nonneg hboth.1
  have hr : r ≤ r * v := le_mul_of_one_le_right h.r_nonneg hboth.2
  have hs : s ≤ s * v := le_mul_of_one_le_right h.s_nonneg hboth.2
  omega

theorem abs_unit (h : ε * ε = 1) (x : ℤ) : |ε * x| = |x| := by
  rcases Int.mul_eq_one_iff_eq_one_or_neg_one.mp h with ⟨rfl, -⟩ | ⟨rfl, -⟩
  · rw [one_mul]
  · rw [neg_one_mul, abs_neg]

theorem nearest (h : Neighbours n d p q r s e f ε) (hcloser : e * s ≤ f * q) (hb : 0 < b)
    (hsmall : a < p + r ∨ b < q + s) : e * b ≤ |n * b - d * a| * q := by
  obtain ⟨u, v, ha, hbuv, hoff⟩ := h.combination a b
  rw [hoff, abs_unit h.unit]
  rcases h.not_between ha hbuv hsmall with hu | hv
  · -- beyond the second
    have hsv : b ≤ s * v := by
      have hqu := mul_nonpos_of_nonneg_of_nonpos h.q_nonneg hu
      omega
    have hv : 0 < v := by
      by_contra hle
      have hneg := mul_nonpos_of_nonneg_of_nonpos h.s_nonneg (not_lt.mp hle)
      omega
    have heu := mul_nonpos_of_nonneg_of_nonpos h.e_nonneg hu
    calc e * b ≤ e * (s * v) := mul_le_mul_of_nonneg_left hsv h.e_nonneg
      _ = e * s * v := by ring
      _ ≤ f * q * v := mul_le_mul_of_nonneg_right hcloser hv.le
      _ = f * v * q := by ring
      _ ≤ |f * v - e * u| * q :=
          mul_le_mul_of_nonneg_right (le_trans (by omega) (le_abs_self _)) h.q_nonneg
  · -- beyond the first
    have hqu : b ≤ q * u := by
      have hsv := mul_nonpos_of_nonneg_of_nonpos h.s_nonneg hv
      omega
    have hfv := mul_nonpos_of_nonneg_of_nonpos h.f_nonneg hv
    calc e * b ≤ e * (q * u) := mul_le_mul_of_nonneg_left hqu h.e_nonneg
      _ = e * u * q := by ring
      _ ≤ |f * v - e * u| * q :=
          mul_le_mul_of_nonneg_right (le_trans (by omega) (neg_le_abs _)) h.q_nonneg

end Neighbours

end P2PFFmpeg.Library.NearestFraction
