import Mathlib.Tactic.Ring

namespace P2PFFmpeg.Library.BitField

/-- The field of `n` bits that begins at `i`. -/
def window (bit : Nat → Bool) (i : Nat) : Nat → Nat
  | 0 => 0
  | n + 1 => window bit i n * 2 + (bit (i + n)).toNat

variable {bit : Nat → Bool} {i m n e x : Nat}

theorem window_lt (bit : Nat → Bool) (i n : Nat) : window bit i n < 2 ^ n := by
  induction n with
  | zero => exact Nat.one_pos
  | succ n ih =>
      have hbit := Bool.toNat_lt (bit (i + n))
      rw [window, Nat.pow_succ]
      omega

theorem window_add (bit : Nat → Bool) (i m n : Nat) :
    window bit i (m + n) = window bit i m * 2 ^ n + window bit (i + m) n := by
  induction n with
  | zero => rw [Nat.add_zero, Nat.pow_zero, Nat.mul_one, window, Nat.add_zero]
  | succ n ih =>
      rw [← Nat.add_assoc, window, ih, window, Nat.pow_succ, Nat.add_assoc i m n]
      ring

theorem window_div (bit : Nat → Bool) (i m n : Nat) : window bit i (m + n) / 2 ^ n = window bit i m := by
  rw [window_add, Nat.mul_comm, Nat.mul_add_div (Nat.two_pow_pos n),
    Nat.div_eq_of_lt (window_lt bit _ n), Nat.add_zero]

theorem window_mod (bit : Nat → Bool) (i m n : Nat) :
    window bit i (m + n) % 2 ^ n = window bit (i + m) n := by
  rw [window_add, Nat.mul_comm, Nat.mul_add_mod, Nat.mod_eq_of_lt (window_lt bit _ n)]

theorem window_congr {bit' : Nat → Bool} (h : ∀ j < n, bit (i + j) = bit' (i + j)) :
    window bit i n = window bit' i n := by
  induction n with
  | zero => rfl
  | succ n ih => rw [window, window, ih fun j hj => h j (Nat.lt_succ_of_lt hj), h n (Nat.lt_succ_self n)]

theorem window_of_append {v w : Nat} (hw : w < 2 ^ n) (h : window bit i (m + n) = v * 2 ^ n + w) :
    window bit i m = v ∧ window bit (i + m) n = w := by
  rw [← window_div bit i m n, ← window_mod bit i m n, h, Nat.mul_comm, Nat.mul_add_div (Nat.two_pow_pos n),
    Nat.div_eq_of_lt hw, Nat.add_zero, Nat.mul_add_mod, Nat.mod_eq_of_lt hw]
  exact ⟨rfl, rfl⟩

/-- A code of `e` zeros before the `e + 1` bits of a number that begins with a one. -/
structure Coded (bit : Nat → Bool) (i e x : Nat) : Prop where
  code : window bit i (2 * e + 1) = x
  low : 2 ^ e ≤ x
  high : x < 2 ^ (e + 1)

theorem Coded.number (h : Coded bit i e x) : window bit (i + e) (e + 1) = x := by
  have hcode := h.code
  rw [show 2 * e + 1 = e + (e + 1) by omega] at hcode
  exact (window_of_append h.high (hcode.trans (by rw [Nat.zero_mul, Nat.zero_add]))).2

theorem Coded.marker (h : Coded bit i e x) : window bit i (e + 1) = 1 := by
  have hcode := h.code
  rw [show 2 * e + 1 = e + 1 + e by omega] at hcode
  rw [← window_div bit i (e + 1) e, hcode]
  refine Nat.div_eq_of_lt_le ?_ ?_
  · rw [Nat.one_mul]
    exact h.low
  · rw [show (1 + 1) * 2 ^ e = 2 ^ (e + 1) by rw [Nat.pow_succ]; ring]
    exact h.high

theorem Coded.log2 (h : Coded bit i e x) (hm : e < m) : (window bit i m).log2 = m - 1 - e := by
  have hsplit := window_add bit i (e + 1) (m - 1 - e)
  rw [h.marker, Nat.one_mul, show e + 1 + (m - 1 - e) = m by omega] at hsplit
  have hlow := window_lt bit (i + (e + 1)) (m - 1 - e)
  rw [hsplit]
  refine (Nat.log2_eq_iff (by have := Nat.two_pow_pos (m - 1 - e); omega)).mpr ⟨Nat.le_add_right _ _, ?_⟩
  rw [Nat.pow_succ]
  omega

end P2PFFmpeg.Library.BitField
