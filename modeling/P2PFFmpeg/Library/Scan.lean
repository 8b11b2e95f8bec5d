import Mathlib.Data.Nat.Init
import Mathlib.Order.Basic

namespace P2PFFmpeg.Library.Scan

/-- The first index from `i` on and below `n` at which a test holds; `n` when
there is none. -/
def first (p : ℕ → Bool) (i n : ℕ) : ℕ :=
  if i < n then if p i then i else first p (i + 1) n else n
termination_by n - i

variable {p q : ℕ → Bool} {i k n : ℕ}

theorem first_of_le (h : n ≤ i) : first p i n = n := by
  rw [first, if_neg (Nat.not_lt.mpr h)]

theorem first_here (h : i < n) (hp : p i = true) : first p i n = i := by
  rw [first, if_pos h, if_pos hp]

theorem first_next (h : i < n) (hp : p i = false) : first p i n = first p (i + 1) n := by
  rw [first, if_pos h, hp, if_neg (by decide)]

theorem first_skip (hik : i ≤ k) (hkn : k ≤ n) (hp : ∀ j, i ≤ j → j < k → p j = false) :
    first p i n = first p k n := by
  induction hik using Nat.decreasingInduction with
  | self => rfl
  | of_succ j hj ih =>
      rw [first_next (by omega) (hp j (Nat.le_refl j) hj)]
      exact ih fun m hjm hmk => hp m (by omega) hmk

/-- An index is the first when the test fails before it and, below the bound,
holds at it. -/
theorem first_eq (hik : i ≤ k) (hkn : k ≤ n) (hp : ∀ j, i ≤ j → j < k → p j = false)
    (hk : k < n → p k = true) : first p i n = k := by
  rw [first_skip hik hkn hp]
  rcases Nat.lt_or_ge k n with hlt | hge
  · exact first_here hlt (hk hlt)
  · rw [first_of_le hge]
    omega

theorem le_first (h : i ≤ n) : i ≤ first p i n := by
  induction h using Nat.decreasingInduction with
  | self => exact Nat.le_of_eq (first_of_le (Nat.le_refl n)).symm
  | of_succ j hj ih =>
      cases hp : p j with
      | true => exact Nat.le_of_eq (first_here hj hp).symm
      | false =>
          rw [first_next hj hp]
          omega

theorem first_le (h : i ≤ n) : first p i n ≤ n := by
  induction h using Nat.decreasingInduction with
  | self => exact Nat.le_of_eq (first_of_le (Nat.le_refl n))
  | of_succ j hj ih =>
      cases hp : p j with
      | true =>
          rw [first_here hj hp]
          omega
      | false =>
          rw [first_next hj hp]
          exact ih

theorem fails_before_first {j : ℕ} (hij : i ≤ j) (hj : j < first p i n) : p j = false := by
  fun_induction first p i n with
  | case1 i hlt hp => omega
  | case2 i hlt hp ih =>
      rcases Nat.eq_or_lt_of_le hij with rfl | hlater
      · simpa using hp
      · exact ih hlater hj
  | case3 i hge => omega

theorem holds_at_first (h : first p i n < n) : p (first p i n) = true := by
  fun_induction first p i n with
  | case1 i hlt hp => exact hp
  | case2 i hlt hp ih => exact ih h
  | case3 i hge => exact absurd h (Nat.lt_irrefl n)

theorem first_split (hik : i ≤ k) (hkn : k ≤ n) :
    first p i n = if first p i k < k then first p i k else first p k n := by
  induction hik using Nat.decreasingInduction with
  | self => rw [first_of_le (Nat.le_refl k), if_neg (Nat.lt_irrefl k)]
  | of_succ j hj ih =>
      cases hp : p j with
      | true => rw [first_here hj hp, first_here (by omega) hp, if_pos hj]
      | false => rw [first_next hj hp, first_next (by omega) hp, ih]

end P2PFFmpeg.Library.Scan
