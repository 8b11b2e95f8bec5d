import Mathlib.Data.List.Basic
import Mathlib.Logic.Function.Basic

namespace P2PFFmpeg.Library.Ring

variable {α : Type}

theorem add_mod_of_lt {n r i : Nat} (hr : r < n) (hi : i ≤ n) :
    (r + i) % n = if r + i < n then r + i else r + i - n := by
  split
  · exact Nat.mod_eq_of_lt ‹_›
  · rw [Nat.mod_eq_sub_mod (by omega), Nat.mod_eq_of_lt (by omega)]

theorem add_mod_ne {n r i j : Nat} (hr : r < n) (hij : i < j) (hj : j < n) : (r + i) % n ≠ (r + j) % n := by
  rw [add_mod_of_lt hr (by omega), add_mod_of_lt hr (by omega)]
  split <;> split <;> omega

/-- The `k` elements from place `r` on, in an array of `n` places. -/
def window (buf : Nat → α) (n r k : Nat) : List α :=
  (List.range k).map fun i => buf ((r + i) % n)

@[simp] theorem window_zero (buf : Nat → α) (n r : Nat) : window buf n r 0 = [] := rfl

@[simp] theorem length_window (buf : Nat → α) (n r k : Nat) : (window buf n r k).length = k := by
  simp [window]

theorem window_congr {buf buf' : Nat → α} {n n' r r' k : Nat}
    (h : ∀ i < k, buf ((r + i) % n) = buf' ((r' + i) % n')) : window buf n r k = window buf' n' r' k := by
  apply List.map_congr_left
  intro i hi
  exact h i (List.mem_range.mp hi)

theorem window_snoc (buf : Nat → α) (n r k : Nat) :
    window buf n r (k + 1) = window buf n r k ++ [buf ((r + k) % n)] := by
  simp [window, List.range_succ]

theorem window_cons (buf : Nat → α) {n r : Nat} (hr : r < n) (k : Nat) :
    window buf n r (k + 1) = buf r :: window buf n ((r + 1) % n) k := by
  rw [window, List.range_succ_eq_map, List.map_cons, List.map_map, Nat.add_zero,
    Nat.mod_eq_of_lt hr]
  congr 1
  apply List.map_congr_left
  intro i _
  simp only [Function.comp, Nat.mod_add_mod]
  congr 2
  omega

theorem window_push (buf : Nat → α) {n r k : Nat} (hr : r < n) (hk : k < n) (a : α) :
    window (Function.update buf ((r + k) % n) a) n r (k + 1) = window buf n r k ++ [a] := by
  rw [window_snoc, Function.update_self]
  congr 1
  apply window_congr
  intro i hi
  exact Function.update_of_ne (add_mod_ne hr hi hk) a buf

theorem window_drop (buf : Nat → α) {n r : Nat} (hr : r < n) {j k : Nat} (hj : j ≤ k) :
    window buf n ((r + j) % n) (k - j) = (window buf n r k).drop j := by
  induction j generalizing r k with
  | zero => simp [Nat.mod_eq_of_lt hr]
  | succ j ih =>
      obtain ⟨m, rfl⟩ : ∃ m, k = m + 1 := ⟨k - 1, by omega⟩
      have hnext : (r + 1) % n < n := Nat.mod_lt _ (by omega)
      rw [window_cons buf hr, List.drop_succ_cons, ← ih hnext (by omega), Nat.mod_add_mod,
        Nat.add_sub_add_right]
      congr 2
      omega

theorem window_take (buf : Nat → α) (n r : Nat) {j k : Nat} (hj : j ≤ k) :
    window buf n r j = (window buf n r k).take j := by
  rw [window, window, ← List.map_take, List.take_range, Nat.min_eq_left hj]

end P2PFFmpeg.Library.Ring
