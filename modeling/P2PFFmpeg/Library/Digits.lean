import Mathlib.Data.Nat.Digits.Lemmas
import Mathlib.Tactic.Ring

/-! Numbers as lists of digits, the lowest first; the digits need not end in a nonzero one. -/

namespace P2PFFmpeg.Library.Digits

open Nat (ofDigits)

variable {b : Nat} {ds es : List Nat}

theorem ofDigits_lt (hb : 1 < b) (h : ∀ d ∈ ds, d < b) : ofDigits b ds < b ^ ds.length :=
  Nat.ofDigits_lt_base_pow_length hb h

theorem getD_ofDigits (hb : 1 < b) (h : ∀ d ∈ ds, d < b) (i : Nat) :
    ds.getD i 0 = ofDigits b ds / b ^ i % b := by
  induction ds generalizing i with
  | nil => simp
  | cons d ds ih =>
      have hd : d < b := h d List.mem_cons_self
      cases i with
      | zero => rw [pow_zero, Nat.div_one, Nat.ofDigits_cons, Nat.add_mul_mod_self_left, Nat.mod_eq_of_lt hd]; rfl
      | succ i =>
          have hrest : (d + b * ofDigits b ds) / b = ofDigits b ds := by
            rw [Nat.add_mul_div_left _ _ (by omega), Nat.div_eq_of_lt hd, Nat.zero_add]
          rw [List.getD_cons_succ, ih (fun e he => h e (List.mem_cons_of_mem d he)), Nat.ofDigits_cons, pow_succ',
            ← Nat.div_div_eq_div_mul, hrest]

theorem ofDigits_take (hb : 1 < b) (h : ∀ d ∈ ds, d < b) (n : Nat) :
    ofDigits b (ds.take n) = ofDigits b ds % b ^ n := by
  have hsplit : ofDigits b ds = ofDigits b (ds.take n) + b ^ (ds.take n).length * ofDigits b (ds.drop n) := by
    rw [← Nat.ofDigits_append, List.take_append_drop]
  have hlt := @ofDigits_lt b (ds.take n) hb fun d hd => h d (List.mem_of_mem_take hd)
  by_cases hn : n ≤ ds.length
  · rw [List.length_take, Nat.min_eq_left hn] at hlt hsplit
    rw [hsplit, Nat.add_mul_mod_self_left, Nat.mod_eq_of_lt hlt]
  · have hwhole : ds.take n = ds := List.take_of_length_le (by omega)
    rw [hwhole] at hlt ⊢
    exact (Nat.mod_eq_of_lt (hlt.trans_le (Nat.pow_le_pow_right (by omega) (by omega)))).symm

theorem ofDigits_range (x n : Nat) : ofDigits b ((List.range n).map fun i => x / b ^ i % b) = x % b ^ n := by
  induction n with
  | zero => rw [pow_zero, Nat.mod_one]; rfl
  | succ n ih =>
      rw [List.range_succ, List.map_append, Nat.ofDigits_append, ih, List.length_map, List.length_range,
        List.map_singleton, Nat.ofDigits_singleton, Nat.mod_pow_succ]

end P2PFFmpeg.Library.Digits
