import Mathlib.Data.List.Basic
import Mathlib.Order.Lattice

namespace P2PFFmpeg.Library.Bisection

variable {κ : Type} [LinearOrder κ] {ks : List κ} {x : κ} {a b : Int}

/-- The keys up to `a` are below `x` and those from `b` on are above it; the two
indices meet where `x` is. -/
structure Bracket (ks : List κ) (x : κ) (a b : Int) : Prop where
  left : -1 ≤ a
  order : a ≤ b
  right : b ≤ ks.length
  below : ∀ (i : Nat) k, ks[i]? = some k → i ≤ a → i < b → k < x
  above : ∀ (i : Nat) k, ks[i]? = some k → b ≤ i → a < i → x < k
  found : a = b → ∃ i : Nat, a = i ∧ ks[i]? = some x

theorem getElem?_length {α : Type} {xs : List α} {i : Nat} {y : α} (h : xs[i]? = some y) :
    i < xs.length := (List.getElem?_eq_some_iff.mp h).1

theorem Bracket.start (ks : List κ) (x : κ) : Bracket ks x (-1) ks.length where
  left := Int.le_refl _
  order := by omega
  right := Int.le_refl _
  below i k _ hi _ := by omega
  above i k hk hi _ := by
    have hlen := getElem?_length hk
    omega
  found h := by omega

theorem pairwise_lt (hs : ks.Pairwise (· < ·)) {i j : Nat} {k l : κ} (hk : ks[i]? = some k)
    (hl : ks[j]? = some l) (hij : i < j) : k < l := by
  obtain ⟨hi, rfl⟩ := List.getElem?_eq_some_iff.mp hk
  obtain ⟨hj, rfl⟩ := List.getElem?_eq_some_iff.mp hl
  exact List.pairwise_iff_getElem.mp hs i j hi hj hij

theorem Bracket.start_behind (hs : ks.Pairwise (· < ·)) {last : κ}
    (hlast : ks[ks.length - 1]? = some last) (hlt : last < x) :
    Bracket ks x (ks.length - 1) ks.length where
  left := by omega
  order := by omega
  right := Int.le_refl _
  below i k hk _ _ := by
    have hlen := getElem?_length hk
    obtain rfl | hbefore : i = ks.length - 1 ∨ i < ks.length - 1 := by omega
    · obtain rfl : last = k := by
        rw [hlast] at hk
        exact Option.some.inj hk
      exact hlt
    · exact lt_trans (pairwise_lt hs hk hlast hbefore) hlt
  above i k hk hi _ := by
    have hlen := getElem?_length hk
    omega
  found h := by omega

theorem Bracket.probe (h : Bracket ks x a b) (hs : ks.Pairwise (· < ·)) {m : Nat} {k : κ}
    (hk : ks[m]? = some k) (ham : a < m) (hmb : (m : Int) < b) :
    Bracket ks x (if k ≤ x then m else a) (if x ≤ k then m else b) := by
  have hleft := h.left
  have hright := h.right
  have hafter : ∀ (i : Nat) l, ks[i]? = some l → m < i → k < l := fun i l hl => pairwise_lt hs hk hl
  have hbefore : ∀ (i : Nat) l, ks[i]? = some l → i < m → l < k := fun i l hl => pairwise_lt hs hl hk
  obtain hlt | rfl | hgt := lt_trichotomy k x
  · rw [if_pos hlt.le, if_neg (not_le.mpr hlt)]
    refine ⟨by omega, by omega, hright, ?_, ?_, by omega⟩
    · intro i l hl hi _
      obtain rfl | hlow : i = m ∨ i < m := by omega
      · obtain rfl : k = l := Option.some.inj (hk.symm.trans hl)
        exact hlt
      · exact lt_trans (hbefore i l hl hlow) hlt
    · intro i l hl hi _
      exact h.above i l hl hi (by omega)
  · rw [if_pos le_rfl, if_pos le_rfl]
    refine ⟨by omega, Int.le_refl _, by omega, ?_, ?_, fun _ => ⟨m, rfl, hk⟩⟩
    · intro i l hl _ hi
      exact hbefore i l hl (by omega)
    · intro i l hl _ hi
      exact hafter i l hl (by omega)
  · rw [if_neg (not_le.mpr hgt), if_pos hgt.le]
    refine ⟨hleft, by omega, by omega, ?_, ?_, by omega⟩
    · intro i l hl hi _
      exact h.below i l hl hi (by omega)
    · intro i l hl hi _
      obtain rfl | hhigh : i = m ∨ m < i := by omega
      · obtain rfl : k = l := Option.some.inj (hk.symm.trans hl)
        exact hgt
      · exact lt_trans hgt (hafter i l hl hhigh)

/-- When no key is between them, `b` is the first key that is not below `x`. -/
theorem Bracket.first (h : Bracket ks x a b) (hclose : b ≤ a + 1) {i : Nat} {k : κ}
    (hk : ks[i]? = some k) : x ≤ k ↔ b ≤ i := by
  have horder := h.order
  by_cases hi : b ≤ i
  · refine ⟨fun _ => hi, fun _ => ?_⟩
    by_cases ha : a < i
    · exact (h.above i k hk hi ha).le
    · obtain ⟨j, hj, hx⟩ := h.found (by omega)
      obtain rfl : j = i := by omega
      exact le_of_eq (Option.some.inj (hx.symm.trans hk))
  · refine ⟨fun hle => ?_, fun hb => absurd hb hi⟩
    exact absurd hle (not_le.mpr (h.below i k hk (by omega) (by omega)))

/-- When no key is between them, `a` is the last key that is not above `x`. -/
theorem Bracket.last (h : Bracket ks x a b) (hclose : b ≤ a + 1) {i : Nat} {k : κ}
    (hk : ks[i]? = some k) : k ≤ x ↔ i ≤ a := by
  have horder := h.order
  by_cases hi : (i : Int) ≤ a
  · refine ⟨fun _ => hi, fun _ => ?_⟩
    by_cases hb : (i : Int) < b
    · exact (h.below i k hk hi hb).le
    · obtain ⟨j, hj, hx⟩ := h.found (by omega)
      obtain rfl : j = i := by omega
      exact le_of_eq (Option.some.inj (hk.symm.trans hx))
  · refine ⟨fun hle => ?_, fun ha => absurd ha hi⟩
    exact absurd hle (not_le.mpr (h.above i k hk (by omega) (by omega)))

end P2PFFmpeg.Library.Bisection
