import Mathlib.Data.Finset.Card
import Mathlib.Data.Finset.Range

namespace P2PFFmpeg.Library

def missing (n : ℕ) (seen : List ℕ) : Finset ℕ := (Finset.range n).filter fun i => i ∉ seen

def covered (n : ℕ) (seen : List ℕ) : Finset ℕ := (Finset.range n).filter fun i => i ∈ seen

theorem missing_nil (n : ℕ) : missing n [] = Finset.range n := by simp [missing]

theorem missing_eq_empty_iff {n : ℕ} {seen : List ℕ} : missing n seen = ∅ ↔ ∀ i < n, i ∈ seen := by
  simp [missing, Finset.filter_eq_empty_iff]

theorem covered_add_missing (n : ℕ) (seen : List ℕ) : (covered n seen).card + (missing n seen).card = n := by
  have h := Finset.card_filter_add_card_filter_not (s := Finset.range n) (p := fun i => i ∈ seen)
  rwa [Finset.card_range] at h

theorem covered_subset (n : ℕ) (seen : List ℕ) : covered n seen ⊆ seen.toFinset := by
  intro i hi
  exact List.mem_toFinset.mpr (Finset.mem_filter.mp hi).2

theorem card_covered_le (n : ℕ) (seen : List ℕ) : (covered n seen).card ≤ seen.length :=
  (Finset.card_le_card (covered_subset n seen)).trans (List.toFinset_card_le seen)

/-- Every entry of the list counts for a number of its own exactly where no
entry is repeated or out of range. -/
theorem card_covered_eq_iff {n : ℕ} {seen : List ℕ} :
    (covered n seen).card = seen.length ↔ seen.Nodup ∧ ∀ i ∈ seen, i < n := by
  constructor
  · intro h
    have hle := Finset.card_le_card (covered_subset n seen)
    have hcard : seen.toFinset.card = seen.length :=
      Nat.le_antisymm (List.toFinset_card_le seen) (h ▸ hle)
    have hsame : covered n seen = seen.toFinset :=
      Finset.eq_of_subset_of_card_le (covered_subset n seen) (by rw [hcard, h])
    refine ⟨Multiset.toFinset_card_eq_card_iff_nodup.mp hcard, fun i hi => ?_⟩
    rw [← List.mem_toFinset, ← hsame] at hi
    exact Finset.mem_range.mp (Finset.mem_filter.mp hi).1
  · rintro ⟨hnodup, hlt⟩
    have hsame : covered n seen = seen.toFinset := by
      refine Finset.Subset.antisymm (covered_subset n seen) fun i hi => ?_
      have hmem := List.mem_toFinset.mp hi
      exact Finset.mem_filter.mpr ⟨Finset.mem_range.mpr (hlt i hmem), hmem⟩
    rw [hsame, List.toFinset_card_of_nodup hnodup]

end P2PFFmpeg.Library
