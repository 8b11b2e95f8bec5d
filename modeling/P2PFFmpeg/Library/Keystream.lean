import Mathlib.Data.List.Basic

namespace P2PFFmpeg.Library.Keystream

variable {α κ : Type} (combine : α → κ → α)

def mask (stream : Nat → κ) (text : List α) : List α :=
  text.mapIdx fun i a => combine a (stream i)

@[simp] theorem length_mask (stream : Nat → κ) (text : List α) :
    (mask combine stream text).length = text.length := by
  simp [mask]

/-- A second stream gives the text back exactly if it is the first one as far as
the text goes. -/
theorem mask_mask_iff (hcombine : ∀ a k k', combine (combine a k) k' = a ↔ k = k')
    (stream stream' : Nat → κ) (text : List α) : mask combine stream' (mask combine stream text) = text ↔
      ∀ i < text.length, stream i = stream' i := by
  constructor
  · intro h i hi
    have hget := List.getElem_of_eq h (i := i) (by simpa using hi)
    simp only [mask, List.getElem_mapIdx] at hget
    exact (hcombine _ _ _).mp hget
  · intro h
    apply List.ext_getElem
    · simp
    · intro i hi _
      have hi : i < text.length := by simpa using hi
      simp only [mask, List.getElem_mapIdx]
      exact (hcombine _ _ _).mpr (h i hi)

theorem mask_mask (hcombine : ∀ a k k', combine (combine a k) k' = a ↔ k = k')
    (stream : Nat → κ) (text : List α) : mask combine stream (mask combine stream text) = text :=
  (mask_mask_iff combine hcombine stream stream text).mpr fun _ _ => rfl

end P2PFFmpeg.Library.Keystream
