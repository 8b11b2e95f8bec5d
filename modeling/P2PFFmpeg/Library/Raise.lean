import Mathlib.Order.Lattice
import Mathlib.Order.BoundedOrder.Lattice

namespace P2PFFmpeg.Library

variable {α : Type} [LinearOrder α]

/-- The state that a setter leaves behind which never lowers it. -/
def raised (old : α) : Option α → α
  | some new => max old new
  | none => old

theorem le_raised (old : α) (new : Option α) : old ≤ raised old new := by
  cases new with
  | none => exact le_refl _
  | some new => exact le_max_left _ _

theorem raised_eq (old : α) (new : Option α) : raised old new = old ∨ new = some (raised old new) := by
  cases new with
  | none => exact Or.inl rfl
  | some new =>
      rcases le_total old new with h | h
      · exact Or.inr (by rw [raised, max_eq_right h])
      · exact Or.inl (max_eq_left h)

theorem raised_eq_top [OrderTop α] (old : α) (new : Option α) :
    raised old new = ⊤ ↔ old = ⊤ ∨ new = some ⊤ := by
  cases new with
  | none => simp [raised]
  | some new => simp [raised]

end P2PFFmpeg.Library
