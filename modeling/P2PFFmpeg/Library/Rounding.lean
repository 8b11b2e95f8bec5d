import Mathlib.Algebra.Order.Floor.Ring
import Mathlib.Algebra.Order.Ring.Cast
import Mathlib.Tactic.Linarith
import Mathlib.Tactic.Ring

namespace P2PFFmpeg.Library.Rounding

variable {K : Type} [Field K] [LinearOrder K] [IsStrictOrderedRing K] [FloorRing K]

inductive Mode
  | zero
  | away
  | down
  | up
  | nearest
deriving DecidableEq, Repr

/-- Halves are rounded away from zero. -/
def Mode.round : Mode → K → ℤ
  | .zero, x => if 0 ≤ x then ⌊x⌋ else ⌈x⌉
  | .away, x => if 0 ≤ x then ⌈x⌉ else ⌊x⌋
  | .down, x => ⌊x⌋
  | .up, x => ⌈x⌉
  | .nearest, x => if 0 ≤ x then ⌊x + 1 / 2⌋ else ⌈x - 1 / 2⌉

/-- The mode that does to `-x` what the mode does to `x`. -/
def Mode.mirror : Mode → Mode
  | .down => .up
  | .up => .down
  | m => m

@[simp] theorem Mode.round_zero (m : Mode) : m.round (0 : K) = 0 := by
  have hhalf : ⌊(0 : K) + 1 / 2⌋ = 0 := by
    rw [Int.floor_eq_iff]
    constructor <;> norm_num
  cases m with
  | nearest => simp only [round, le_refl, if_true, hhalf]
  | _ => simp [round]

theorem Mode.round_nonneg (m : Mode) {x : K} (hx : 0 ≤ x) : 0 ≤ m.round x := by
  have hfloor : 0 ≤ ⌊x⌋ := Int.floor_nonneg.mpr hx
  have hceil : 0 ≤ ⌈x⌉ := Int.ceil_nonneg hx
  cases m with
  | zero => rwa [round, if_pos hx]
  | away => rwa [round, if_pos hx]
  | down => exact hfloor
  | up => exact hceil
  | nearest =>
      rw [round, if_pos hx]
      exact Int.floor_nonneg.mpr (by linarith)

theorem Mode.round_neg (m : Mode) {x : K} (hx : 0 ≤ x) : m.round (-x) = -m.mirror.round x := by
  obtain rfl | hpos := hx.eq_or_lt
  · simp
  · have hneg : ¬0 ≤ -x := by linarith
    cases m with
    | zero => simp only [round, mirror, if_neg hneg, if_pos hx, Int.ceil_neg]
    | away => simp only [round, mirror, if_neg hneg, if_pos hx, Int.floor_neg]
    | down => simp only [round, mirror, Int.floor_neg]
    | up => simp only [round, mirror, Int.ceil_neg]
    | nearest =>
        have hshift : -x - 1 / 2 = -(x + 1 / 2) := by ring
        simp only [round, mirror, if_neg hneg, if_pos hx, hshift, Int.ceil_neg]

def Mode.slack (m : Mode) (c : ℤ) : ℤ :=
  match m with
  | .zero | .down => 0
  | .away | .up => c - 1
  | .nearest => c / 2

theorem Mode.slack_bounds (m : Mode) {c : ℤ} (hc : 0 < c) : 0 ≤ m.slack c ∧ m.slack c < c := by
  cases m <;> simp only [slack] <;> omega

theorem floor_div {c : ℤ} (n : ℤ) (hc : 0 < c) : ⌊(n : K) / c⌋ = n / c := by
  have hcast : (0 : K) < c := Int.cast_pos.mpr hc
  apply eq_of_forall_le_iff
  intro z
  rw [Int.le_floor, le_div_iff₀ hcast, Int.le_ediv_iff_mul_le hc, ← Int.cast_mul, Int.cast_le]

theorem ceil_div {c : ℤ} (n : ℤ) (hc : 0 < c) : ⌈(n : K) / c⌉ = (n + (c - 1)) / c := by
  have hcast : (0 : K) < c := Int.cast_pos.mpr hc
  apply eq_of_forall_ge_iff
  intro z
  have hexpand : (z + 1) * c = z * c + c := by ring
  rw [Int.ceil_le, div_le_iff₀ hcast, ← Int.cast_mul, Int.cast_le, ← Int.lt_add_one_iff,
    ← Int.lt_add_one_iff, Int.ediv_lt_iff_lt_mul hc, hexpand]
  omega

theorem half_up_div {c : ℤ} (n : ℤ) (hc : 0 < c) : ⌊(n : K) / c + 1 / 2⌋ = (n + c / 2) / c := by
  have hcast : (0 : K) < c := Int.cast_pos.mpr hc
  apply eq_of_forall_le_iff
  intro z
  have hdouble : (z : K) ≤ (n : K) / c + 1 / 2 ↔ ((2 * (z * c) : ℤ) : K) ≤ (2 * n + c : ℤ) := by
    have hsplit : (n : K) / c + 1 / 2 = (2 * n + c) / (2 * c) := by
      field_simp
    rw [hsplit, le_div_iff₀ (by linarith)]
    push_cast
    constructor <;> intro h <;> linarith
  rw [Int.le_floor, hdouble, Int.cast_le, Int.le_ediv_iff_mul_le hc]
  omega

theorem Mode.round_div (m : Mode) {n c : ℤ} (hn : 0 ≤ n) (hc : 0 < c) :
    m.round ((n : K) / c) = (n + m.slack c) / c := by
  have hpos : (0 : K) ≤ (n : K) / c := div_nonneg (Int.cast_nonneg hn) (Int.cast_nonneg hc.le)
  cases m with
  | zero => simp only [round, slack, if_pos hpos, floor_div n hc, add_zero]
  | away => simp only [round, slack, if_pos hpos, ceil_div n hc]
  | down => simp only [round, slack, floor_div n hc, add_zero]
  | up => simp only [round, slack, ceil_div n hc]
  | nearest => simp only [round, slack, if_pos hpos, half_up_div n hc]

end P2PFFmpeg.Library.Rounding
