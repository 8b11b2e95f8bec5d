import Mathlib.Data.Nat.Notation
import Mathlib.Logic.Function.Iterate
import Mathlib.Tactic.Common

namespace P2PFFmpeg.Library.ShiftRegister

variable {w : Nat}

def rightStep (p c : BitVec w) (bit : Bool) : BitVec w :=
  c >>> 1 ^^^ if (c.getLsbD 0 ^^ bit) then p else 0#w

def leftStep (p c : BitVec w) (bit : Bool) : BitVec w :=
  c <<< 1 ^^^ if (c.msb ^^ bit) then p else 0#w

def lowFirst (byte : BitVec 8) : List Bool := (List.range 8).map byte.getLsbD

def highFirst (byte : BitVec 8) : List Bool := (List.range 8).map byte.getMsbD

section Right

variable {p c d y : BitVec w}

theorem rightStep_xor (a b : Bool) :
    rightStep p (c ^^^ d) (a ^^ b) = rightStep p c a ^^^ rightStep p d b := by
  apply BitVec.eq_of_getLsbD_eq
  intro i _
  simp only [rightStep, BitVec.getLsbD_xor, BitVec.getLsbD_ushiftRight]
  cases c.getLsbD 0 <;> cases d.getLsbD 0 <;> cases a <;> cases b <;> simp [Bool.xor_comm, Bool.xor_left_comm]

theorem rightStep_feed (hw : 0 < w) (bit : Bool) :
    rightStep p c bit = rightStep p (c ^^^ if bit then BitVec.twoPow w 0 else 0#w) false := by
  cases bit with
  | false => simp
  | true =>
      have hzero : BitVec.twoPow w 0 >>> 1 = 0#w := by
        apply BitVec.eq_of_getLsbD_eq
        intro i _
        have hne : ¬0 = 1 + i := by omega
        simp [hne]
      have hbit : (BitVec.twoPow w 0).getLsbD 0 = true := by simp [hw]
      rw [if_pos rfl, rightStep, rightStep, BitVec.ushiftRight_xor_distrib, BitVec.getLsbD_xor, hzero, hbit,
        BitVec.xor_zero, Bool.xor_false]

def steps (p : BitVec w) (n : Nat) (c : BitVec w) : BitVec w := (fun c => rightStep p c false)^[n] c

theorem steps_succ (n : Nat) : steps p (n + 1) c = rightStep p (steps p n c) false :=
  Function.iterate_succ_apply' _ n c

theorem steps_xor (n : Nat) : steps p n (c ^^^ d) = steps p n c ^^^ steps p n d := by
  induction n with
  | zero => rfl
  | succ n ih => rw [steps_succ, steps_succ, steps_succ, ih, ← rightStep_xor, Bool.xor_false]

theorem steps_of_low {n : Nat} (h : ∀ i < n, y.getLsbD i = false) : steps p n y = y >>> n := by
  induction n with
  | zero => exact (BitVec.ushiftRight_zero y).symm
  | succ n ih =>
      have hbit : (y >>> n).getLsbD 0 = false := by
        rw [BitVec.getLsbD_ushiftRight]
        exact h n (Nat.lt_succ_self n)
      rw [steps_succ, ih fun i hi => h i (Nat.lt_succ_of_lt hi), rightStep, hbit, Bool.xor_self,
        if_neg Bool.false_ne_true, BitVec.xor_zero, ← BitVec.shiftRight_add]

def lowBits (w : Nat) (byte : BitVec 8) (n : Nat) : BitVec w := (byte.setWidth n).setWidth w

theorem lowBits_succ (byte : BitVec 8) {n : Nat} :
    lowBits w byte (n + 1) = lowBits w byte n ^^^ if byte.getLsbD n then BitVec.twoPow w n else 0#w := by
  apply BitVec.eq_of_getLsbD_eq
  intro i hi
  simp only [lowBits, BitVec.getLsbD_xor, BitVec.getLsbD_setWidth]
  by_cases hin : i = n
  · subst hin
    cases byte.getLsbD i <;> simp [hi]
  · have hlt : i < n + 1 ↔ i < n := by omega
    cases byte.getLsbD n <;> simp [hi, hlt, hin]

theorem steps_twoPow (bit : Bool) {n : Nat} (hn : n < w) :
    steps p n (if bit then BitVec.twoPow w n else 0#w) = if bit then BitVec.twoPow w 0 else 0#w := by
  cases bit with
  | false => simpa using @steps_of_low w p 0#w n fun i _ => BitVec.getLsbD_zero
  | true =>
      rw [if_pos rfl, if_pos rfl, steps_of_low]
      · apply BitVec.eq_of_getLsbD_eq
        intro i _
        rw [BitVec.getLsbD_ushiftRight, BitVec.getLsbD_twoPow, BitVec.getLsbD_twoPow]
        grind
      · intro i hi
        have hne : ¬n = i := by omega
        simp [hne]

theorem fold_bits (byte : BitVec 8) {n : Nat} (hn : n ≤ w) :
    ((List.range n).map byte.getLsbD).foldl (rightStep p) c = steps p n (c ^^^ lowBits w byte n) := by
  induction n with
  | zero =>
      have hnone : lowBits w byte 0 = 0#w := by
        apply BitVec.eq_of_getLsbD_eq
        intro i _
        simp [lowBits]
      rw [hnone, BitVec.xor_zero]
      rfl
  | succ n ih =>
      have hfeed := @steps_twoPow w p (byte.getLsbD n) n (by omega)
      rw [List.range_succ, List.map_append, List.foldl_append, ih (by omega), List.map_singleton, List.foldl_cons,
        List.foldl_nil, rightStep_feed (by omega), ← hfeed, ← steps_xor, BitVec.xor_assoc, ← lowBits_succ, ← steps_succ]

def byteStep (p c : BitVec w) : BitVec w := steps p 8 c

theorem fold_lowFirst (byte : BitVec 8) (hw : 8 ≤ w) :
    (lowFirst byte).foldl (rightStep p) c = byteStep p (c ^^^ byte.setWidth w) := by
  rw [lowFirst, fold_bits byte hw, lowBits, BitVec.setWidth_eq]
  rfl

end Right

section Left

variable {p c : BitVec w}

theorem reverse_xor (c d : BitVec w) : (c ^^^ d).reverse = c.reverse ^^^ d.reverse := by
  apply BitVec.eq_of_getLsbD_eq
  intro i _
  rw [BitVec.getLsbD_xor, BitVec.getLsbD_reverse, BitVec.getLsbD_reverse, BitVec.getLsbD_reverse, BitVec.getMsbD_xor]

theorem reverse_shiftLeft (n : Nat) : (c <<< n).reverse = c.reverse >>> n := by
  apply BitVec.eq_of_getLsbD_eq
  intro i hi
  rw [BitVec.getLsbD_ushiftRight, BitVec.getLsbD_reverse, BitVec.getLsbD_reverse, BitVec.getMsbD_shiftLeft,
    Nat.add_comm]

theorem reverse_leftStep (bit : Bool) : (leftStep p c bit).reverse = rightStep p.reverse c.reverse bit := by
  have hmsb : c.reverse.getLsbD 0 = c.msb := by
    rw [BitVec.getLsbD_reverse, BitVec.msb_eq_getMsbD_zero]
  rw [leftStep, rightStep, hmsb, reverse_xor, reverse_shiftLeft]
  split
  · rfl
  · rw [BitVec.reverse_eq_zero_iff.mpr rfl]

theorem reverse_iterate_left (n : Nat) :
    ((fun c => leftStep p c false)^[n] c).reverse = steps p.reverse n c.reverse := by
  induction n with
  | zero => rfl
  | succ n ih => rw [Function.iterate_succ_apply', reverse_leftStep, ih, steps_succ]

theorem highFirst_eq (byte : BitVec 8) : highFirst byte = lowFirst byte.reverse :=
  List.map_congr_left fun _ _ => BitVec.getLsbD_reverse.symm

theorem reverse_fold_left (bits : List Bool) :
    (bits.foldl (leftStep p) c).reverse = bits.foldl (rightStep p.reverse) c.reverse := by
  induction bits generalizing c with
  | nil => rfl
  | cons bit bits ih => rw [List.foldl_cons, List.foldl_cons, ih, reverse_leftStep]

end Left

structure ByteStep (f : BitVec w → BitVec w) : Prop where
  xor : ∀ c d, f (c ^^^ d) = f c ^^^ f d
  low : ∀ y, (∀ i < 8, y.getLsbD i = false) → f y = y >>> 8

theorem byteStep_isByteStep (p : BitVec w) : ByteStep (byteStep p) :=
  ⟨fun _ _ => steps_xor 8, fun _ => steps_of_low⟩

theorem ByteStep.conj {f r : BitVec w → BitVec w} (hf : ByteStep f) (hxor : ∀ c d, r (c ^^^ d) = r c ^^^ r d)
    (hinv : ∀ c, r (r c) = c) (hshift : ∀ c : BitVec w, r (c >>> 8) = r c >>> 8)
    (hlow : ∀ y, (∀ i < 8, y.getLsbD i = false) → ∀ i < 8, (r y).getLsbD i = false) :
    ByteStep fun c => r (f (r c)) where
  xor c d := by rw [hxor, hf.xor, hxor]
  low y hy := by rw [hf.low (r y) (hlow y hy), hshift, hinv]

def pack (w : Nat) : List (BitVec 8) → BitVec w
  | [] => 0#w
  | b :: bs => b.setWidth w ^^^ pack w bs <<< 8

theorem getLsbD_pack (bs : List (BitVec 8)) {i : Nat} (hi : i < w) :
    (pack w bs).getLsbD i = (bs.getD (i / 8) 0#8).getLsbD (i % 8) := by
  induction bs generalizing i with
  | nil => simp [pack]
  | cons b bs ih =>
      rw [pack, BitVec.getLsbD_xor, BitVec.getLsbD_setWidth, BitVec.getLsbD_shiftLeft, decide_eq_true hi,
        Bool.true_and, Bool.true_and]
      by_cases hlow : i < 8
      · rw [Nat.div_eq_of_lt hlow, Nat.mod_eq_of_lt hlow, decide_eq_true hlow, Bool.not_true, Bool.false_and,
          Bool.xor_false, List.getD_cons_zero]
      · obtain ⟨j, rfl⟩ := Nat.exists_eq_add_of_le (Nat.not_lt.mp hlow)
        rw [BitVec.getLsbD_of_ge b (8 + j) (Nat.le_add_right 8 j), decide_eq_false hlow, Bool.not_false, Bool.true_and,
          Bool.false_xor, Nat.add_sub_cancel_left, ih (by omega), Nat.add_div_left j (by decide), Nat.add_mod_left,
          List.getD_cons_succ]

namespace ByteStep

variable {f : BitVec w → BitVec w} {c d : BitVec w} (hf : ByteStep f)
include hf

theorem zero : f 0#w = 0#w := by
  rw [hf.low 0#w fun i _ => BitVec.getLsbD_zero, BitVec.zero_ushiftRight]

theorem update (b : BitVec 8) : f (c ^^^ b.setWidth w) = f ((c.setWidth 8 ^^^ b).setWidth w) ^^^ c >>> 8 := by
  have hsplit : c ^^^ b.setWidth w = (c.setWidth 8 ^^^ b).setWidth w ^^^ c >>> 8 <<< 8 := by
    apply BitVec.eq_of_getLsbD_eq
    intro i hi
    simp only [BitVec.getLsbD_xor, BitVec.getLsbD_setWidth, BitVec.getLsbD_shiftLeft, BitVec.getLsbD_ushiftRight,
      decide_eq_true hi, Bool.true_and]
    by_cases hlow : i < 8
    · simp [hlow]
    · simp [hlow, BitVec.getLsbD_of_ge b i (Nat.not_lt.mp hlow), Nat.add_sub_cancel' (Nat.not_lt.mp hlow)]
  have hback : c >>> 8 <<< 8 >>> 8 = c >>> 8 := by
    apply BitVec.eq_of_getLsbD_eq
    intro i _
    simp only [BitVec.getLsbD_shiftLeft, BitVec.getLsbD_ushiftRight]
    by_cases hi : 8 + i < w
    · simp [hi]
    · simp [hi, BitVec.getLsbD_of_ge c (8 + i) (Nat.not_lt.mp hi)]
  rw [hsplit, hf.xor, hf.low (c >>> 8 <<< 8), hback]
  intro i hi
  simp [hi]

/-- Bytes that go in one after the other, or packed before the first step. -/
theorem iterate_pack (bs : List (BitVec 8)) (hlength : 8 * bs.length ≤ w) :
    f^[bs.length] (c ^^^ pack w bs) = bs.foldl (fun c b => f (c ^^^ b.setWidth w)) c := by
  induction bs generalizing c with
  | nil =>
      rw [pack, BitVec.xor_zero]
      rfl
  | cons b bs ih =>
      rw [List.length_cons] at hlength
      have hshift : (pack w bs <<< 8) >>> 8 = pack w bs := by
        apply BitVec.eq_of_getLsbD_eq
        intro i hi
        rw [BitVec.getLsbD_ushiftRight, BitVec.getLsbD_shiftLeft, Nat.add_sub_cancel_left]
        by_cases hin : 8 + i < w
        · simp [hin]
        · rw [getLsbD_pack bs hi, List.getD_eq_getElem?_getD, List.getElem?_eq_none (by omega)]
          simp [hin]
      have hlow : f (pack w bs <<< 8) = pack w bs := by
        rw [hf.low, hshift]
        intro i hi
        simp [hi]
      rw [List.length_cons, Function.iterate_succ_apply, pack, ← BitVec.xor_assoc, hf.xor, hlow, ih (by omega),
        List.foldl_cons]

end ByteStep

end P2PFFmpeg.Library.ShiftRegister
