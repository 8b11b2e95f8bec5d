import Mathlib.Data.List.Pairwise
import Mathlib.Data.List.Sort
import Mathlib.Tactic.Ring

/-! Serial number arithmetic on 16 bits: numbers are compared by the sign of
their difference, and a list of numbers that all lie ahead of one base, within
half of the circle, is ordered by the distance from that base. -/

namespace P2PFFmpeg.Library.Serial

/-- A 16-bit difference read as a signed number. -/
def signed16 (d : UInt16) : Int := d.toBitVec.toInt

/-- How far `x` is ahead of `base` on the circle. -/
def ahead (base x : UInt16) : Nat := (x - base).toNat

def Precedes (a b : UInt16) : Prop := 0 < signed16 (b - a)

theorem signed16_eq (d : UInt16) :
    signed16 d = if d.toNat < 32768 then (d.toNat : Int) else d.toNat - 65536 := by
  have h := BitVec.toInt_eq_toNat_cond d.toBitVec
  rw [UInt16.toNat_toBitVec] at h
  unfold signed16
  rw [h]
  split_ifs <;> omega

theorem ahead_lt (base x : UInt16) : ahead base x < 65536 := (x - base).toNat_lt

theorem signed16_sub (base x : UInt16) : signed16 (x - base) =
    if ahead base x < 32768 then (ahead base x : Int) else ahead base x - 65536 :=
  signed16_eq _

theorem precedes_iff {a b : UInt16} : Precedes a b ↔ 0 < ahead a b ∧ ahead a b < 32768 := by
  have h := ahead_lt a b
  unfold Precedes
  rw [signed16_sub]
  split_ifs <;> omega

variable {base x y : UInt16}

/-- The distance between two numbers, from their distances from a common base. -/
theorem ahead_sub (h : ahead base x ≤ ahead base y) : ahead x y = ahead base y - ahead base x := by
  have hx := x.toNat_lt
  unfold ahead at h ⊢
  rw [UInt16.toNat_sub] at h ⊢
  rw [UInt16.toNat_sub] at h ⊢
  rw [UInt16.toNat_sub]
  omega

theorem ahead_inj {base x y : UInt16} (h : ahead base x = ahead base y) : x = y := by
  have hx := x.toNat_lt
  have hy := y.toNat_lt
  unfold ahead at h
  rw [UInt16.toNat_sub, UInt16.toNat_sub] at h
  refine UInt16.toNat_inj.mp ?_
  omega

theorem ahead_swap {x y : UInt16} (h : 0 < ahead x y) : ahead y x = 65536 - ahead x y := by
  have hx := x.toNat_lt
  have hy := y.toNat_lt
  unfold ahead at h ⊢
  rw [UInt16.toNat_sub] at h
  rw [UInt16.toNat_sub, UInt16.toNat_sub]
  omega

theorem ahead_add_ofNat (base : UInt16) {k : Nat} (h : k < 65536) : ahead base (base + UInt16.ofNat k) = k := by
  unfold ahead
  rw [UInt16.add_comm, UInt16.add_sub_cancel]
  exact UInt16.toNat_ofNat_of_lt' h

/-- Within half of the circle the sign of the difference compares distances. -/
theorem signed16_neg_iff (hx : ahead base x < 32768) (hy : ahead base y < 32768) :
    signed16 (x - y) < 0 ↔ ahead base x < ahead base y := by
  have hlt := ahead_lt y x
  rw [signed16_sub]
  rcases le_or_gt (ahead base y) (ahead base x) with h | h
  · rw [ahead_sub h]
    split_ifs <;> omega
  · have hback := ahead_sub (le_of_lt h)
    have hsum : ahead y x = 65536 - ahead x y := ahead_swap (by omega)
    rw [hsum]
    split_ifs <;> omega

theorem precedes_iff_ahead (hx : ahead base x < 32768) (hy : ahead base y < 32768) :
    Precedes x y ↔ ahead base x < ahead base y := by
  rw [precedes_iff]
  rcases le_or_gt (ahead base y) (ahead base x) with h | h
  · have hback := ahead_sub h
    rcases Nat.eq_zero_or_pos (ahead y x) with hzero | hpos
    · have hsame : y = x := @ahead_inj base y x (by omega)
      rw [hsame] at hzero ⊢
      omega
    · have hsum := ahead_swap hpos
      omega
  · have hahead := ahead_sub (le_of_lt h)
    omega

variable {α : Type} {number : α → UInt16} {base : UInt16} {xs : List α}

structure Spread (number : α → UInt16) (base : UInt16) (xs : List α) : Prop where
  sorted : xs.Pairwise fun a b => ahead base (number a) < ahead base (number b)
  near : ∀ a ∈ xs, Precedes base (number a)

theorem Spread.nil : Spread number base [] := ⟨.nil, by simp⟩

theorem Spread.rebase {q : UInt16} (h : Spread number base xs)
    (hq : ∀ a ∈ xs, ahead base q < ahead base (number a)) : Spread number q xs := by
  have hdistance : ∀ a ∈ xs, ahead q (number a) = ahead base (number a) - ahead base q :=
    fun a ha => ahead_sub (le_of_lt (hq a ha))
  refine ⟨?_, ?_⟩
  · refine h.sorted.imp_of_mem fun {a b} ha hb hab => ?_
    have hqa := hq a ha
    rw [hdistance a ha, hdistance b hb]
    omega
  · intro a ha
    have hnear := precedes_iff.mp (h.near a ha)
    have hqa := hq a ha
    rw [precedes_iff, hdistance a ha]
    omega

theorem Spread.tail {a : α} (h : Spread number base (a :: xs)) :
    Precedes base (number a) ∧ Spread number (number a) xs := by
  obtain ⟨hhead, htail⟩ := List.pairwise_cons.mp h.sorted
  refine ⟨h.near a (by simp), ?_⟩
  have hrest : Spread number base xs := ⟨htail, fun b hb => h.near b (by simp [hb])⟩
  exact hrest.rebase hhead

/-- A number that is not listed yet is inserted in front of the first one it
precedes. -/
theorem Spread.insert {x : α} (h : Spread number base xs) (hx : Precedes base (number x))
    (hnew : ∀ a ∈ xs, number a ≠ number x) : Spread number base
      (xs.orderedInsert (fun a b => signed16 (number a - number b) < 0) x) := by
  refine ⟨?_, ?_⟩
  · induction xs with
    | nil => simp
    | cons a xs ih =>
        obtain ⟨hhead, htail⟩ := List.pairwise_cons.mp h.sorted
        have hxnear := (precedes_iff.mp hx).2
        have hanear := (precedes_iff.mp (h.near a (by simp))).2
        have hcompare := signed16_neg_iff hxnear hanear
        rw [List.orderedInsert_cons]
        split_ifs with hlt
        · refine List.pairwise_cons.mpr ⟨?_, h.sorted⟩
          intro b hb
          have hxa := hcompare.mp hlt
          rcases List.mem_cons.mp hb with rfl | hb
          · exact hxa
          · exact hxa.trans (hhead b hb)
        · have hne : ahead base (number a) ≠ ahead base (number x) :=
            fun heq => hnew a (by simp) (ahead_inj heq)
          have hax : ahead base (number a) < ahead base (number x) := by
            have hnot := fun hxa => hlt (hcompare.mpr hxa)
            omega
          refine List.pairwise_cons.mpr ⟨?_, ih ⟨htail, fun b hb => h.near b (by simp [hb])⟩
            fun b hb => hnew b (by simp [hb])⟩
          intro b hb
          rcases (List.mem_orderedInsert _).mp hb with rfl | hb
          · exact hax
          · exact hhead b hb
  · intro a ha
    rcases (List.mem_orderedInsert _).mp ha with rfl | ha
    · exact hx
    · exact h.near a ha

theorem Spread.sublist {ys : List α} (h : Spread number base xs) (hsub : ys.Sublist xs) :
    Spread number base ys :=
  ⟨h.sorted.sublist hsub, fun a ha => h.near a (hsub.subset ha)⟩

theorem Spread.mem_dropWhile {target : UInt16} (h : Spread number base xs) (ht : ahead base target < 32768)
    {a : α} : a ∈ xs.dropWhile (fun a => signed16 (number a - target) < 0) ↔
      a ∈ xs ∧ ahead base target ≤ ahead base (number a) := by
  induction xs with
  | nil => simp
  | cons b xs ih =>
      obtain ⟨hhead, htail⟩ := List.pairwise_cons.mp h.sorted
      have hcompare := signed16_neg_iff (precedes_iff.mp (h.near b (by simp))).2 ht
      by_cases hb : signed16 (number b - target) < 0
      · rw [List.dropWhile_cons_of_pos (by simpa using hb), ih (h.sublist (List.sublist_cons_self b xs))]
        have hbehind := hcompare.mp hb
        constructor
        · rintro ⟨ha, hle⟩
          exact ⟨List.mem_cons_of_mem b ha, hle⟩
        · rintro ⟨ha, hle⟩
          rcases List.mem_cons.mp ha with rfl | ha
          · omega
          · exact ⟨ha, hle⟩
      · rw [List.dropWhile_cons_of_neg (by simpa using hb)]
        have hreached : ahead base target ≤ ahead base (number b) := by
          have hnot := fun hlt => hb (hcompare.mpr hlt)
          omega
        refine ⟨fun ha => ⟨ha, ?_⟩, And.left⟩
        rcases List.mem_cons.mp ha with rfl | ha
        · exact hreached
        · exact hreached.trans (le_of_lt (hhead a ha))

theorem Spread.precedes_last {x : UInt16} (h : Spread number base xs) (hx : ahead base x < 32768) :
    (∃ last ∈ xs.getLast?, Precedes x (number last)) ↔ ∃ a ∈ xs, ahead base x < ahead base (number a) := by
  constructor
  · rintro ⟨last, hlast, hprecedes⟩
    have hmem := List.mem_of_getLast? hlast
    exact ⟨last, hmem, (precedes_iff_ahead hx (precedes_iff.mp (h.near last hmem)).2).mp hprecedes⟩
  · rintro ⟨a, ha, hlt⟩
    have hne := List.ne_nil_of_mem ha
    have hfar : ahead base (number a) ≤ ahead base (number (xs.getLast hne)) := by
      rw [← List.dropLast_concat_getLast hne, List.mem_append, List.mem_singleton] at ha
      rcases ha with hinit | hlast
      · exact le_of_lt (h.sorted.rel_dropLast_getLast hinit)
      · rw [hlast]
    have hnear := (precedes_iff.mp (h.near _ (List.getLast_mem hne))).2
    exact ⟨_, List.getLast?_eq_some_getLast hne, (precedes_iff_ahead hx hnear).mpr (by omega)⟩

end P2PFFmpeg.Library.Serial

namespace P2PFFmpeg.Library.Rollover

/-- How many blocks of `2 * half` a number is ahead of the largest one, told from the
remainders. -/
def blocksAhead (half largest seq : Nat) : Int :=
  if largest < half then if largest + half < seq then -1 else 0
  else if seq + half < largest then 1 else 0

variable {half M N : Nat}

theorem blocks_near (hN : N < M + half) : N / (2 * half) ≤ M / (2 * half) + 1 := by
  by_cases hpos : 0 < 2 * half
  · calc
      N / (2 * half) ≤ (M + 2 * half) / (2 * half) := Nat.div_le_div_right (by omega)
      _ = M / (2 * half) + 1 := Nat.add_div_right M hpos
  · rw [Nat.eq_zero_of_not_pos hpos]
    simp

theorem blocksAhead_eq (hN : N < M + half) (hM : M < N + half) :
    blocksAhead half (M % (2 * half)) (N % (2 * half)) =
      (N / (2 * half) : Nat) - (M / (2 * half) : Nat) := by
  have hup := blocks_near hN
  have hdown := blocks_near hM
  have hMdiv := Nat.div_add_mod M (2 * half)
  have hNdiv := Nat.div_add_mod N (2 * half)
  have hMlt := Nat.mod_lt M (show 2 * half > 0 by omega)
  have hNlt := Nat.mod_lt N (show 2 * half > 0 by omega)
  generalize M / (2 * half) = a at *
  generalize N / (2 * half) = b at *
  have hcases : b = a ∨ b = a + 1 ∨ a = b + 1 := by omega
  unfold blocksAhead
  rcases hcases with rfl | rfl | rfl
  · split <;> split <;> omega
  · have hstep : 2 * half * (a + 1) = 2 * half * a + 2 * half := by ring
    split <;> split <;> omega
  · have hstep : 2 * half * (b + 1) = 2 * half * b + 2 * half := by ring
    split <;> split <;> omega

end P2PFFmpeg.Library.Rollover
