import Mathlib.Data.List.Basic

namespace P2PFFmpeg.Library

/-- The sign of the answer is a total order, in which different values may be equal. -/
structure TotalCmp {α : Type} (cmp : α → α → Int) : Prop where
  swap : ∀ a b, cmp a b < 0 ↔ 0 < cmp b a
  trans : ∀ a b c, cmp a b ≤ 0 → cmp b c ≤ 0 → cmp a c ≤ 0

namespace TotalCmp

variable {α : Type} {cmp : α → α → Int} (h : TotalCmp cmp) {a b c : α}

include h

theorem refl (a : α) : cmp a a = 0 := by
  have hswap := h.swap a a
  omega

theorem symm (hab : cmp a b = 0) : cmp b a = 0 := by
  have hswap := h.swap a b
  have hback := h.swap b a
  omega

theorem lt_of_le_of_lt (hab : cmp a b ≤ 0) (hbc : cmp b c < 0) : cmp a c < 0 := by
  have hac := h.trans a b c hab (Int.le_of_lt hbc)
  have hback := h.trans c a b
  have hswap := h.swap b c
  have hne : cmp a c ≠ 0 := by
    intro heq
    have hca := h.symm heq
    omega
  omega

theorem lt_of_lt_of_le (hab : cmp a b < 0) (hbc : cmp b c ≤ 0) : cmp a c < 0 := by
  have hac := h.trans a b c (Int.le_of_lt hab) hbc
  have hback := h.trans b c a hbc
  have hswap := h.swap a b
  have hne : cmp a c ≠ 0 := by
    intro heq
    have hca := h.symm heq
    omega
  omega

end TotalCmp

section Increasing

variable {α : Type} (cmp : α → α → Int)

def Increasing (xs : List α) : Prop := xs.Pairwise fun a b => cmp a b < 0

def before (key : α) (xs : List α) : List α := xs.filter fun x => cmp x key < 0

def equal (key : α) (xs : List α) : List α := xs.filter fun x => cmp x key = 0

def behind (key : α) (xs : List α) : List α := xs.filter fun x => 0 < cmp x key

variable {cmp} {key : α} {xs ys : List α}

@[simp] theorem before_append : before cmp key (xs ++ ys) = before cmp key xs ++ before cmp key ys :=
  List.filter_append ..

@[simp] theorem equal_append : equal cmp key (xs ++ ys) = equal cmp key xs ++ equal cmp key ys :=
  List.filter_append ..

@[simp] theorem behind_append : behind cmp key (xs ++ ys) = behind cmp key xs ++ behind cmp key ys :=
  List.filter_append ..

variable {x : α}

theorem mem_before : x ∈ before cmp key xs ↔ x ∈ xs ∧ cmp x key < 0 := by
  simp [before]

theorem mem_equal : x ∈ equal cmp key xs ↔ x ∈ xs ∧ cmp x key = 0 := by
  simp [equal]

theorem mem_behind : x ∈ behind cmp key xs ↔ x ∈ xs ∧ 0 < cmp x key := by
  simp [behind]

theorem all_before (h : ∀ x ∈ xs, cmp x key < 0) :
    before cmp key xs = xs ∧ equal cmp key xs = [] ∧ behind cmp key xs = [] := by
  refine ⟨List.filter_eq_self.mpr fun x hx => decide_eq_true (h x hx),
    List.filter_eq_nil_iff.mpr fun x hx => ?_, List.filter_eq_nil_iff.mpr fun x hx => ?_⟩
  · have hlt := h x hx
    simp only [decide_eq_true_eq]
    omega
  · have hlt := h x hx
    simp only [decide_eq_true_eq]
    omega

theorem all_behind (h : ∀ x ∈ xs, 0 < cmp x key) :
    before cmp key xs = [] ∧ equal cmp key xs = [] ∧ behind cmp key xs = xs := by
  refine ⟨List.filter_eq_nil_iff.mpr fun x hx => ?_, List.filter_eq_nil_iff.mpr fun x hx => ?_,
    List.filter_eq_self.mpr fun x hx => decide_eq_true (h x hx)⟩
  · have hlt := h x hx
    simp only [decide_eq_true_eq]
    omega
  · have hlt := h x hx
    simp only [decide_eq_true_eq]
    omega

theorem Increasing.filter (h : Increasing cmp xs) (p : α → Bool) : Increasing cmp (xs.filter p) :=
  List.Pairwise.filter p h

/-- An element in the middle splits the list at a key that compares as it does. -/
theorem increasing_middle {m : α} : Increasing cmp (xs ++ m :: ys) ↔ Increasing cmp xs ∧ Increasing cmp ys ∧
      (∀ x ∈ xs, cmp x m < 0) ∧ (∀ y ∈ ys, cmp m y < 0) ∧ ∀ x ∈ xs, ∀ y ∈ ys, cmp x y < 0 := by
  simp only [Increasing, List.pairwise_append, List.pairwise_cons, List.mem_cons, forall_eq_or_imp]
  grind

section Middle

variable (hcmp : TotalCmp cmp) {m : α} (h : Increasing cmp (xs ++ m :: ys))

include hcmp h

theorem split_front (hm : 0 < cmp m key) : before cmp key (xs ++ m :: ys) = before cmp key xs ∧
      equal cmp key (xs ++ m :: ys) = equal cmp key xs ∧
      behind cmp key (xs ++ m :: ys) = behind cmp key xs ++ m :: ys := by
  obtain ⟨_, _, _, hys, _⟩ := increasing_middle.mp h
  have hback : ∀ y ∈ m :: ys, 0 < cmp y key := by
    intro y hy
    rw [← hcmp.swap]
    have hkey := (hcmp.swap key m).mpr hm
    cases List.mem_cons.mp hy with
    | inl heq => rwa [heq]
    | inr hin => exact hcmp.lt_of_lt_of_le hkey (Int.le_of_lt (hys y hin))
  obtain ⟨hbefore, hequal, hbehind⟩ := all_behind hback
  rw [before_append, equal_append, behind_append, hbefore, hequal, hbehind]
  exact ⟨List.append_nil _, List.append_nil _, rfl⟩

theorem split_back (hm : cmp m key < 0) : before cmp key (xs ++ m :: ys) = xs ++ m :: before cmp key ys ∧
      equal cmp key (xs ++ m :: ys) = equal cmp key ys ∧
      behind cmp key (xs ++ m :: ys) = behind cmp key ys := by
  obtain ⟨_, _, hxs, _, _⟩ := increasing_middle.mp h
  have hfront : ∀ x ∈ xs ++ [m], cmp x key < 0 := by
    intro x hx
    cases List.mem_append.mp hx with
    | inl hin => exact hcmp.lt_of_lt_of_le (hxs x hin) (Int.le_of_lt hm)
    | inr hin => rwa [List.mem_singleton.mp hin]
  obtain ⟨hbefore, hequal, hbehind⟩ := all_before hfront
  rw [List.append_cons, before_append, equal_append, behind_append, hbefore, hequal, hbehind]
  exact ⟨List.append_assoc .., List.nil_append _, List.nil_append _⟩

theorem split_middle (hm : cmp m key = 0) :
    before cmp key (xs ++ m :: ys) = xs ∧ equal cmp key (xs ++ m :: ys) = [m] ∧
      behind cmp key (xs ++ m :: ys) = ys := by
  obtain ⟨_, _, hxs, hys, _⟩ := increasing_middle.mp h
  have hfront : ∀ x ∈ xs, cmp x key < 0 :=
    fun x hx => hcmp.lt_of_lt_of_le (hxs x hx) (Int.le_of_eq hm)
  have hback : ∀ y ∈ ys, 0 < cmp y key := by
    intro y hy
    exact (hcmp.swap key y).mp (hcmp.lt_of_le_of_lt (Int.le_of_eq (hcmp.symm hm)) (hys y hy))
  obtain ⟨hbefore, hequal, hbehind⟩ := all_before hfront
  obtain ⟨hbefore', hequal', hbehind'⟩ := all_behind hback
  have hcons : m :: ys = [m] ++ ys := rfl
  rw [hcons, before_append, equal_append, behind_append, before_append, equal_append,
    behind_append, hbefore, hequal, hbehind, hbefore', hequal', hbehind']
  simp [before, equal, behind, hm]

end Middle

theorem Increasing.le_getLast (hcmp : TotalCmp cmp) (h : Increasing cmp xs) {last : α}
    (hlast : xs.getLast? = some last) (hx : x ∈ xs) : cmp x last ≤ 0 := by
  obtain ⟨init, rfl⟩ := List.getLast?_eq_some_iff.mp hlast
  obtain ⟨_, _, hbefore, _⟩ := increasing_middle.mp h
  cases List.mem_append.mp hx with
  | inl hin => exact Int.le_of_lt (hbefore x hin)
  | inr hin =>
      obtain rfl := List.mem_singleton.mp hin
      exact Int.le_of_eq (hcmp.refl x)

theorem Increasing.head_le (hcmp : TotalCmp cmp) (h : Increasing cmp xs) {first : α}
    (hfirst : xs.head? = some first) (hx : x ∈ xs) : cmp first x ≤ 0 := by
  cases xs with
  | nil => cases hx
  | cons y ys =>
      obtain rfl := Option.some.inj hfirst
      cases List.mem_cons.mp hx with
      | inl heq => exact Int.le_of_eq (heq ▸ hcmp.refl x)
      | inr hin => exact Int.le_of_lt ((List.pairwise_cons.mp h).1 x hin)

end Increasing

end P2PFFmpeg.Library
