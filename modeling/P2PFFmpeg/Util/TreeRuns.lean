import P2PFFmpeg.Library.Transition
import P2PFFmpeg.Util.TreeSet
import Mathlib.Data.Set.Basic

namespace P2PFFmpeg.Util

open Library AVTreeNode

variable {ν α : Type} {cmp : α → α → Int}

inductive TreeOp (ν α : Type) where
  | insert (id : ν) (junk : α) (key : α)
  | remove (key : α)

def setErase (cmp : α → α → Int) (key : α) (xs : Set α) : Set α := {x | x ∈ xs ∧ cmp x key ≠ 0}

def setInsert (cmp : α → α → Int) (key : α) (xs : Set α) : Set α :=
  {x | x ∈ xs ∨ x = key ∧ ∀ y ∈ xs, cmp y key ≠ 0}

def treeRuns [DecidableEq ν] (cmp : α → α → Int) :
    Transition.System (AVTreeNode ν α × Set α) (TreeOp ν α) where
  init s := s = (null, ∅)
  next
    | (t, xs), .insert id junk key =>
        if id ∈ t.ids then none
        else some ((avTreeInsert cmp t key (leaf id junk)).tree, setInsert cmp key xs)
    | (t, xs), .remove key => some ((avTreeInsert cmp t key null).tree, setErase cmp key xs)

structure StandsFor (cmp : α → α → Int) (t : AVTreeNode ν α) (xs : Set α) : Prop where
  balanced : t.Balanced
  increasing : Increasing cmp t.elems
  elems : ∀ x, x ∈ t.elems ↔ x ∈ xs
  ids : t.ids.Nodup

theorem equal_eq_nil {key : α} {xs : List α} : equal cmp key xs = [] ↔ ∀ x ∈ xs, cmp x key ≠ 0 := by
  simp [equal, List.filter_eq_nil_iff]

variable {t : AVTreeNode ν α} {xs : Set α}

theorem StandsFor.insert (hcmp : TotalCmp cmp) (h : StandsFor cmp t xs) (key : α) {newId : ν}
    (hnew : newId ∉ t.ids) (junk : α) :
    StandsFor cmp (avTreeInsert cmp t key (leaf newId junk)).tree (setInsert cmp key xs) := by
  have hinsertion := avTreeInsert_insertion hcmp t h.balanced h.increasing key newId junk
  generalize avTreeInsert cmp t key (leaf newId junk) = r at hinsertion ⊢
  cases hinsertion with
  | @present x hpresent =>
      refine { h with elems := ?_ }
      intro y
      obtain ⟨hx, hzero⟩ := mem_equal.mp (hpresent ▸ List.mem_cons_self : x ∈ equal cmp key t.elems)
      have hthere := (h.elems x).mp hx
      rw [h.elems]
      constructor
      · exact .inl
      · rintro (hy | ⟨_, hnone⟩)
        · exact hy
        · exact absurd hzero (hnone x hthere)
  | @inserted ret tree habsent hbalanced _ helems hids =>
      have hnone := equal_eq_nil.mp habsent
      refine ⟨hbalanced, ?_, ?_, hids.nodup_iff.mpr (List.nodup_cons.mpr ⟨hnew, h.ids⟩)⟩
      · simp only [helems]
        rw [increasing_middle]
        refine ⟨h.increasing.filter _, h.increasing.filter _, fun x hx => (mem_before.mp hx).2,
          fun y hy => (hcmp.swap key y).mpr (mem_behind.mp hy).2, ?_⟩
        intro x hx y hy
        exact hcmp.lt_of_lt_of_le (mem_before.mp hx).2
          (Int.le_of_lt ((hcmp.swap key y).mpr (mem_behind.mp hy).2))
      · intro y
        simp only [helems, List.mem_append, List.mem_cons, mem_before, mem_behind, setInsert,
          Set.mem_ofPred_eq, ← h.elems]
        have hne := hnone y
        constructor
        · rintro (⟨hy, _⟩ | hy | ⟨hy, _⟩)
          · exact .inl hy
          · exact .inr ⟨hy, hnone⟩
          · exact .inl hy
        · rintro (hy | ⟨hy, _⟩)
          · have hne := hne hy
            by_cases hneg : cmp y key < 0
            · exact .inl ⟨hy, hneg⟩
            · exact .inr (.inr ⟨hy, by omega⟩)
          · exact .inr (.inl hy)

theorem StandsFor.erase (hcmp : TotalCmp cmp) (h : StandsFor cmp t xs) (key : α) :
    StandsFor cmp (avTreeInsert cmp t key null).tree (setErase cmp key xs) := by
  have hremoval := avTreeInsert_removal hcmp t h.balanced h.increasing key
  generalize avTreeInsert cmp t key null = r at hremoval ⊢
  cases hremoval with
  | absent habsent =>
      refine { h with elems := ?_ }
      intro y
      rw [setErase, Set.mem_ofPred_eq, ← h.elems]
      exact ⟨fun hy => ⟨hy, equal_eq_nil.mp habsent y hy⟩, And.left⟩
  | @removed x ret tree id elem hpresent hbalanced _ helems hids =>
      refine ⟨hbalanced, ?_, ?_, (List.nodup_cons.mp (hids.nodup_iff.mp h.ids)).2⟩
      · simp only [helems]
        refine List.pairwise_append.mpr ⟨h.increasing.filter _, h.increasing.filter _, ?_⟩
        intro y hy z hz
        exact hcmp.lt_of_lt_of_le (mem_before.mp hy).2
          (Int.le_of_lt ((hcmp.swap key z).mpr (mem_behind.mp hz).2))
      · intro y
        simp only [helems, List.mem_append, mem_before, mem_behind, setErase, Set.mem_ofPred_eq,
          ← h.elems]
        constructor
        · rintro (⟨hy, hneg⟩ | ⟨hy, hpos⟩)
          · exact ⟨hy, by omega⟩
          · exact ⟨hy, by omega⟩
        · rintro ⟨hy, hne⟩
          by_cases hneg : cmp y key < 0
          · exact .inl ⟨hy, hneg⟩
          · exact .inr ⟨hy, by omega⟩

theorem treeRuns_standsFor [DecidableEq ν] (hcmp : TotalCmp cmp) {s : AVTreeNode ν α × Set α}
    (h : (treeRuns cmp).Reachable s) : StandsFor cmp s.1 s.2 := by
  refine Transition.System.Reachable.invariant (fun s => StandsFor cmp s.1 s.2) ?_ ?_ h
  · rintro s rfl
    exact ⟨.null, .nil, fun x => by simp, .nil⟩
  · rintro ⟨t, xs⟩ op ⟨t', xs'⟩ _ hs hn
    cases op with
    | insert id junk key =>
        simp only [treeRuns] at hn
        split at hn
        · cases hn
        · cases hn
          exact hs.insert hcmp key ‹_› junk
    | remove key =>
        cases hn
        exact hs.erase hcmp key

/-- What a search shows of the set: the equal element, and in the array of the
neighbours the greatest smaller and the least greater element. -/
structure Shows (cmp : α → α → Int) (key : α) (xs : Set α) (next : Option (Bool → Option α))
    (found : Option α × Option (Bool → Option α)) : Prop where
  equal : (∃ x ∈ xs, cmp key x = 0 ∧ found.1 = some x) ∨
    (∀ x ∈ xs, cmp key x ≠ 0) ∧ found.1 = none
  unasked : next = none → found.2 = none
  smaller : ∀ n, next = some n → ∃ n', found.2 = some n' ∧
    ((∃ x ∈ xs, cmp x key < 0 ∧ (∀ y ∈ xs, cmp y key < 0 → cmp y x ≤ 0) ∧ n' false = some x) ∨
      (∀ x ∈ xs, ¬ cmp x key < 0) ∧ n' false = n false)
  greater : ∀ n, next = some n → ∃ n', found.2 = some n' ∧
    ((∃ x ∈ xs, 0 < cmp x key ∧ (∀ y ∈ xs, 0 < cmp y key → cmp x y ≤ 0) ∧ n' true = some x) ∨
      (∀ x ∈ xs, ¬ 0 < cmp x key) ∧ n' true = n true)

theorem StandsFor.shows (hcmp : TotalCmp cmp) (h : StandsFor cmp t xs) (key : α)
    (next : Option (Bool → Option α)) : Shows cmp key xs next (avTreeFind cmp key t next) := by
  rw [avTreeFind_eq hcmp key t h.increasing next]
  refine ⟨?_, ?_, ?_, ?_⟩
  · obtain hnone | ⟨x, hx⟩ := equal_cases hcmp h.increasing key
    · rw [hnone]
      refine .inr ⟨?_, rfl⟩
      intro y hy hzero
      exact equal_eq_nil.mp hnone y ((h.elems y).mpr hy) (hcmp.symm hzero)
    · obtain ⟨hin, hzero⟩ := mem_equal.mp (hx ▸ List.mem_cons_self : x ∈ Library.equal cmp key t.elems)
      rw [hx]
      exact .inl ⟨x, (h.elems x).mp hin, hcmp.symm hzero, rfl⟩
  · rintro rfl
    rfl
  · rintro n rfl
    refine ⟨_, rfl, ?_⟩
    simp only [neighbours, Bool.false_eq_true, if_false]
    cases hlast : (before cmp key t.elems).getLast? with
    | none =>
        refine .inr ⟨?_, rfl⟩
        intro x hx hneg
        have hnil := List.getLast?_eq_none_iff.mp hlast
        have hmem := mem_before.mpr ⟨(h.elems x).mpr hx, hneg⟩
        rw [hnil] at hmem
        cases hmem
    | some x =>
        obtain ⟨hin, hneg⟩ := mem_before.mp (List.mem_of_getLast? hlast)
        refine .inl ⟨x, (h.elems x).mp hin, hneg, ?_, rfl⟩
        intro y hy hyneg
        exact Increasing.le_getLast hcmp (h.increasing.filter _) hlast
          (mem_before.mpr ⟨(h.elems y).mpr hy, hyneg⟩)
  · rintro n rfl
    refine ⟨_, rfl, ?_⟩
    simp only [neighbours, if_true]
    cases hfirst : (behind cmp key t.elems).head? with
    | none =>
        refine .inr ⟨?_, rfl⟩
        intro x hx hpos
        have hnil := List.head?_eq_none_iff.mp hfirst
        have hmem := mem_behind.mpr ⟨(h.elems x).mpr hx, hpos⟩
        rw [hnil] at hmem
        cases hmem
    | some x =>
        obtain ⟨hin, hpos⟩ := mem_behind.mp (List.mem_of_head? hfirst)
        refine .inl ⟨x, (h.elems x).mp hin, hpos, ?_, rfl⟩
        intro y hy hypos
        exact Increasing.head_le hcmp (h.increasing.filter _) hfirst
          (mem_behind.mpr ⟨(h.elems y).mpr hy, hypos⟩)

/-- A tree that holds a set, and what the next call of any kind does with it. -/
structure OrderedSet (cmp : α → α → Int) (t : AVTreeNode ν α) (xs : Set α) : Prop where
  ordered : t.Ordered cmp
  balanced : t.Balanced
  elems : ∀ x, x ∈ t.elems ↔ x ∈ xs
  ids : t.ids.Nodup
  insertPresent : ∀ key, ∀ x ∈ xs, cmp x key = 0 → ∀ id elem,
    avTreeInsert cmp t key (leaf id elem) = ⟨some x, t, leaf id elem⟩
  insertFresh : ∀ key, (∀ x ∈ xs, cmp x key ≠ 0) → ∀ id elem,
    (avTreeInsert cmp t key (leaf id elem)).next = null ∧
      (avTreeInsert cmp t key (leaf id elem)).tree.ids.Perm (id :: t.ids)
  removePresent : ∀ key, ∀ x ∈ xs, cmp x key = 0 → ∃ id elem,
    (avTreeInsert cmp t key null).next = leaf id elem ∧
      t.ids.Perm (id :: (avTreeInsert cmp t key null).tree.ids)
  removeAbsent : ∀ key, (∀ x ∈ xs, cmp x key ≠ 0) →
    avTreeInsert cmp t key null = ⟨some key, t, null⟩
  find : ∀ key next, Shows cmp key xs next (avTreeFind cmp key t next)

theorem equal_of_mem (hcmp : TotalCmp cmp) {xs : List α} (h : Increasing cmp xs) {key x : α}
    (hx : x ∈ xs) (hzero : cmp x key = 0) : equal cmp key xs = [x] := by
  have hmem := mem_equal.mpr ⟨hx, hzero⟩
  obtain hnone | ⟨y, hy⟩ := equal_cases hcmp h key
  · rw [hnone] at hmem
    cases hmem
  · rw [hy] at hmem ⊢
    rw [List.mem_singleton.mp hmem]

/-- In every run the tree is an ordered set. -/
theorem tree_is_ordered_set [DecidableEq ν] (hcmp : TotalCmp cmp) {t : AVTreeNode ν α} {xs : Set α}
    (h : (treeRuns cmp).Reachable (t, xs)) : OrderedSet cmp t xs := by
  have hstands := treeRuns_standsFor hcmp h
  refine
    { ordered := (ordered_iff hcmp t).mpr hstands.increasing
      balanced := hstands.balanced
      elems := hstands.elems
      ids := hstands.ids
      insertPresent := ?_
      insertFresh := ?_
      removePresent := ?_
      removeAbsent := ?_
      find := hstands.shows hcmp }
  · intro key x hx hzero id elem
    have hequal := equal_of_mem hcmp hstands.increasing ((hstands.elems x).mpr hx) hzero
    have hinsertion := avTreeInsert_insertion hcmp t hstands.balanced hstands.increasing key id elem
    cases hr : avTreeInsert cmp t key (leaf id elem)
    rw [hr] at hinsertion
    cases hinsertion with
    | present hpresent =>
        rw [hequal] at hpresent
        cases hpresent
        rfl
    | inserted habsent =>
        rw [hequal] at habsent
        cases habsent
  · intro key hnone id elem
    have hequal := equal_eq_nil.mpr fun x hx => hnone x ((hstands.elems x).mp hx)
    have hinsertion := avTreeInsert_insertion hcmp t hstands.balanced hstands.increasing key id elem
    cases hr : avTreeInsert cmp t key (leaf id elem)
    rw [hr] at hinsertion
    cases hinsertion with
    | present hpresent =>
        rw [hequal] at hpresent
        cases hpresent
    | inserted _ _ _ _ hids => exact ⟨rfl, hids⟩
  · intro key x hx hzero
    have hequal := equal_of_mem hcmp hstands.increasing ((hstands.elems x).mpr hx) hzero
    have hremoval := avTreeInsert_removal hcmp t hstands.balanced hstands.increasing key
    cases hr : avTreeInsert cmp t key null
    rw [hr] at hremoval
    cases hremoval with
    | absent habsent =>
        rw [hequal] at habsent
        cases habsent
    | removed _ _ _ _ hids => exact ⟨_, _, rfl, hids⟩
  · intro key hnone
    have hequal := equal_eq_nil.mpr fun x hx => hnone x ((hstands.elems x).mp hx)
    have hremoval := avTreeInsert_removal hcmp t hstands.balanced hstands.increasing key
    cases hr : avTreeInsert cmp t key null
    rw [hr] at hremoval
    cases hremoval with
    | absent => rfl
    | removed hpresent =>
        rw [hequal] at hpresent
        cases hpresent

def compareNat (a b : Nat) : Int := (a : Int) - b

theorem compareNat_total : TotalCmp compareNat := by
  constructor
  · intro a b
    simp only [compareNat]
    omega
  · intro a b c
    simp only [compareNat]
    omega

/-- Six numbers come, and the one at the root goes. -/
theorem tree_is_ordered_set_of_numbers : ∃ (t : AVTreeNode Nat Nat) (xs : Set Nat),
    t.elems = [1, 2, 3, 5, 6] ∧ OrderedSet compareNat t xs := by
  have hrun : ((treeRuns compareNat).run [.insert 0 0 6, .insert 1 0 5, .insert 2 0 4,
      .insert 3 0 3, .insert 4 0 2, .insert 5 0 1, .remove 4] (null, ∅)).map
        (fun s => s.1.elems) = some [1, 2, 3, 5, 6] := by
    decide +kernel
  obtain ⟨⟨t, xs⟩, hs, helems⟩ := Option.map_eq_some_iff.mp hrun
  exact ⟨t, xs, helems, tree_is_ordered_set compareNat_total (.of_run rfl hs)⟩

end P2PFFmpeg.Util
