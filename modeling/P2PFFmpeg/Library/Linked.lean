import Mathlib.Data.List.Basic
import Mathlib.Data.List.Nodup

namespace P2PFFmpeg.Library

abbrev Ptr := Nat

/-- A singly linked list of heap cells, in link order. Cells have distinct
addresses, and every address allocated so far lies below fresh. -/
structure Linked (α : Type) where
  cells : List (Ptr × α)
  fresh : Ptr
  nodup : (cells.map Prod.fst).Nodup
  below : ∀ p ∈ cells.map Prod.fst, p < fresh

namespace Linked

variable {α : Type}

theorem ext {l m : Linked α} (hc : l.cells = m.cells) (hf : l.fresh = m.fresh) : l = m := by
  cases l; cases m; cases hc; cases hf; rfl

def empty : Linked α := ⟨[], 0, by simp, by simp⟩

def addrs (l : Linked α) : List Ptr := l.cells.map Prod.fst

def get? (l : Linked α) (p : Ptr) : Option α := (l.cells.find? (fun c => c.1 == p)).map Prod.snd

def find? (l : Linked α) (k : α → Bool) : Option Ptr :=
  (l.cells.find? (fun c => k c.2)).map Prod.fst

def update (p : Ptr) (f : α → α) (c : Ptr × α) : Ptr × α := if c.1 = p then (c.1, f c.2) else c

theorem update_fst (p : Ptr) (f : α → α) (c : Ptr × α) : (update p f c).1 = c.1 := by
  unfold update
  split <;> rfl

theorem map_update_fst (p : Ptr) (f : α → α) (cs : List (Ptr × α)) :
    (cs.map (update p f)).map Prod.fst = cs.map Prod.fst := by
  rw [List.map_map]
  exact List.map_congr_left (fun c _ => update_fst p f c)

def modify (l : Linked α) (p : Ptr) (f : α → α) : Linked α where
  cells := l.cells.map (update p f)
  fresh := l.fresh
  nodup := by rw [map_update_fst]; exact l.nodup
  below := by rw [map_update_fst]; exact l.below

def unlink (l : Linked α) (k : α → Bool) : Linked α where
  cells := l.cells.eraseP (fun c => k c.2)
  fresh := l.fresh
  nodup := l.nodup.sublist (List.eraseP_sublist.map _)
  below := fun p hp => l.below p ((List.eraseP_sublist.map _).subset hp)

/-- Allocate a cell and link it at the tail. -/
def link (l : Linked α) (a : α) : Linked α where
  cells := l.cells ++ [(l.fresh, a)]
  fresh := l.fresh + 1
  nodup := by
    rw [List.map_append, List.nodup_append]
    refine ⟨l.nodup, by simp, ?_⟩
    rintro p hp q hq rfl
    rw [List.map_singleton, List.mem_singleton] at hq
    exact Nat.lt_irrefl _ (hq ▸ l.below p hp)
  below := by
    intro p hp
    rw [List.map_append, List.mem_append] at hp
    rcases hp with hp | hp
    · exact Nat.lt_succ_of_lt (l.below p hp)
    · rw [List.map_singleton, List.mem_singleton] at hp
      exact hp ▸ Nat.lt_succ_self _

def reserve (l : Linked α) : Linked α where
  cells := l.cells
  fresh := l.fresh + 1
  nodup := l.nodup
  below := fun p hp => Nat.lt_succ_of_lt (l.below p hp)

theorem nodup_get {cs : List (Ptr × α)} (hn : (cs.map Prod.fst).Nodup) (p : Ptr) (a : α) :
    (cs.find? (fun c => c.1 == p)).map Prod.snd = some a ↔ (p, a) ∈ cs := by
  induction cs with
  | nil => simp
  | cons c cs ih =>
      obtain ⟨hc, hn⟩ := List.nodup_cons.mp hn
      by_cases hp : c.1 = p
      · subst hp
        have hfst : ∀ b, (c.1, b) ∉ cs := fun b hb => hc (List.mem_map.mpr ⟨_, hb, rfl⟩)
        simp only [List.find?_cons, beq_self_eq_true, Option.map_some, List.mem_cons, hfst, or_false]
        exact ⟨fun h => by rw [← Option.some.inj h], fun h => by rw [← h]⟩
      · have hne : (p, a) ≠ c := fun h => hp (by rw [← h])
        simp [hp, ih hn, hne]

@[simp] theorem get?_reserve (l : Linked α) (p : Ptr) : l.reserve.get? p = l.get? p := rfl

variable {l : Linked α} {k : α → Bool} {p : Ptr} {a : α}

theorem get?_eq_some_iff :
    l.get? p = some a ↔ (p, a) ∈ l.cells := nodup_get l.nodup p a

theorem mem_addrs_iff : p ∈ l.addrs ↔ ∃ a, l.get? p = some a := by
  simp [addrs, get?_eq_some_iff]

theorem get?_eq_none_iff : l.get? p = none ↔ p ∉ l.addrs := by
  rw [mem_addrs_iff, Option.eq_none_iff_forall_ne_some]
  simp

theorem lt_fresh (h : p ∈ l.addrs) : p < l.fresh := l.below p h

theorem find?_get (h : l.find? k = some p) : ∃ a, l.get? p = some a ∧ k a = true := by
  obtain ⟨c, hc, rfl⟩ := Option.map_eq_some_iff.mp h
  have hk := List.find?_some hc
  exact ⟨c.2, get?_eq_some_iff.mpr (List.mem_of_find?_eq_some hc), hk⟩

theorem find?_mem (h : l.find? k = some p) : p ∈ l.addrs := by
  obtain ⟨a, ha, _⟩ := find?_get h
  exact mem_addrs_iff.mpr ⟨a, ha⟩

theorem find?_eq_none_iff : l.find? k = none ↔ ∀ p a, l.get? p = some a → k a = false := by
  simp only [find?, Option.map_eq_none_iff, List.find?_eq_none, get?_eq_some_iff, Bool.not_eq_true]
  exact ⟨fun h p a ha => h (p, a) ha, fun h c hc => h c.1 c.2 hc⟩

@[simp] theorem addrs_empty : (empty : Linked α).addrs = [] := rfl

@[simp] theorem addrs_modify (l : Linked α) (p : Ptr) (f : α → α) :
    (l.modify p f).addrs = l.addrs := map_update_fst p f l.cells

@[simp] theorem addrs_link (l : Linked α) (a : α) : (l.link a).addrs = l.addrs ++ [l.fresh] := by
  simp [addrs, link]

theorem get?_modify (l : Linked α) (p q : Ptr) (f : α → α) :
    (l.modify p f).get? q = if q = p then (l.get? q).map f else l.get? q := by
  ext a
  simp only [get?_eq_some_iff, modify, List.mem_map]
  constructor
  · rintro ⟨c, hc, he⟩
    have hq : c.1 = q := by rw [← update_fst p f c, he]
    subst hq
    unfold update at he
    split at he
    · next hp =>
        rw [if_pos hp, Option.map_eq_some_iff]
        exact ⟨c.2, get?_eq_some_iff.mpr hc, congrArg Prod.snd he⟩
    · next hp =>
        rw [if_neg hp, get?_eq_some_iff, ← he]
        exact hc
  · intro h
    split at h
    · next hq =>
        subst hq
        obtain ⟨b, hb, rfl⟩ := Option.map_eq_some_iff.mp h
        exact ⟨(q, b), get?_eq_some_iff.mp hb, by simp [update]⟩
    · next hq => exact ⟨(q, a), get?_eq_some_iff.mp h, by simp [update, hq]⟩

theorem get?_link (l : Linked α) (a : α) (q : Ptr) :
    (l.link a).get? q = if q = l.fresh then some a else l.get? q := by
  ext b
  simp only [get?_eq_some_iff, link, List.mem_append, List.mem_singleton, Prod.mk.injEq]
  split
  · next hq =>
      subst hq
      have hnot : (l.fresh, b) ∉ l.cells := fun h =>
        Nat.lt_irrefl _ (l.below _ (List.mem_map.mpr ⟨_, h, rfl⟩))
      simp [hnot, eq_comm]
  · next hq => simp [hq, get?_eq_some_iff]

theorem unlink_of_find?_none (h : l.find? k = none) : l.unlink k = l := by
  refine ext ?_ rfl
  refine List.eraseP_of_forall_not (fun c hc => ?_)
  simp [find?_eq_none_iff.mp h c.1 c.2 (get?_eq_some_iff.mpr hc)]

/-- Unlinking by a key removes exactly the cell that the search by this key finds. -/
theorem get?_unlink (h : l.find? k = some p) (q : Ptr) :
    (l.unlink k).get? q = if q = p then none else l.get? q := by
  obtain ⟨c, hc, rfl⟩ := Option.map_eq_some_iff.mp h
  obtain ⟨hk, xs, ys, hcells, hxs⟩ := List.find?_eq_some_iff_append.mp hc
  have herase : (l.unlink k).cells = xs ++ ys := by
    change l.cells.eraseP _ = _
    rw [hcells, List.eraseP_append_right _ (fun b hb => by simpa using hxs b hb)]
    simp [hk]
  have hfst : ∀ b, (c.1, b) ∉ xs ++ ys := by
    have hn := l.nodup
    rw [hcells, List.map_append, List.map_cons, List.nodup_middle, ← List.map_append] at hn
    exact fun b hb => (List.nodup_cons.mp hn).1 (List.mem_map.mpr ⟨_, hb, rfl⟩)
  ext b
  rw [get?_eq_some_iff, herase]
  split
  · next hq => subst hq; simpa using hfst b
  · next hq =>
      rw [get?_eq_some_iff, hcells]
      have hne : (q, b) ≠ c := fun he => hq (by rw [← he])
      simp [hne]

theorem get?_of_unlink {q : Ptr} (h : (l.unlink k).get? q = some a) : l.get? q = some a := by
  cases hf : l.find? k with
  | none =>
      rw [unlink_of_find?_none hf] at h
      exact h
  | some p =>
      rw [get?_unlink hf] at h
      split at h
      · cases h
      · exact h

theorem get?_unlink_of_not {q : Ptr} (h : l.get? q = some a) (hk : k a = false) :
    (l.unlink k).get? q = some a := by
  cases hf : l.find? k with
  | none => rw [unlink_of_find?_none hf, h]
  | some p =>
      obtain ⟨b, hb, hkb⟩ := find?_get hf
      rw [get?_unlink hf, if_neg, h]
      rintro rfl
      rw [h] at hb
      cases hb
      rw [hk] at hkb
      cases hkb

theorem find?_modify {f : α → α} (hf : ∀ a, l.get? p = some a → k (f a) = k a) :
    (l.modify p f).find? k = l.find? k := by
  have hk : ∀ c ∈ l.cells, k (update p f c).2 = k c.2 := by
    intro c hc
    unfold update
    split
    · next hp =>
        subst hp
        exact hf c.2 (get?_eq_some_iff.mpr hc)
    · rfl
  have hcells : ∀ cs : List (Ptr × α), (∀ c ∈ cs, k (update p f c).2 = k c.2) →
      ((cs.map (update p f)).find? (fun c => k c.2)).map Prod.fst =
        (cs.find? (fun c => k c.2)).map Prod.fst := by
    intro cs hcs
    induction cs with
    | nil => rfl
    | cons c cs ih =>
        rw [List.map_cons, List.find?_cons, List.find?_cons, hcs c List.mem_cons_self]
        cases k c.2 with
        | true => simp [update_fst]
        | false => exact ih (fun b hb => hcs b (List.mem_cons_of_mem _ hb))
  exact hcells l.cells hk

theorem find?_link (l : Linked α) (a : α) (k : α → Bool) :
    (l.link a).find? k = (l.find? k).or (if k a then some l.fresh else none) := by
  simp only [find?, link, List.find?_append, List.find?_singleton]
  cases l.cells.find? (fun c => k c.2) with
  | some c => rfl
  | none => cases k a <;> rfl

/-- A search that does not find the unlinked cell is not disturbed by its removal. -/
theorem find?_unlink {j k : α → Bool} {p q : Ptr} (hp : l.find? k = some p) (hq : l.find? j = some q)
    (hne : q ≠ p) : (l.unlink k).find? j = some q := by
  obtain ⟨c, hc, rfl⟩ := Option.map_eq_some_iff.mp hq
  obtain ⟨hj, xs, ys, hcells, hxs⟩ := List.find?_eq_some_iff_append.mp hc
  obtain ⟨d, hd, rfl⟩ := Option.map_eq_some_iff.mp hp
  have hcd : k c.2 = true → ∃ b ∈ xs, k b.2 = true := by
    intro hk
    by_contra hno
    simp only [not_exists, not_and, Bool.not_eq_true] at hno
    rw [hcells, List.find?_append, List.find?_eq_none.mpr (by simpa using hno), Option.none_or,
      List.find?_cons, hk] at hd
    exact hne (by cases hd; rfl)
  have herase : ∃ zs ws, (l.unlink k).cells = zs ++ c :: ws ∧ ∀ b ∈ zs, b ∈ xs := by
    change ∃ zs ws, l.cells.eraseP _ = _ ∧ _
    rw [hcells, List.eraseP_append]
    split
    · exact ⟨_, _, rfl, fun b hb => List.mem_of_mem_eraseP hb⟩
    · next hno =>
        have hk : k c.2 = false := by
          by_contra hk
          obtain ⟨b, hb, hkb⟩ := hcd (by simpa using hk)
          exact hno (List.any_eq_true.mpr ⟨b, hb, hkb⟩)
        rw [List.eraseP_cons_of_neg (by simp [hk])]
        exact ⟨xs, _, rfl, fun b hb => hb⟩
  obtain ⟨zs, ws, hz, hsub⟩ := herase
  have hnone : zs.find? (fun b => j b.2) = none :=
    List.find?_eq_none.mpr (fun b hb => by simpa using hxs b (hsub b hb))
  rw [find?, hz, List.find?_append, hnone, Option.none_or, List.find?_cons, hj]
  rfl

theorem unlink_addrs_subset (l : Linked α) (k : α → Bool) {q : Ptr}
    (h : q ∈ (l.unlink k).addrs) : q ∈ l.addrs :=
  (List.eraseP_sublist.map _).subset h

def mapCells (l : Linked α) (f : Ptr → α → α) : Linked α where
  cells := l.cells.map fun c => (c.1, f c.1 c.2)
  fresh := l.fresh
  nodup := by rw [List.map_map]; exact l.nodup
  below := by rw [List.map_map]; exact l.below

section MapCells

variable (l : Linked α) {f : Ptr → α → α}

@[simp] theorem addrs_mapCells : (l.mapCells f).addrs = l.addrs := List.map_map

theorem get?_mapCells (p : Ptr) : (l.mapCells f).get? p = (l.get? p).map (f p) := by
  ext a
  simp only [get?_eq_some_iff, mapCells, List.mem_map, Option.map_eq_some_iff, Prod.mk.injEq]
  constructor
  · rintro ⟨⟨q, b⟩, hmem, rfl, rfl⟩
    exact ⟨b, hmem, rfl⟩
  · rintro ⟨b, hmem, rfl⟩
    exact ⟨(p, b), hmem, rfl, rfl⟩

theorem find?_mapCells {k : α → Bool} (hk : ∀ p a, k (f p a) = k a) : (l.mapCells f).find? k = l.find? k := by
  have hkey : ((fun c => k c.2) ∘ fun c : Ptr × α => (c.1, f c.1 c.2)) = fun c => k c.2 := by
    funext c
    exact hk c.1 c.2
  rw [find?, mapCells, List.find?_map, hkey, Option.map_map]
  rfl

theorem mapCells_modify {p : Ptr} {g h : α → α} (hg : ∀ a, l.get? p = some a → h (f p a) = f p (g a)) :
    (l.mapCells f).modify p h = (l.modify p g).mapCells f := by
  refine ext ?_ rfl
  change (l.cells.map _).map _ = (l.cells.map _).map _
  rw [List.map_map, List.map_map]
  apply List.map_congr_left
  rintro ⟨q, a⟩ hmem
  simp only [Function.comp_apply, update]
  split
  · next hp =>
      subst hp
      rw [hg a (get?_eq_some_iff.mpr hmem)]
  · rfl

theorem mapCells_link {a : α} (ha : f l.fresh a = a) : (l.mapCells f).link a = (l.link a).mapCells f := by
  refine ext ?_ rfl
  change l.cells.map _ ++ [(l.fresh, a)] = (l.cells ++ [(l.fresh, a)]).map _
  rw [List.map_append, List.map_singleton, ha]

theorem mapCells_unlink {k : α → Bool} (hk : ∀ p a, k (f p a) = k a) :
    (l.mapCells f).unlink k = (l.unlink k).mapCells f := by
  refine ext ?_ rfl
  have hkey : ((fun c => k c.2) ∘ fun c : Ptr × α => (c.1, f c.1 c.2)) = fun c => k c.2 := by
    funext c
    exact hk c.1 c.2
  change (l.cells.map _).eraseP _ = (l.cells.eraseP _).map _
  rw [List.eraseP_map, hkey]

end MapCells

end Linked

end P2PFFmpeg.Library
