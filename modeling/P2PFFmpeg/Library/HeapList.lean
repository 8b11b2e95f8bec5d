import P2PFFmpeg.Library.Linked
import Mathlib.Logic.Function.Basic

namespace P2PFFmpeg.Library

structure Cell (α : Type) where
  item : α
  next : Option Ptr

structure HeapList (α : Type) where
  heap : Ptr → Cell α
  head : Option Ptr

/-- A place that holds a pointer to a cell. -/
inductive Link
  | head
  | next (p : Ptr)
deriving DecidableEq

namespace HeapList

variable {α : Type}

def follow (l : HeapList α) : Link → Option Ptr
  | .head => l.head
  | .next p => (l.heap p).next

def redirect (l : HeapList α) (p : Option Ptr) : Link → HeapList α
  | .head => { l with head := p }
  | .next q => { l with heap := Function.update l.heap q ⟨(l.heap q).item, p⟩ }

def insertAt (l : HeapList α) (link : Link) (p : Ptr) (a : α) : HeapList α :=
  redirect { l with heap := Function.update l.heap p ⟨a, l.follow link⟩ } (some p) link

def Leads (heap : Ptr → Cell α) : Option Ptr → List (Ptr × α) → Prop
  | start, [] => start = none
  | start, c :: cs => start = some c.1 ∧ (heap c.1).item = c.2 ∧ Leads heap (heap c.1).next cs

def Has (l : HeapList α) (cells : List (Ptr × α)) : Prop := Leads l.heap l.head cells

def addrs (cells : List (Ptr × α)) : List Ptr := cells.map Prod.fst

def linkBehind (front : List (Ptr × α)) : Link :=
  match front.getLast? with
  | none => .head
  | some c => .next c.1

section Leads

variable {heap heap' : Ptr → Cell α} {start : Option Ptr} {cells front back : List (Ptr × α)}
  {l : HeapList α} {p : Ptr} {a : α}

theorem Leads.congr (h : Leads heap start cells) (hsame : ∀ p ∈ addrs cells, heap' p = heap p) :
    Leads heap' start cells := by
  induction cells generalizing start with
  | nil => exact h
  | cons c cells ih =>
      obtain ⟨hstart, hitem, hrest⟩ := h
      have hc : heap' c.1 = heap c.1 := hsame c.1 List.mem_cons_self
      refine ⟨hstart, by rw [hc, hitem], ?_⟩
      rw [hc]
      exact ih hrest fun p hp => hsame p (List.mem_cons_of_mem _ hp)

theorem Leads.head (h : Leads heap start cells) : start = cells.head?.map Prod.fst := by
  cases cells with
  | nil => exact h
  | cons c cells => exact h.1

theorem Leads.unique {cells' : List (Ptr × α)} (h : Leads heap start cells)
    (h' : Leads heap start cells') : cells = cells' := by
  induction cells generalizing start cells' with
  | nil =>
      cases cells' with
      | nil => rfl
      | cons d cells' => exact absurd (h.symm.trans h'.1) nofun
  | cons c cells ih =>
      cases cells' with
      | nil => exact absurd (h'.symm.trans h.1) nofun
      | cons d cells' =>
          obtain ⟨hc, hitem, hrest⟩ := h
          obtain ⟨hd, hitem', hrest'⟩ := h'
          have hptr : c.1 = d.1 := Option.some.inj (hc.symm.trans hd)
          rw [← hptr] at hitem' hrest'
          rw [ih hrest hrest', Prod.ext hptr (hitem.symm.trans hitem')]

theorem Leads.item (h : Leads heap start cells) {c : Ptr × α} (hc : c ∈ cells) : (heap c.1).item = c.2 := by
  induction cells generalizing start with
  | nil => cases hc
  | cons d cells ih =>
      rcases List.mem_cons.mp hc with rfl | hc
      · exact h.2.1
      · exact ih h.2.2 hc

theorem Leads.behind {c : Ptr × α} (h : Leads heap start (front ++ c :: back)) :
    Leads heap (heap c.1).next back := by
  induction front generalizing start with
  | nil => exact h.2.2
  | cons d front ih => exact ih h.2.2

theorem linkBehind_nil : linkBehind ([] : List (Ptr × α)) = .head := rfl

theorem linkBehind_snoc (front : List (Ptr × α)) (c : Ptr × α) : linkBehind (front ++ [c]) = .next c.1 := by
  simp [linkBehind]

theorem Has.follow (h : l.Has (front ++ back)) : Leads l.heap (l.follow (linkBehind front)) back := by
  rcases List.eq_nil_or_concat' front with rfl | ⟨front, c, rfl⟩
  · exact h
  · rw [linkBehind_snoc]
    rw [Has, List.append_assoc] at h
    exact h.behind

theorem leads_insert {q : Ptr} {b : α} (h : Leads heap start (front ++ (q, b) :: back))
    (hnodup : (addrs (front ++ (q, b) :: back)).Nodup) (hp : p ∉ addrs (front ++ (q, b) :: back)) :
    Leads (Function.update (Function.update heap p ⟨a, (heap q).next⟩) q ⟨(heap q).item, some p⟩)
      start (front ++ (q, b) :: (p, a) :: back) := by
  have hpq : p ≠ q := by
    rintro rfl
    exact hp (by simp [addrs])
  induction front generalizing start with
  | nil =>
      obtain ⟨hstart, hitem, hrest⟩ := h
      obtain ⟨hq, _⟩ := List.nodup_cons.mp hnodup
      refine ⟨hstart, by rw [Function.update_self]; exact hitem, ?_⟩
      rw [Function.update_self]
      refine ⟨rfl, by rw [Function.update_of_ne hpq, Function.update_self], ?_⟩
      rw [Function.update_of_ne hpq, Function.update_self]
      apply hrest.congr
      intro r hr
      have hrq : r ≠ q := by
        rintro rfl
        exact hq hr
      have hrp : r ≠ p := by
        rintro rfl
        exact hp (List.mem_cons_of_mem _ hr)
      rw [Function.update_of_ne hrq, Function.update_of_ne hrp]
  | cons c front ih =>
      obtain ⟨hstart, hitem, hrest⟩ := h
      obtain ⟨hc, hnodup⟩ := List.nodup_cons.mp hnodup
      have hcq : c.1 ≠ q := by
        rintro heq
        exact hc (by simp [heq])
      have hcp : c.1 ≠ p := by
        rintro heq
        exact hp (heq ▸ List.mem_cons_self)
      have hsame : Function.update (Function.update heap p ⟨a, (heap q).next⟩) q
          ⟨(heap q).item, some p⟩ c.1 = heap c.1 := by
        rw [Function.update_of_ne hcq, Function.update_of_ne hcp]
      refine ⟨hstart, by rw [hsame, hitem], ?_⟩
      rw [hsame]
      exact ih hrest hnodup fun hmem => hp (List.mem_cons_of_mem _ hmem)

/-- An insertion at a link puts the cell between those before the link and those behind it. -/
theorem Has.insertAt (h : l.Has (front ++ back)) (hnodup : (addrs (front ++ back)).Nodup)
    (hp : p ∉ addrs (front ++ back)) (a : α) :
    (l.insertAt (linkBehind front) p a).Has (front ++ (p, a) :: back) := by
  rcases List.eq_nil_or_concat' front with rfl | ⟨front, c, rfl⟩
  · refine ⟨rfl, by simp [HeapList.insertAt, redirect, linkBehind_nil], ?_⟩
    simp only [HeapList.insertAt, redirect, linkBehind_nil, Function.update_self]
    apply Leads.congr h
    intro r hr
    apply Function.update_of_ne
    rintro rfl
    exact hp hr
  · rw [Has, List.append_assoc] at h
    rw [List.append_assoc] at hnodup hp ⊢
    have hcp : c.1 ≠ p := by
      rintro heq
      exact hp (by simp [addrs, ← heq])
    have hafter := @leads_insert α l.heap l.head front back p a c.1 c.2 h hnodup hp
    rw [linkBehind_snoc, Has]
    simp only [HeapList.insertAt, redirect, HeapList.follow, Function.update_of_ne hcp]
    exact hafter

end Leads

end HeapList

structure CellMemory (α : Type) where
  heap : Ptr → Option (Cell α)
  head : Option Ptr

namespace CellMemory

open HeapList (addrs)

variable {α : Type}

def setNext (m : CellMemory α) (q : Ptr) (p : Option Ptr) : Option (CellMemory α) :=
  (m.heap q).map fun c => { m with heap := Function.update m.heap q (some ⟨c.item, p⟩) }

def setLink (m : CellMemory α) (p : Option Ptr) : Option Ptr → Option (CellMemory α)
  | none => some { m with head := p }
  | some q => m.setNext q p

def free (m : CellMemory α) (p : Ptr) : CellMemory α :=
  { m with heap := Function.update m.heap p none }

def malloc (m : CellMemory α) (p : Ptr) (a : α) : CellMemory α :=
  { m with heap := Function.update m.heap p (some ⟨a, none⟩) }

def Chain (heap : Ptr → Option (Cell α)) : Option Ptr → List (Ptr × α) → Prop
  | start, [] => start = none
  | start, c :: cs => start = some c.1 ∧ ∃ next, heap c.1 = some ⟨c.2, next⟩ ∧ Chain heap next cs

structure Lists (m : CellMemory α) (cells : List (Ptr × α)) : Prop where
  chain : Chain m.heap m.head cells
  nodup : (addrs cells).Nodup

def lastAddr (cells : List (Ptr × α)) : Option Ptr := cells.getLast?.map Prod.fst

section Chain

variable {heap heap' : Ptr → Option (Cell α)} {start : Option Ptr} {m : CellMemory α}
  {cells front back rest : List (Ptr × α)} {p q : Ptr} {a : α}

theorem Chain.congr (h : Chain heap start cells) (hsame : ∀ p ∈ addrs cells, heap' p = heap p) :
    Chain heap' start cells := by
  induction cells generalizing start with
  | nil => exact h
  | cons c cells ih =>
      obtain ⟨hstart, next, hcell, hrest⟩ := h
      refine ⟨hstart, next, ?_, ih hrest fun p hp => hsame p (List.mem_cons_of_mem _ hp)⟩
      rw [hsame c.1 List.mem_cons_self, hcell]

theorem Chain.allocated (h : Chain heap start cells) (hp : p ∈ addrs cells) : heap p ≠ none := by
  induction cells generalizing start with
  | nil => cases hp
  | cons c cells ih =>
      obtain ⟨_, next, hcell, hrest⟩ := h
      rcases List.mem_cons.mp hp with rfl | hp
      · rw [hcell]
        exact Option.some_ne_none _
      · exact ih hrest hp

theorem Chain.cell {c : Ptr × α} (h : Chain heap start (front ++ c :: back)) :
    ∃ next, heap c.1 = some ⟨c.2, next⟩ ∧ Chain heap next back := by
  induction front generalizing start with
  | nil => exact h.2
  | cons d front ih =>
      obtain ⟨_, next, _, hrest⟩ := h
      exact ih hrest

/-- A cell that is made to point elsewhere leads there, behind the cells before it. -/
theorem Chain.update {c : Ptr × α} {next : Option Ptr} (h : Chain heap start (front ++ c :: back))
    (hnodup : (addrs (front ++ [c])).Nodup) (hrest : Chain heap next rest) (hc : c.1 ∉ addrs rest) :
    Chain (Function.update heap c.1 (some ⟨c.2, next⟩)) start (front ++ c :: rest) := by
  induction front generalizing start with
  | nil =>
      refine ⟨h.1, next, by rw [Function.update_self], ?_⟩
      apply hrest.congr
      intro p hp
      apply Function.update_of_ne
      rintro rfl
      exact hc hp
  | cons d front ih =>
      obtain ⟨hstart, after, hcell, htail⟩ := h
      obtain ⟨hd, hnodup⟩ := List.nodup_cons.mp hnodup
      have hne : d.1 ≠ c.1 := by
        intro heq
        exact hd (by simp [heq])
      refine ⟨hstart, after, ?_, ih htail hnodup⟩
      rw [Function.update_of_ne hne, hcell]

theorem lastAddr_snoc (front : List (Ptr × α)) (c : Ptr × α) : lastAddr (front ++ [c]) = some c.1 := by
  simp [lastAddr]

theorem setLink_chain {next : Option Ptr} (h : Chain m.heap m.head (front ++ back))
    (hnodup : (addrs front).Nodup) (hrest : Chain m.heap next rest)
    (hdisjoint : ∀ p ∈ addrs front, p ∉ addrs rest) :
    ∃ m', m.setLink next (lastAddr front) = some m' ∧ Chain m'.heap m'.head (front ++ rest) ∧
      ∀ p, p ∉ addrs front → m'.heap p = m.heap p := by
  rcases List.eq_nil_or_concat' front with rfl | ⟨front, c, rfl⟩
  · exact ⟨_, rfl, hrest, fun _ _ => rfl⟩
  · rw [List.append_assoc] at h
    obtain ⟨_, hcell, _⟩ := Chain.cell h
    have hc : c.1 ∈ addrs (front ++ [c]) := by simp [addrs]
    refine ⟨{ m with heap := Function.update m.heap c.1 (some ⟨c.2, next⟩) }, ?_, ?_, ?_⟩
    · rw [lastAddr_snoc, setLink, setNext, hcell, Option.map_some]
    · rw [List.append_assoc]
      exact Chain.update h hnodup hrest (hdisjoint c.1 hc)
    · intro p hp
      apply Function.update_of_ne
      rintro rfl
      exact hp hc

theorem Lists.malloc (h : m.Lists cells) (hp : m.heap p = none) :
    (m.malloc p a).Lists cells ∧ p ∉ addrs cells ∧ (m.malloc p a).heap p = some ⟨a, none⟩ := by
  have hfresh : p ∉ addrs cells := fun hmem => h.chain.allocated hmem hp
  refine ⟨⟨?_, h.nodup⟩, hfresh, Function.update_self ..⟩
  apply h.chain.congr
  intro q hq
  apply Function.update_of_ne
  rintro rfl
  exact hfresh hq

end Chain

end CellMemory

end P2PFFmpeg.Library
