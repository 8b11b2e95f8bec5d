import Mathlib.Order.Lattice
import Mathlib.Data.List.Basic

namespace P2PFFmpeg.Library.Selection

variable {α β : Type} [LinearOrder β] {score : α → β} {l : List α} {x y : α} {floor : β}

def better (score : α → β) (best : Option α × β) (x : α) : Option α × β :=
  if best.2 < score x then (some x, score x) else best

def pick (score : α → β) (floor : β) (l : List α) : Option α := (l.foldl (better score) (none, floor)).1

def FirstMax (score : α → β) (l : List α) (x : α) : Prop :=
  ∃ before after, l = before ++ x :: after ∧ (∀ y ∈ before, score y < score x) ∧
    ∀ y ∈ after, score y ≤ score x

theorem FirstMax.mem (h : FirstMax score l x) : x ∈ l := by
  obtain ⟨before, after, rfl, -, -⟩ := h
  exact List.mem_append_right before (List.mem_cons_self ..)

theorem FirstMax.le (h : FirstMax score l x) (hy : y ∈ l) : score y ≤ score x := by
  obtain ⟨before, after, rfl, hbefore, hafter⟩ := h
  obtain hy | hy := List.mem_append.mp hy
  · exact le_of_lt (hbefore y hy)
  · obtain rfl | hy := List.mem_cons.mp hy
    · exact le_refl _
    · exact hafter y hy

theorem FirstMax.cons (h : FirstMax score l x) (hy : score y < score x) : FirstMax score (y :: l) x := by
  obtain ⟨before, after, rfl, hbefore, hafter⟩ := h
  refine ⟨y :: before, after, rfl, fun z hz => ?_, hafter⟩
  obtain rfl | hz := List.mem_cons.mp hz
  · exact hy
  · exact hbefore z hz

theorem exists_firstMax (score : α → β) (hl : l ≠ []) : ∃ x, FirstMax score l x := by
  induction l with
  | nil => exact absurd rfl hl
  | cons y l ih =>
      by_cases hnil : l = []
      · subst hnil
        exact ⟨y, [], [], rfl, fun z hz => absurd hz List.not_mem_nil, fun z hz => absurd hz List.not_mem_nil⟩
      · obtain ⟨x, hx⟩ := ih hnil
        by_cases hlt : score y < score x
        · exact ⟨x, hx.cons hlt⟩
        · exact ⟨y, [], l, rfl, fun z hz => absurd hz List.not_mem_nil,
            fun z hz => le_trans (hx.le hz) (not_lt.mp hlt)⟩

theorem FirstMax.unique (hx : FirstMax score l x) (hy : FirstMax score l y) : x = y := by
  induction l with
  | nil => exact absurd hx.mem List.not_mem_nil
  | cons z l ih =>
      obtain ⟨before, after, hl, hbefore, hafter⟩ := hx
      obtain ⟨before', after', hl', hbefore', hafter'⟩ := hy
      cases before with
      | nil =>
          cases before' with
          | nil =>
              obtain ⟨rfl, -⟩ := List.cons.inj hl
              exact (List.cons.inj hl').1
          | cons w before' =>
              obtain ⟨rfl, rfl⟩ := List.cons.inj hl
              obtain ⟨rfl, hrest⟩ := List.cons.inj hl'
              have hlt := hbefore' z (List.mem_cons_self ..)
              have hle := hafter y (hrest ▸ List.mem_append_right before' (List.mem_cons_self ..))
              exact absurd hlt (not_lt.mpr hle)
      | cons v before =>
          obtain ⟨rfl, hrest⟩ := List.cons.inj hl
          cases before' with
          | nil =>
              obtain ⟨rfl, rfl⟩ := List.cons.inj hl'
              have hlt := hbefore z (List.mem_cons_self ..)
              have hle := hafter' x (hrest ▸ List.mem_append_right before (List.mem_cons_self ..))
              exact absurd hlt (not_lt.mpr hle)
          | cons w before' =>
              obtain ⟨rfl, hrest'⟩ := List.cons.inj hl'
              exact ih ⟨before, after, hrest, fun u hu => hbefore u (List.mem_cons_of_mem _ hu), hafter⟩
                ⟨before', after', hrest', fun u hu => hbefore' u (List.mem_cons_of_mem _ hu), hafter'⟩

/-- What the search ends with: the best so far, if nothing beats it, or the first maximum. -/
theorem foldl_better (l : List α) (best : Option α × β) :
    l.foldl (better score) best = best ∧ (∀ y ∈ l, score y ≤ best.2) ∨
      ∃ x, l.foldl (better score) best = (some x, score x) ∧ best.2 < score x ∧ FirstMax score l x := by
  induction l generalizing best with
  | nil => exact .inl ⟨rfl, fun y hy => absurd hy List.not_mem_nil⟩
  | cons z l ih =>
      rw [List.foldl_cons]
      by_cases hz : best.2 < score z
      · have hround : better score best z = (some z, score z) := if_pos hz
        rw [hround]
        obtain ⟨hsame, hle⟩ | ⟨x, hpick, hlt, hmax⟩ := ih (some z, score z)
        · exact .inr ⟨z, hsame, hz, [], l, rfl, fun y hy => absurd hy List.not_mem_nil, hle⟩
        · exact .inr ⟨x, hpick, lt_trans hz hlt, hmax.cons hlt⟩
      · have hround : better score best z = best := if_neg hz
        rw [hround]
        obtain ⟨hsame, hle⟩ | ⟨x, hpick, hlt, hmax⟩ := ih best
        · refine .inl ⟨hsame, fun y hy => ?_⟩
          obtain rfl | hy := List.mem_cons.mp hy
          · exact not_lt.mp hz
          · exact hle y hy
        · exact .inr ⟨x, hpick, hlt, hmax.cons (lt_of_le_of_lt (not_lt.mp hz) hlt)⟩

theorem pick_eq_some_iff : pick score floor l = some x ↔ floor < score x ∧ FirstMax score l x := by
  obtain ⟨hsame, hle⟩ | ⟨y, hpick, hlt, hmax⟩ := @foldl_better α β _ score l (none, floor)
  · rw [pick, hsame]
    constructor
    · intro h
      cases h
    · rintro ⟨hlt, hmax⟩
      exact absurd (hle x hmax.mem) (not_le.mpr hlt)
  · rw [pick, hpick]
    constructor
    · rintro ⟨⟩
      exact ⟨hlt, hmax⟩
    · rintro ⟨-, hmax'⟩
      exact congrArg some (hmax.unique hmax')

theorem pick_eq_none_iff : pick score floor l = none ↔ ∀ y ∈ l, score y ≤ floor := by
  obtain ⟨hsame, hle⟩ | ⟨y, hpick, hlt, hmax⟩ := @foldl_better α β _ score l (none, floor)
  · rw [pick, hsame]
    exact ⟨fun _ => hle, fun _ => rfl⟩
  · rw [pick, hpick]
    constructor
    · intro h
      cases h
    · intro hle
      exact absurd (hle y hmax.mem) (not_le.mpr hlt)

/-- The search ends with an element that meets a condition if and only if one such element
beats the floor, is before no better one that fails the condition, and behind no equal one. -/
theorem pick_mem_iff (P : α → Prop) [DecidablePred P] : (∃ x, pick score floor l = some x ∧ P x) ↔
    ∃ before x after, l = before ++ x :: after ∧ P x ∧ floor < score x ∧
      (∀ y ∈ before, ¬ P y → score y < score x) ∧ ∀ y ∈ after, ¬ P y → score y ≤ score x := by
  constructor
  · rintro ⟨x, hpick, hx⟩
    obtain ⟨hfloor, before, after, rfl, hbefore, hafter⟩ := pick_eq_some_iff.mp hpick
    exact ⟨before, x, after, rfl, hx, hfloor, fun y hy _ => hbefore y hy, fun y hy _ => hafter y hy⟩
  · rintro ⟨before, x, after, rfl, hx, hfloor, hbefore, hafter⟩
    obtain ⟨w, hw⟩ := exists_firstMax score (show before ++ x :: after ≠ [] by simp)
    have hxw := hw.le (List.mem_append_right before (List.mem_cons_self (a := x) (l := after)))
    refine ⟨w, pick_eq_some_iff.mpr ⟨lt_of_lt_of_le hfloor hxw, hw⟩, ?_⟩
    by_contra hPw
    obtain ⟨front, back, hl, hfront, -⟩ := hw
    obtain ⟨gap, hgap, hrest⟩ | ⟨gap, hgap, hrest⟩ := List.append_eq_append_iff.mp hl
    · -- the first maximum is not behind the element
      cases gap with
      | nil =>
          obtain ⟨rfl, -⟩ := List.cons.inj hrest
          exact hPw hx
      | cons v gap =>
          obtain ⟨rfl, -⟩ := List.cons.inj hrest
          have hin : x ∈ front := hgap ▸ List.mem_append_right before (List.mem_cons_self ..)
          obtain hmem | hmem := List.mem_append.mp (show w ∈ before ++ x :: after by rw [hl]; simp)
          · exact absurd hxw (not_le.mpr (hbefore w hmem hPw))
          · obtain rfl | hmem := List.mem_cons.mp hmem
            · exact hPw hx
            · exact absurd (hfront x hin) (not_lt.mpr (hafter w hmem hPw))
    · cases gap with
      | nil =>
          obtain ⟨rfl, -⟩ := List.cons.inj hrest
          exact hPw hx
      | cons v gap =>
          obtain ⟨rfl, -⟩ := List.cons.inj hrest
          have hin : w ∈ before := hgap ▸ List.mem_append_right front (List.mem_cons_self ..)
          exact absurd hxw (not_le.mpr (hbefore w hin hPw))

end P2PFFmpeg.Library.Selection
