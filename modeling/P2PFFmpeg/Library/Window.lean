import Mathlib.Data.List.Sort

namespace P2PFFmpeg.Library.Window

variable {α : Type} [LinearOrder α] {seen rest : List α} {m x : α}

structure Keeps (seen kept : List α) : Prop where
  increasing : kept.Pairwise (· < ·)
  seen : ∀ y ∈ kept, y ∈ seen

theorem increasing_insert (h : rest.Pairwise (· < ·)) (hx : x ∉ rest) :
    (rest.orderedInsert (· ≤ ·) x).Pairwise (· < ·) := by
  have hle : (rest.orderedInsert (· ≤ ·) x).Pairwise (· ≤ ·) :=
    List.Pairwise.orderedInsert x rest (h.imp le_of_lt)
  have hnodup : (rest.orderedInsert (· ≤ ·) x).Nodup := by
    rw [(List.perm_orderedInsert (· ≤ ·) x rest).nodup_iff, List.nodup_cons]
    exact ⟨hx, h.imp ne_of_lt⟩
  exact (hle.and hnodup).imp fun ⟨hle, hne⟩ => lt_of_le_of_ne hle hne

/-- A new entry that is below few of those seen is above the smallest in the window. -/
theorem Keeps.least_lt (h : Keeps seen (m :: rest)) (hx : x ∉ seen)
    (hfew : (seen.filter (x < ·)).length ≤ rest.length) : m < x := by
  by_contra hnot
  have hne : x ≠ m := fun heq => hx (heq ▸ h.seen m List.mem_cons_self)
  have hbelow : x < m := lt_of_le_of_ne (not_lt.mp hnot) hne
  have habove : m :: rest ⊆ seen.filter (x < ·) := by
    intro y hy
    refine List.mem_filter.mpr ⟨h.seen y hy, decide_eq_true ?_⟩
    obtain rfl | hy := List.mem_cons.mp hy
    · exact hbelow
    · exact hbelow.trans ((List.pairwise_cons.mp h.increasing).1 y hy)
  have hnodup : (m :: rest).Nodup := h.increasing.imp ne_of_lt
  have hlength := (List.subperm_of_subset hnodup habove).length_le
  rw [List.length_cons] at hlength
  omega

theorem Keeps.push (h : Keeps seen (m :: rest)) (hx : x ∉ seen) :
    Keeps (seen ++ [x]) (rest.orderedInsert (· ≤ ·) x) where
  increasing := by
    refine increasing_insert (List.pairwise_cons.mp h.increasing).2 fun hmem => hx ?_
    exact h.seen x (List.mem_cons_of_mem m hmem)
  seen y hy := by
    rw [List.mem_append, List.mem_singleton]
    obtain rfl | hy := (List.mem_orderedInsert (· ≤ ·)).mp hy
    · exact .inr rfl
    · exact .inl (h.seen y (List.mem_cons_of_mem m hy))

theorem Keeps.lt_push (h : Keeps seen (m :: rest)) (hlt : m < x) :
    ∀ y ∈ rest.orderedInsert (· ≤ ·) x, m < y := by
  intro y hy
  obtain rfl | hy := (List.mem_orderedInsert (· ≤ ·)).mp hy
  · exact hlt
  · exact (List.pairwise_cons.mp h.increasing).1 y hy

/-- A window is never empty, and its first entry is not above the new one. -/
theorem exists_insert_eq (x : α) (rest : List α) : ∃ y kept,
    rest.orderedInsert (· ≤ ·) x = y :: kept ∧ kept.length = rest.length ∧ y ≤ x := by
  cases rest with
  | nil => exact ⟨x, [], rfl, rfl, le_rfl⟩
  | cons z rest =>
      by_cases hle : x ≤ z
      · exact ⟨x, z :: rest, List.orderedInsert_cons_of_le (· ≤ ·) rest hle, rfl, le_rfl⟩
      · refine ⟨z, rest.orderedInsert (· ≤ ·) x, List.orderedInsert_of_not_le (· ≤ ·) rest hle,
          ?_, le_of_not_ge hle⟩
        rw [List.orderedInsert_length, List.length_cons]

end P2PFFmpeg.Library.Window
