import Mathlib.Data.List.Basic
import Mathlib.Algebra.Group.Int.Defs
import Mathlib.Algebra.Group.Nat.Defs
import Mathlib.Tactic.Common

namespace P2PFFmpeg.Util

/-- A string of C, without its NUL. -/
structure CString where
  bytes : List UInt8
  noNul : 0 ∉ bytes
  fits : bytes.length < 2 ^ 63

/-- Memory: the limit of av_max_alloc, and whether the C library has a block of a
size. It has none of half the addresses or more. -/
structure Allocator where
  maxAllocSize : Nat
  grants : Nat → Bool
  bounded : ∀ size, grants size = true → size < 2 ^ 63

def Allocator.avMalloc (mem : Allocator) (size : Nat) : Bool :=
  if size > mem.maxAllocSize then false
  else mem.grants size || size == 0 && decide (1 ≤ mem.maxAllocSize) && mem.grants 1

def strchr {α : Type} [BEq α] (s : List α) (c : α) : Option Nat := s.findIdx? (· == c)

def avTolower (c : UInt8) : UInt8 := if 65 ≤ c ∧ c ≤ 90 then c ^^^ 0x20 else c

def avStrncasecmp : List UInt8 → List UInt8 → Nat → Int
  | _, _, 0 => 0
  | a, b, n + 1 =>
      let c1 := avTolower (a.headD 0)
      let c2 := avTolower (b.headD 0)
      if n ≠ 0 ∧ c1 ≠ 0 ∧ c1 = c2 then avStrncasecmp a.tail b.tail n
      else (c1.toNat : Int) - c2.toNat

theorem Allocator.avMalloc_huge (mem : Allocator) {size : Nat} (h : 2 ^ 63 ≤ size) : mem.avMalloc size = false := by
  have hno : mem.grants size = false := by
    by_contra hgranted
    exact absurd (mem.bounded size ((Bool.not_eq_false _).mp hgranted)) (Nat.not_lt.mpr h)
  have hpos : (size == 0) = false := beq_eq_false_iff_ne.mpr (by omega)
  unfold avMalloc
  rw [hno, hpos]
  exact ite_self false

section Search

variable {α : Type} [DecidableEq α] {s : List α} {c : α} {i : Nat}

theorem strchr_eq_none : strchr s c = none ↔ c ∉ s := by
  rw [strchr, List.findIdx?_eq_none_iff]
  simp only [beq_eq_false_iff_ne]
  exact ⟨fun h hmem => h c hmem rfl, fun h x hx hxc => h (hxc ▸ hx)⟩

theorem strchr_eq_some (h : strchr s c = some i) :
    i < s.length ∧ c ∉ s.take i ∧ s = s.take i ++ c :: s.drop (i + 1) := by
  rw [strchr, List.findIdx?_eq_some_iff_getElem] at h
  obtain ⟨hlt, hc, hfirst⟩ := h
  refine ⟨hlt, fun hmem => ?_, ?_⟩
  · obtain ⟨j, hj, hget⟩ := List.mem_iff_getElem.mp hmem
    rw [List.length_take] at hj
    rw [List.getElem_take] at hget
    exact hfirst j (by omega) (beq_iff_eq.mpr hget)
  · rw [← eq_of_beq hc, List.getElem_cons_drop, List.take_append_drop]

theorem strchr_behind {pre : List α} (h : c ∉ pre) (post : List α) : strchr (pre ++ c :: post) c = some pre.length := by
  have hnone : pre.findIdx? (· == c) = none := strchr_eq_none.mpr h
  rw [strchr, List.findIdx?_append, hnone, List.findIdx?_cons, if_pos (beq_self_eq_true c)]
  simp

theorem strchr_takeWhile (h : strchr s c = some i) : s.takeWhile (· ≠ c) = s.take i := by
  obtain ⟨-, hfirst, hs⟩ := strchr_eq_some h
  have hpass : ∀ x ∈ s.take i, decide (x ≠ c) = true := fun x hx => decide_eq_true fun hxc => hfirst (hxc ▸ hx)
  conv_lhs => rw [hs]
  rw [List.takeWhile_append_of_pos hpass, List.takeWhile_cons_of_neg (by simp), List.append_nil]

theorem strchr_dropWhile (h : strchr s c = some i) : (s.dropWhile (· ≠ c)).tail = s.drop (i + 1) := by
  obtain ⟨-, hfirst, hs⟩ := strchr_eq_some h
  have hpass : ∀ x ∈ s.take i, decide (x ≠ c) = true := fun x hx => decide_eq_true fun hxc => hfirst (hxc ▸ hx)
  conv_lhs => rw [hs]
  rw [List.dropWhile_append_of_pos hpass, List.dropWhile_cons_of_neg (by simp), List.tail_cons]

theorem strchr_take {n : Nat} (h : strchr s c = some i) : strchr (s.take n) c = if i < n then some i else none := by
  obtain ⟨hlt, hfirst, hs⟩ := strchr_eq_some h
  split
  · next hin =>
      rw [strchr, List.findIdx?_eq_some_iff_getElem] at h ⊢
      obtain ⟨_, hc, hbefore⟩ := h
      refine ⟨by rw [List.length_take]; omega, by rwa [List.getElem_take], fun j hj => ?_⟩
      rw [List.getElem_take]
      exact hbefore j hj
  · next hout =>
      rw [strchr_eq_none]
      intro hmem
      exact hfirst (List.take_subset_take_left s (Nat.not_lt.mp hout) hmem)

end Search

theorem of_mem_splitOn {s part : List UInt8} {c : UInt8} (h : part ∈ s.splitOn c) : c ∉ part ∧ part ⊆ s := by
  induction s generalizing part with
  | nil =>
      rw [List.splitOn_nil, List.mem_singleton] at h
      subst h
      exact ⟨List.not_mem_nil, List.nil_subset _⟩
  | cons x s ih =>
      rw [List.splitOn_cons_eq_if_modifyHead] at h
      split at h
      · obtain rfl | hmem := List.mem_cons.mp h
        · exact ⟨List.not_mem_nil, List.nil_subset _⟩
        · exact ⟨(ih hmem).1, List.subset_cons_of_subset x (ih hmem).2⟩
      · next hx =>
          cases hparts : s.splitOn c with
          | nil => exact absurd hparts (List.splitOn_ne_nil c s)
          | cons first parts =>
              rw [hparts] at h ih
              obtain rfl | hmem := List.mem_cons.mp h
              · obtain ⟨hout, hsub⟩ := ih List.mem_cons_self
                refine ⟨?_, List.cons_subset_cons x hsub⟩
                rw [List.mem_cons, not_or]
                exact ⟨fun hcx => hx (beq_iff_eq.mpr hcx.symm), hout⟩
              · obtain ⟨hout, hsub⟩ := ih (List.mem_cons_of_mem _ hmem)
                exact ⟨hout, List.subset_cons_of_subset x hsub⟩

section Lower

theorem avTolower_cases (c : UInt8) : avTolower c = c ∨ 65 ≤ c ∧ c ≤ 90 ∧ 97 ≤ avTolower c := by
  have htable : ∀ n : Fin 256, avTolower (UInt8.ofNat n) = UInt8.ofNat n ∨
      65 ≤ UInt8.ofNat n ∧ UInt8.ofNat n ≤ 90 ∧ 97 ≤ avTolower (UInt8.ofNat n) := by
    decide +kernel
  have hc := htable ⟨c.toNat, c.toNat_lt⟩
  rwa [UInt8.ofNat_toNat] at hc

theorem avTolower_eq_iff {c d : UInt8} (hd : d < 65) : avTolower c = d ↔ c = d := by
  obtain hsame | ⟨hlow, -, hhigh⟩ := avTolower_cases c
  · rw [hsame]
  · refine iff_of_false ?_ ?_
    · rintro rfl
      exact absurd (UInt8.le_trans hhigh (UInt8.le_of_lt hd)) (by decide)
    · rintro rfl
      exact absurd hlow (UInt8.not_le.mpr hd)

theorem mem_map_avTolower {s : List UInt8} {d : UInt8} (hd : d < 65) : d ∈ s.map avTolower ↔ d ∈ s := by
  rw [List.mem_map]
  constructor
  · rintro ⟨c, hc, hlower⟩
    exact (avTolower_eq_iff hd).mp hlower ▸ hc
  · intro hmem
    exact ⟨d, hmem, (avTolower_eq_iff hd).mpr rfl⟩

theorem avStrncasecmp_eq_zero {a b : List UInt8} {n : Nat} (ha : n ≤ a.length) (hb : n ≤ b.length) (hnul : 0 ∉ a) :
    avStrncasecmp a b n = 0 ↔ (a.take n).map avTolower = (b.take n).map avTolower := by
  induction n generalizing a b with
  | zero => simp [avStrncasecmp]
  | succ n ih =>
      cases a with
      | nil => exact absurd ha (Nat.not_succ_le_zero n)
      | cons x a =>
          cases b with
          | nil => exact absurd hb (Nat.not_succ_le_zero n)
          | cons y b =>
              rw [List.mem_cons, not_or] at hnul
              have hne : avTolower x ≠ 0 := fun hzero => hnul.1 ((avTolower_eq_iff (by decide)).mp hzero).symm
              have hrest := ih (Nat.le_of_succ_le_succ ha) (Nat.le_of_succ_le_succ hb) hnul.2
              rw [List.take_succ_cons, List.take_succ_cons, List.map_cons, List.map_cons, List.cons.injEq, ← hrest]
              change (if n ≠ 0 ∧ avTolower x ≠ 0 ∧ avTolower x = avTolower y then avStrncasecmp a b n
                else ((avTolower x).toNat : Int) - (avTolower y).toNat) = 0 ↔ _
              by_cases hsame : avTolower x = avTolower y
              · by_cases hlast : n = 0
                · subst hlast
                  simp [hsame, avStrncasecmp]
                · rw [if_pos ⟨hlast, hne, hsame⟩, and_iff_right hsame]
              · rw [if_neg fun h => hsame h.2.2]
                refine iff_of_false (fun hzero => hsame ?_) fun h => hsame h.1
                rw [← UInt8.toNat_inj]
                omega

end Lower

end P2PFFmpeg.Util
