import Mathlib.Data.List.Basic

namespace P2PFFmpeg.Library.ByteFile

variable {α : Type} [Inhabited α]

def pwrite (f : List α) (pos : Nat) (data : List α) : List α :=
  if data = [] then f
  else (f ++ List.replicate (pos - f.length) default).take pos ++ data ++ f.drop (pos + data.length)

variable {f data a b : List α} {pos i j m : Nat}

@[simp] theorem pwrite_nil : pwrite f pos [] = f := if_pos rfl

theorem getElem?_pwrite (h : data ≠ []) : (pwrite f pos data)[j]? =
      if j < pos then (if j < f.length then f[j]? else some default)
      else if j < pos + data.length then data[j - pos]? else f[j]? := by
  have hlen : ((f ++ List.replicate (pos - f.length) (default : α)).take pos).length = pos := by
    simp only [List.length_take, List.length_append, List.length_replicate]
    omega
  rw [pwrite, if_neg h, List.append_assoc, List.getElem?_append, hlen]
  split
  · rename_i hj
    rw [List.getElem?_take_of_lt hj, List.getElem?_append]
    split
    · rfl
    · rw [List.getElem?_replicate, if_pos (by omega)]
  · rename_i hj
    rw [List.getElem?_append]
    split
    · rw [if_pos (by omega)]
    · rw [if_neg (by omega), List.getElem?_drop]
      congr 1
      omega

theorem length_pwrite (h : pos ≤ f.length) :
    (pwrite f pos data).length = max f.length (pos + data.length) := by
  by_cases hd : data = []
  · simp [hd, h]
  · simp only [pwrite, if_neg hd, List.length_append, List.length_take, List.length_replicate,
      List.length_drop]
    omega

/-- Two writes, the second of which begins inside or right behind the first, are one. -/
theorem pwrite_pwrite (h : i ≤ a.length) :
    pwrite (pwrite f pos a) (pos + i) b = pwrite f pos (pwrite a i b) := by
  by_cases hb : b = []
  · simp [hb]
  by_cases ha : a = []
  · subst ha
    obtain rfl : i = 0 := Nat.le_zero.mp h
    rw [pwrite_nil, Nat.add_zero]
    congr 1
    simp [pwrite, hb]
  have hab : pwrite a i b ≠ [] := by
    intro hnil
    have hlen := @length_pwrite α _ a b i h
    rw [hnil, List.length_nil] at hlen
    have hpos := List.length_pos_iff.mpr ha
    omega
  have hapos := List.length_pos_iff.mpr ha
  have hfa : (pwrite f pos a).length = max f.length (pos + a.length) := by
    simp only [pwrite, if_neg ha, List.length_append, List.length_take, List.length_replicate,
      List.length_drop]
    omega
  refine List.ext_getElem? fun j => ?_
  rw [getElem?_pwrite hb, getElem?_pwrite hab, getElem?_pwrite ha, hfa, length_pwrite h,
    getElem?_pwrite hb]
  obtain hj | hj | hj | hj : j < pos ∨ pos ≤ j ∧ j < pos + i ∨ pos + i ≤ j ∧ j < pos + i + b.length ∨
      pos + i + b.length ≤ j := by omega
  · rw [if_pos (by omega), if_pos (by omega)]
    split
    · rfl
    · omega
  · rw [if_pos (by omega), if_pos (by omega), if_neg (by omega), if_pos (by omega), if_neg (by omega),
      if_pos (by omega), if_pos (by omega), if_pos (by omega)]
  · rw [if_neg (by omega), if_pos hj.2, if_neg (by omega), if_pos (by omega), if_neg (by omega),
      if_pos (by omega), Nat.sub_add_eq]
  · have h1 : ¬ j < pos + i := by omega
    have h2 : ¬ j < pos := by omega
    have h3 : ¬ j - pos < i := by omega
    have h4 : ¬ j - pos < i + b.length := by omega
    have h5 : ¬ j < pos + i + b.length := by omega
    by_cases hja : j < pos + a.length
    · have h6 : j < pos + max a.length (i + b.length) := by omega
      simp only [h1, h2, h3, h4, h5, h6, hja, if_true, if_false]
    · have h6 : ¬ j < pos + max a.length (i + b.length) := by omega
      simp only [h1, h2, h5, h6, hja, if_false]

theorem take_pwrite_end (h : pos ≤ f.length) :
    (pwrite f pos data).take (pos + data.length) = f.take pos ++ data := by
  by_cases hd : data = []
  · subst hd
    rw [pwrite_nil, List.length_nil, Nat.add_zero, List.append_nil]
  · rw [pwrite, if_neg hd, show pos - f.length = 0 by omega, List.replicate_zero, List.append_nil]
    exact List.take_left' (by rw [List.length_append, List.length_take, Nat.min_eq_left h])

theorem take_pwrite (hpos : pos ≤ m) (hm : m ≤ f.length) (hfit : pos + data.length ≤ f.length) :
    (pwrite f pos data).take (max m (pos + data.length)) = pwrite (f.take m) pos data := by
  by_cases hd : data = []
  · subst hd
    simp only [pwrite_nil, List.length_nil, Nat.add_zero, Nat.max_eq_left hpos]
  refine List.ext_getElem? fun j => ?_
  rw [getElem?_pwrite hd, List.getElem?_take, getElem?_pwrite hd, List.length_take,
    List.getElem?_take, Nat.min_eq_left hm]
  obtain hj | hj | hj : j < pos ∨ pos ≤ j ∧ j < pos + data.length ∨ pos + data.length ≤ j := by omega
  · rw [if_pos (by omega), if_pos hj, if_pos hj, if_pos (by omega), if_pos (by omega), if_pos (by omega)]
  · rw [if_pos (by omega), if_neg (by omega), if_pos hj.2, if_neg (by omega), if_pos hj.2]
  · have h1 : ¬ j < pos := by omega
    have h2 : ¬ j < pos + data.length := by omega
    by_cases hjm : j < m
    · have h3 : j < max m (pos + data.length) := by omega
      simp only [h1, h2, h3, hjm, if_true, if_false]
    · have h3 : ¬ j < max m (pos + data.length) := by omega
      simp only [h1, h2, h3, hjm, if_false]

end P2PFFmpeg.Library.ByteFile
