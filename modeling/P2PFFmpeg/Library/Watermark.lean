import Mathlib.Order.Lattice

namespace P2PFFmpeg.Library.Watermark

variable {ι T : Type}

structure Lowest [LinearOrder T] (members : ι → Prop) (mark : ι → Option T) (head : ι) : Prop where
  member : members head
  least : ∃ low, mark head = some low ∧ ∀ i, members i → ∃ t, mark i = some t ∧ low ≤ t

def descend (below : ι → ι → Bool) (is : List ι) (head : ι) : ι :=
  is.foldl (fun h i => if below i h then i else h) head

section Order

variable [LinearOrder T] {members : ι → Prop} {mark mark' : ι → Option T} {head : ι}

theorem Lowest.rise (h : Lowest members mark head) (hhead : mark' head = mark head)
    (hrise : ∀ i t, members i → mark i = some t → ∃ t', mark' i = some t' ∧ t ≤ t') :
    Lowest members mark' head where
  member := h.member
  least := by
    obtain ⟨low, hlow, hleast⟩ := h.least
    refine ⟨low, hhead.trans hlow, ?_⟩
    intro i hi
    obtain ⟨t, ht, hle⟩ := hleast i hi
    obtain ⟨t', ht', hle'⟩ := hrise i t hi ht
    exact ⟨t', ht', hle.trans hle'⟩

structure Below (members : ι → Prop) (mark : ι → Option T) (below : ι → ι → Bool) (is : List ι) :
    Prop where
  lower : ∀ i ∈ is, ∀ h low, members h → mark h = some low → below i h = true →
    members i ∧ ∃ t, mark i = some t ∧ t < low
  least : ∀ i ∈ is, ∀ h low t, members h → mark h = some low → members i → mark i = some t →
    below i h = false → low ≤ t

theorem Below.tail {below : ι → ι → Bool} {i : ι} {is : List ι}
    (h : Below members mark below (i :: is)) : Below members mark below is where
  lower j hj := h.lower j (List.mem_cons_of_mem i hj)
  least j hj := h.least j (List.mem_cons_of_mem i hj)

variable {below : ι → ι → Bool}

theorem descend_lower {is : List ι} (hbelow : Below members mark below is) (hhead : members head)
    {low : T} (hlow : mark head = some low) :
    members (descend below is head) ∧ ∃ t, mark (descend below is head) = some t ∧ t ≤ low ∧
      ∀ i ∈ is, ∀ u, members i → mark i = some u → t ≤ u := by
  induction is generalizing head low with
  | nil => exact ⟨hhead, low, hlow, le_rfl, by simp⟩
  | cons i is ih =>
      simp only [descend, List.foldl_cons]
      cases hless : below i head with
      | true =>
          obtain ⟨hi, t, ht, hlt⟩ := hbelow.lower i List.mem_cons_self head low hhead hlow hless
          obtain ⟨hmember, v, hv, hle, hall⟩ := ih hbelow.tail hi ht
          refine ⟨hmember, v, hv, hle.trans hlt.le, ?_⟩
          intro j hj u hmem hu
          cases hj with
          | head =>
              rw [ht] at hu
              cases hu
              exact hle
          | tail _ hj => exact hall j hj u hmem hu
      | false =>
          obtain ⟨hmember, v, hv, hle, hall⟩ := ih hbelow.tail hhead hlow
          refine ⟨hmember, v, hv, hle, ?_⟩
          intro j hj u hmem hu
          cases hj with
          | head => exact hle.trans (hbelow.least i List.mem_cons_self head low u hhead hlow hmem hu hless)
          | tail _ hj => exact hall j hj u hmem hu

theorem descend_lowest {is : List ι} (hbelow : Below members mark below is)
    (hall : ∀ i, members i → i ∈ is ∧ ∃ t, mark i = some t) (hhead : members head) :
    Lowest members mark (descend below is head) := by
  obtain ⟨_, low, hlow⟩ := hall head hhead
  obtain ⟨hmember, t, ht, _, hleast⟩ := descend_lower hbelow hhead hlow
  refine ⟨hmember, t, ht, ?_⟩
  intro i hi
  obtain ⟨hmem, u, hu⟩ := hall i hi
  exact ⟨u, hu, hleast i hmem u hi hu⟩

end Order

end P2PFFmpeg.Library.Watermark
