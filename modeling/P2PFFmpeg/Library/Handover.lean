import Mathlib.Data.List.Basic

namespace P2PFFmpeg.Library.Handover

structure Protocol (μ α : Type) where
  header : μ → Prop
  item : μ → Option α
  apart : ∀ m, header m → item m = none

variable {μ α : Type} (P : Protocol μ α)

def Protocol.Led : List μ → Prop
  | [] => True
  | m :: ms => P.header m ∨ (P.item m = none ∧ Protocol.Led ms)

def Protocol.items (channel : List μ) : List α := channel.filterMap P.item

/-- A hand over in progress: the items put in so far are those taken out so far
and those under way, and a far end that is not ready gets a header first. -/
structure Delivered (put taken : List α) (opened ready : Prop) (channel : List μ) : Prop where
  complete : put = taken ++ P.items channel
  led : ready ∨ P.Led channel
  opened : opened → ready ∨ ∃ m ∈ channel, P.header m

variable {P} {put taken : List α} {opened ready : Prop} {m : μ} {channel new : List μ}

theorem led_append (h : P.Led channel) (hnew : P.Led new) : P.Led (channel ++ new) := by
  induction channel with
  | nil => exact hnew
  | cons m ms ih =>
      rcases h with hm | ⟨hm, hms⟩
      · exact Or.inl hm
      · exact Or.inr ⟨hm, ih hms⟩

theorem led_append_of_header (h : P.Led channel) (hm : ∃ m ∈ channel, P.header m) :
    P.Led (channel ++ new) := by
  induction channel with
  | nil =>
      obtain ⟨m, hmem, _⟩ := hm
      exact absurd hmem List.not_mem_nil
  | cons m ms ih =>
      rcases h with hhead | ⟨hitem, hms⟩
      · exact Or.inl hhead
      · obtain ⟨k, hk, hheader⟩ := hm
        rcases List.mem_cons.mp hk with rfl | hk
        · exact Or.inl hheader
        · exact Or.inr ⟨hitem, ih hms ⟨k, hk, hheader⟩⟩

theorem led_of_no_item (h : ∀ m ∈ new, P.item m = none) : P.Led new := by
  induction new with
  | nil => trivial
  | cons m ms ih =>
      exact Or.inr ⟨h m List.mem_cons_self, ih fun k hk => h k (List.mem_cons_of_mem _ hk)⟩

theorem delivered_nil (h : ¬ opened) : Delivered P [] [] opened ready [] where
  complete := rfl
  led := Or.inr trivial
  opened := fun ho => absurd ho h

theorem Delivered.send {opened' : Prop} (h : Delivered P put taken opened ready channel)
    (hnew : ∀ m ∈ new, P.item m = none) (ho : opened' → opened ∨ ∃ m ∈ new, P.header m) :
    Delivered P put taken opened' ready (channel ++ new) where
  complete := by
    have hnone : P.items new = [] := List.filterMap_eq_nil_iff.mpr hnew
    rw [h.complete, Protocol.items, Protocol.items, List.filterMap_append]
    change _ = taken ++ (_ ++ P.items new)
    rw [hnone, List.append_nil]
  led := h.led.imp id fun hled => led_append hled (led_of_no_item hnew)
  opened := by
    intro hopened
    rcases ho hopened with hold | ⟨m, hm, hheader⟩
    · rcases h.opened hold with hready | ⟨m, hm, hheader⟩
      · exact Or.inl hready
      · exact Or.inr ⟨m, List.mem_append_left new hm, hheader⟩
    · exact Or.inr ⟨m, List.mem_append_right channel hm, hheader⟩

variable {ready' : Prop} {x : α}

theorem Delivered.send_item {opened' : Prop} (h : Delivered P put taken opened ready channel)
    (ho : opened) (hm : P.item m = some x) :
    Delivered P (put ++ [x]) taken opened' ready (channel ++ [m]) where
  complete := by
    rw [h.complete, Protocol.items, Protocol.items, List.filterMap_append]
    simp [hm]
  led := by
    rcases h.opened ho with hready | hheader
    · exact Or.inl hready
    · exact h.led.imp id fun hled => led_append_of_header hled hheader
  opened := by
    intro _
    rcases h.opened ho with hready | ⟨k, hk, hheader⟩
    · exact Or.inl hready
    · exact Or.inr ⟨k, List.mem_append_left [m] hk, hheader⟩

/-- A message that is no item is taken out; a header makes the far end ready. -/
theorem Delivered.take (h : Delivered P put taken opened ready (m :: channel)) (hm : P.item m = none)
    (hr : ready → ready') (hheader : P.header m → ready') : Delivered P put taken opened ready' channel where
  complete := by
    rw [h.complete, Protocol.items, List.filterMap_cons_none hm]
    rfl
  led := by
    rcases h.led with hready | hhead | ⟨_, hled⟩
    · exact Or.inl (hr hready)
    · exact Or.inl (hheader hhead)
    · exact Or.inr hled
  opened := by
    intro hopened
    rcases h.opened hopened with hready | ⟨k, hk, hkheader⟩
    · exact Or.inl (hr hready)
    · rcases List.mem_cons.mp hk with rfl | hk
      · exact Or.inl (hheader hkheader)
      · exact Or.inr ⟨k, hk, hkheader⟩

theorem Delivered.ready_of_item (h : Delivered P put taken opened ready (m :: channel))
    (hm : P.item m = some x) : ready := by
  rcases h.led with hready | hhead | ⟨hnone, _⟩
  · exact hready
  · rw [P.apart m hhead] at hm
    cases hm
  · rw [hnone] at hm
    cases hm

theorem Delivered.take_item (h : Delivered P put taken opened ready (m :: channel))
    (hm : P.item m = some x) (hr : ready → ready') :
    Delivered P put (taken ++ [x]) opened ready' channel where
  complete := by
    rw [h.complete, Protocol.items, List.filterMap_cons_some hm, List.append_assoc]
    rfl
  led := Or.inl (hr (h.ready_of_item hm))
  opened := fun _ => Or.inl (hr (h.ready_of_item hm))

theorem Delivered.mono (h : Delivered P put taken opened ready channel) (hr : ready → ready') :
    Delivered P put taken opened ready' channel where
  complete := h.complete
  led := h.led.imp hr id
  opened := fun ho => (h.opened ho).imp hr id

end P2PFFmpeg.Library.Handover
