import Mathlib.Data.List.Basic

/-! A section of code that several threads run: the one that finds a resource
not set up sets it up, and then everyone uses it. Setting it up and using it
take time, from a begin to an end. -/

namespace P2PFFmpeg.Library.LazySection

inductive Pc
  | test
  | beginSetUp
  | endSetUp
  | setReady
  | beginUse
  | endUse
  | leave
deriving DecidableEq, Repr

inductive Mark
  | setUp (ok : Bool)
  | use
deriving DecidableEq, Repr

structure Shared (τ : Type) where
  ready : Bool
  busy : List τ
  log : List Mark

variable {τ : Type}

def start : Shared τ := ⟨false, [], []⟩

section Advance

variable [DecidableEq τ]

/-- The step of a thread in the section; `ok` is whether a set-up that ends now
has succeeded. -/
def advance (t : τ) (ok : Bool) (m : Shared τ) : Pc → Shared τ × Pc
  | .test => (m, if m.ready then .beginUse else .beginSetUp)
  | .beginSetUp => ({ m with busy := t :: m.busy }, .endSetUp)
  | .endSetUp =>
      ({ m with busy := m.busy.erase t, log := m.log ++ [.setUp ok] }, if ok then .setReady else .leave)
  | .setReady => ({ m with ready := true }, .beginUse)
  | .beginUse => ({ m with busy := t :: m.busy, log := m.log ++ [.use] }, .endUse)
  | .endUse => ({ m with busy := m.busy.erase t }, .leave)
  | .leave => (m, .leave)

end Advance

def setUps (log : List Mark) : List Mark := log.filter (· = .setUp true)

def SetUpFirst (log : List Mark) : Prop :=
  ∀ n, log[n]? = some .use → .setUp true ∈ log.take n

def busyOf : Option (τ × Pc) → List τ
  | some (t, .endSetUp) => [t]
  | some (t, .endUse) => [t]
  | _ => []

def settingReady : Option (τ × Pc) → Bool
  | some (_, .setReady) => true
  | _ => false

def readyAt (ready : Bool) : Pc → Prop
  | .beginSetUp => ready = false
  | .endSetUp => ready = false
  | .setReady => ready = false
  | .beginUse => ready = true
  | .endUse => ready = true
  | _ => True

/-- What the one thread in the section has made of the resource, if there is a
thread in it. -/
structure Consistent (m : Shared τ) (occupant : Option (τ × Pc)) : Prop where
  busy : m.busy = busyOf occupant
  ready : ∀ t pc, occupant = some (t, pc) → readyAt m.ready pc
  once : (setUps m.log).length = if m.ready || settingReady occupant then 1 else 0
  first : SetUpFirst m.log

theorem consistent_start : Consistent (start : Shared τ) none where
  busy := rfl
  ready := by
    intro t pc h
    cases h
  once := rfl
  first := by
    intro n h
    cases h

section

variable {m : Shared τ} {t : τ}

theorem Consistent.alone {occupant : Option (τ × Pc)} (h : Consistent m occupant) : m.busy.length ≤ 1 := by
  rw [h.busy]
  unfold busyOf
  split <;> simp

theorem Consistent.atMostOnce {occupant : Option (τ × Pc)} (h : Consistent m occupant) :
    (setUps m.log).length ≤ 1 := by
  rw [h.once]
  split <;> simp

theorem Consistent.enter (h : Consistent m none) : Consistent m (some (t, .test)) where
  busy := h.busy
  ready := by
    intro _ _ heq
    cases heq
    trivial
  once := h.once
  first := h.first

theorem Consistent.leave (h : Consistent m (some (t, .leave))) : Consistent m none where
  busy := h.busy
  ready := by
    intro _ _ heq
    cases heq
  once := h.once
  first := h.first

theorem mem_of_setUps {log : List Mark} (h : (setUps log).length = 1) : .setUp true ∈ log := by
  obtain ⟨mark, hmark⟩ := List.length_eq_one_iff.mp h
  have hmem : mark ∈ setUps log := by simp [hmark]
  obtain ⟨hlog, heq⟩ := List.mem_filter.mp hmem
  obtain rfl := of_decide_eq_true heq
  exact hlog

theorem SetUpFirst.snoc {log : List Mark} {mark : Mark} (h : SetUpFirst log)
    (hmark : mark = .use → .setUp true ∈ log) : SetUpFirst (log ++ [mark]) := by
  intro n hn
  by_cases hlt : n < log.length
  · rw [List.getElem?_append_left hlt] at hn
    rw [List.take_append_of_le_length (Nat.le_of_lt hlt)]
    exact h n hn
  · rw [List.getElem?_append_right (Nat.not_lt.mp hlt)] at hn
    obtain ⟨rfl⟩ := List.mem_singleton.mp (List.mem_of_getElem? hn)
    apply List.mem_of_mem_take (i := log.length)
    rw [List.take_take, Nat.min_eq_left (Nat.not_lt.mp hlt), List.take_left]
    exact hmark rfl

theorem setUps_snoc (log : List Mark) (mark : Mark) :
    (setUps (log ++ [mark])).length = (setUps log).length + if mark = .setUp true then 1 else 0 := by
  by_cases h : mark = .setUp true <;> simp [setUps, h]

variable [DecidableEq τ]

theorem Consistent.advance {pc : Pc} (h : Consistent m (some (t, pc))) (ok : Bool) :
    Consistent (advance t ok m pc).1 (some (t, (advance t ok m pc).2)) := by
  have hbusy := h.busy
  have hready := h.ready t pc rfl
  have honce := h.once
  cases pc with
  | test =>
      cases hr : m.ready with
      | true =>
          refine ⟨?_, ?_, ?_, h.first⟩
          · simpa [LazySection.advance, hr, busyOf] using hbusy
          · intro _ _ heq
            simp only [LazySection.advance, hr, if_true] at heq
            cases heq
            exact hr
          · simpa [LazySection.advance, hr, settingReady] using honce
      | false =>
          refine ⟨?_, ?_, ?_, h.first⟩
          · simpa [LazySection.advance, hr, busyOf] using hbusy
          · intro _ _ heq
            simp only [LazySection.advance, hr] at heq
            cases heq
            exact hr
          · simpa [LazySection.advance, hr, settingReady] using honce
  | beginSetUp =>
      refine ⟨?_, ?_, honce, h.first⟩
      · simp [LazySection.advance, hbusy, busyOf]
      · intro _ _ heq
        cases heq
        exact hready
  | endSetUp =>
      have hr : m.ready = false := hready
      rw [hr] at honce
      refine ⟨?_, ?_, ?_, h.first.snoc (by simp)⟩
      · cases ok <;> simp [LazySection.advance, hbusy, busyOf]
      · intro _ _ heq
        cases ok <;> cases heq
        · trivial
        · exact hready
      · have hmark := setUps_snoc m.log (.setUp ok)
        rw [honce] at hmark
        cases ok <;> simpa [LazySection.advance, settingReady, hr] using hmark
  | setReady =>
      refine ⟨hbusy, ?_, ?_, h.first⟩
      · intro _ _ heq
        cases heq
        rfl
      · simpa [LazySection.advance, settingReady] using honce
  | beginUse =>
      have hr : m.ready = true := hready
      rw [hr] at honce
      refine ⟨?_, ?_, ?_, h.first.snoc fun _ => mem_of_setUps honce⟩
      · simp [LazySection.advance, hbusy, busyOf]
      · intro _ _ heq
        cases heq
        exact hready
      · have hmark := setUps_snoc m.log .use
        rw [honce] at hmark
        simpa [LazySection.advance, hr] using hmark
  | endUse =>
      refine ⟨?_, ?_, honce, h.first⟩
      · simp [LazySection.advance, hbusy, busyOf]
      · intro _ _ heq
        cases heq
        trivial
  | leave => exact h

end

end P2PFFmpeg.Library.LazySection
