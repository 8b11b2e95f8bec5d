import Mathlib.Logic.Function.Basic

namespace P2PFFmpeg.Library

structure Mutex (τ : Type) where
  holder : Option τ
  acquired : τ → Nat
  released : τ → Nat

namespace Mutex

variable {τ : Type} [DecidableEq τ]

def free : Mutex τ := ⟨none, fun _ => 0, fun _ => 0⟩

def acquire (m : Mutex τ) (p : τ) : Option (Mutex τ) :=
  if m.holder = none then
    some { m with holder := some p, acquired := Function.update m.acquired p (m.acquired p + 1) }
  else none

theorem holder_acquire {m m' : Mutex τ} {p : τ} (h : m.acquire p = some m') : m'.holder = some p := by
  rw [acquire] at h
  split at h
  · cases h
    rfl
  · cases h

def release (m : Mutex τ) (p : τ) : Mutex τ :=
  { m with holder := none, released := Function.update m.released p (m.released p + 1) }

/-- The threads that hold the lock are the ones that think so, and each has
released it once for every time it acquired it, but for the last. -/
structure Owned (m : Mutex τ) (holds : τ → Bool) : Prop where
  holder : ∀ p, m.holder = some p ↔ holds p = true
  count : ∀ p, m.acquired p = m.released p + (holds p).toNat

omit [DecidableEq τ] in
theorem Owned.congr {m : Mutex τ} {holds holds' : τ → Bool} (h : m.Owned holds)
    (he : ∀ p, holds' p = holds p) : m.Owned holds' := by
  rwa [funext he]

omit [DecidableEq τ] in
theorem owned_free : (free : Mutex τ).Owned fun _ => false where
  holder := by simp [free]
  count := fun _ => rfl

theorem Owned.acquire {m m' : Mutex τ} {holds : τ → Bool} {p : τ} (h : m.Owned holds)
    (ha : m.acquire p = some m') : m'.Owned (Function.update holds p true) := by
  rw [Mutex.acquire] at ha
  split at ha
  · next hfree =>
      cases ha
      have hnone : ∀ q, holds q = false := by
        intro q
        cases hq : holds q with
        | false => rfl
        | true =>
            rw [(h.holder q).mpr hq] at hfree
            cases hfree
      constructor
      · intro q
        by_cases hq : q = p
        · simp [hq]
        · simp [Function.update_of_ne hq, hnone q, Ne.symm hq]
      · intro q
        have hcount := h.count q
        by_cases hq : q = p
        · subst hq
          simp only [Function.update_self, Bool.toNat_true]
          rw [hcount, hnone q]
          rfl
        · simpa only [Function.update_of_ne hq] using hcount
  · cases ha

theorem Owned.release {m : Mutex τ} {holds : τ → Bool} {p : τ} (h : m.Owned holds)
    (hp : holds p = true) : (m.release p).Owned (Function.update holds p false) := by
  have hholder := (h.holder p).mpr hp
  constructor
  · intro q
    by_cases hq : q = p
    · simp [Mutex.release, hq]
    · have hnot : ¬ holds q = true := by
        intro hq'
        have hsame := (h.holder q).mpr hq'
        rw [hholder] at hsame
        exact hq (Option.some.inj hsame).symm
      simp [Mutex.release, Function.update_of_ne hq, hnot]
  · intro q
    have hcount := h.count q
    by_cases hq : q = p
    · subst hq
      simp only [Mutex.release, Function.update_self, Bool.toNat_false]
      rw [hcount, hp]
      rfl
    · simpa only [Mutex.release, Function.update_of_ne hq] using hcount

end Mutex

end P2PFFmpeg.Library
