import P2PFFmpeg.Library.Transition
import Mathlib.Logic.Function.Basic

namespace P2PFFmpeg.Library.Monitor

open Transition

variable {τ σ ω ε ρ : Type}

/-- What a lock section ends with: the state, whether it has signalled the
condition to all, and a result, or nothing when it waits. -/
structure Outcome (σ ρ : Type) where
  state : σ
  wakes : Bool
  ret : Option ρ

/-- The code of the requests: the section from the call on, and the one from a
wait on. Environments carry what the calls in a section return; a thread waits
while its request is blocked. -/
structure Code (σ ω ε ρ : Type) where
  enter : ε → ω → σ → Outcome σ ρ
  resume : ε → ω → σ → Outcome σ ρ
  blocked : σ → ω → Prop

structure Threads (τ σ ω : Type) where
  shared : σ
  waiting : τ → Option (ω × Bool)

inductive Label (τ ω ε : Type)
  | enter (t : τ) (w : ω) (env : ε)
  | resume (t : τ) (env : ε)
  | spurious (t : τ)

variable [DecidableEq τ]

def Threads.after (s : Threads τ σ ω) (t : τ) (w : ω) (o : Outcome σ ρ) : Threads τ σ ω where
  shared := o.state
  waiting u :=
    if u = t then (if o.ret.isNone then some (w, false) else none)
    else (s.waiting u).map fun p => (p.1, p.2 || o.wakes)

def Code.section (C : Code σ ω ε ρ) (s : Threads τ σ ω) :
    Label τ ω ε → Option (τ × ω × Outcome σ ρ)
  | .enter t w env => if (s.waiting t).isNone then some (t, w, C.enter env w s.shared) else none
  | .resume t env =>
      match s.waiting t with
      | some (w, true) => some (t, w, C.resume env w s.shared)
      | _ => none
  | .spurious _ => none

def Threads.wake (s : Threads τ σ ω) (t : τ) : Threads τ σ ω :=
  { s with waiting := Function.update s.waiting t ((s.waiting t).map fun p => (p.1, true)) }

def Code.next (C : Code σ ω ε ρ) (s : Threads τ σ ω) : Label τ ω ε → Option (Threads τ σ ω)
  | .spurious t => some (s.wake t)
  | l => (C.section s l).map fun r => s.after r.1 r.2.1 r.2.2

/-- Any threads, each lock section one step; a thread may make the requests that
are its own. A wake-up may be spurious. -/
def Code.system (C : Code σ ω ε ρ) (start : σ) (may : τ → ω → Bool) :
    System (Threads τ σ ω) (Label τ ω ε) where
  init s := s = ⟨start, fun _ => none⟩
  next s l :=
    match l with
    | .enter t w _ => if may t w then C.next s l else none
    | _ => C.next s l

def Code.observe {O : Type} (C : Code σ ω ε ρ) (seen : ω → ρ → List O) (s : Threads τ σ ω)
    (l : Label τ ω ε) : List O :=
  match C.section s l with
  | some (_, w, o) => (o.ret.map (seen w)).getD []
  | none => []

section Steps

variable {C : Code σ ω ε ρ} {start : σ} {may : τ → ω → Bool} {s s' : Threads τ σ ω}
  {l : Label τ ω ε} {t : τ} {w : ω}

/-- What a step is: a section of a thread that is in no other, or a wake-up. -/
theorem Code.next_cases (hn : (C.system start may).next s l = some s') :
    (∃ t, l = .spurious t ∧ s' = s.wake t) ∨
      ∃ t w env o, C.section s l = some (t, w, o) ∧ s' = s.after t w o ∧
        ((l = .enter t w env ∧ s.waiting t = none ∧ may t w = true ∧ o = C.enter env w s.shared) ∨
          (l = .resume t env ∧ s.waiting t = some (w, true) ∧ o = C.resume env w s.shared)) := by
  cases l with
  | spurious t => exact .inl ⟨t, rfl, (Option.some.inj hn).symm⟩
  | enter t w env =>
      simp only [Code.system, Code.next, Code.section] at hn ⊢
      split at hn
      · next hmay =>
          by_cases hfree : (s.waiting t).isNone = true
          · rw [if_pos hfree] at hn ⊢
            exact .inr ⟨t, w, env, _, rfl, (Option.some.inj hn).symm,
              .inl ⟨rfl, Option.isNone_iff_eq_none.mp hfree, hmay, rfl⟩⟩
          · rw [if_neg hfree] at hn
            cases hn
      · cases hn
  | resume t env =>
      simp only [Code.system, Code.next, Code.section] at hn ⊢
      split at hn
      · next w hw => exact .inr ⟨t, w, env, _, rfl, (Option.some.inj hn).symm, .inr ⟨rfl, hw, rfl⟩⟩
      · cases hn

theorem wake_waiting {u : τ} {woken : Bool} (h : (s.wake t).waiting u = some (w, woken)) :
    ∃ was, s.waiting u = some (w, was) ∧ (woken = false → was = false) := by
  simp only [Threads.wake] at h
  by_cases hu : u = t
  · subst hu
    rw [Function.update_self] at h
    obtain ⟨⟨w', was⟩, hwas, heq⟩ := Option.map_eq_some_iff.mp h
    cases heq
    exact ⟨was, hwas, by simp⟩
  · rw [Function.update_of_ne hu] at h
    exact ⟨woken, h, id⟩

theorem after_waiting {o : Outcome σ ρ} {u : τ} {w' : ω} {woken : Bool}
    (h : (s.after t w o).waiting u = some (w', woken)) : (u = t ∧ w' = w ∧ o.ret = none) ∨
      (u ≠ t ∧ ∃ was, s.waiting u = some (w', was) ∧
        (woken = false → was = false ∧ o.wakes = false)) := by
  simp only [Threads.after] at h
  by_cases hu : u = t
  · rw [if_pos hu] at h
    split at h
    · next hret =>
        cases h
        exact .inl ⟨hu, rfl, Option.isNone_iff_eq_none.mp hret⟩
    · cases h
  · rw [if_neg hu] at h
    obtain ⟨⟨w'', was⟩, hwas, heq⟩ := Option.map_eq_some_iff.mp h
    cases heq
    exact .inr ⟨hu, was, hwas, fun hwoken => Bool.or_eq_false_iff.mp hwoken⟩

/-- The rules for the shared state: the sections keep an invariant of it, a
section waits only when its request is blocked, and one that signals nobody
unblocks no request of another thread. -/
structure Code.Signals (C : Code σ ω ε ρ) (may : τ → ω → Bool) (I : σ → Prop) : Prop where
  enter : ∀ env t w x, may t w = true → I x → I (C.enter env w x).state
  resume : ∀ env t w x, may t w = true → I x → I (C.resume env w x).state
  enterWaits : ∀ env w x, I x → (C.enter env w x).ret = none → C.blocked (C.enter env w x).state w
  resumeWaits : ∀ env w x, I x → (C.resume env w x).ret = none →
    C.blocked (C.resume env w x).state w
  enterSilent : ∀ env t u w w' x, I x → t ≠ u → may t w = true → may u w' = true →
    (C.enter env w x).wakes = false → C.blocked x w' → C.blocked (C.enter env w x).state w'
  resumeSilent : ∀ env t u w w' x, I x → t ≠ u → may t w = true → may u w' = true →
    (C.resume env w x).wakes = false → C.blocked x w' → C.blocked (C.resume env w x).state w'

/-- No signal is missed: the threads that wait make requests of their own, and
those that have not been woken are blocked. -/
structure Code.Quiet (C : Code σ ω ε ρ) (may : τ → ω → Bool) (I : σ → Prop)
    (s : Threads τ σ ω) : Prop where
  shared : I s.shared
  own : ∀ t w woken, s.waiting t = some (w, woken) → may t w = true
  blocked : ∀ t w, s.waiting t = some (w, false) → C.blocked s.shared w

variable {I : σ → Prop}

theorem Code.Quiet.wake (h : C.Quiet may I s) (t : τ) : C.Quiet may I (s.wake t) where
  shared := h.shared
  own := by
    intro u w woken hu
    obtain ⟨was, hwas, _⟩ := wake_waiting hu
    exact h.own u w was hwas
  blocked := by
    intro u w hu
    obtain ⟨was, hwas, hstill⟩ := wake_waiting hu
    rw [hstill rfl] at hwas
    exact h.blocked u w hwas

theorem Code.Quiet.after (h : C.Quiet may I s) {o : Outcome σ ρ} (hmay : may t w = true)
    (hI : I o.state) (hwaits : o.ret = none → C.blocked o.state w)
    (hsilent : ∀ u w', t ≠ u → may u w' = true → o.wakes = false → C.blocked s.shared w' →
      C.blocked o.state w') : C.Quiet may I (s.after t w o) where
  shared := hI
  own := by
    intro u w' woken hu
    obtain ⟨rfl, rfl, _⟩ | ⟨_, was, hwas, _⟩ := after_waiting hu
    · exact hmay
    · exact h.own u w' was hwas
  blocked := by
    intro u w' hu
    obtain ⟨rfl, rfl, hret⟩ | ⟨hne, was, hwas, hstill⟩ := after_waiting hu
    · exact hwaits hret
    · obtain ⟨rfl, hwakes⟩ := hstill rfl
      exact hsilent u w' hne.symm (h.own u w' false hwas) hwakes (h.blocked u w' hwas)

theorem Code.Signals.quiet (hC : C.Signals may I) (hstart : I start)
    (h : (C.system start may).Reachable s) : C.Quiet may I s := by
  refine System.Reachable.invariant (C.Quiet may I) ?_ ?_ h
  · intro s hs
    obtain rfl : s = ⟨start, fun _ => none⟩ := hs
    exact ⟨hstart, by simp, by simp⟩
  · intro s l s' _ hs hn
    obtain ⟨t, rfl, rfl⟩ | ⟨t, w, env, o, _, rfl, ⟨rfl, _, hmay, rfl⟩ | ⟨rfl, hw, rfl⟩⟩ :=
      Code.next_cases hn
    · exact hs.wake t
    · exact hs.after hmay (hC.enter env t w s.shared hmay hs.shared)
        (hC.enterWaits env w s.shared hs.shared)
        fun u w' hne hu => hC.enterSilent env t u w w' s.shared hs.shared hne hmay hu
    · have hmay := hs.own t w true hw
      exact hs.after hmay (hC.resume env t w s.shared hmay hs.shared)
        (hC.resumeWaits env w s.shared hs.shared)
        fun u w' hne hu => hC.resumeSilent env t u w w' s.shared hs.shared hne hmay hu

end Steps

/-- A run without end in which a thread that stays woken takes its step at some
time. -/
structure FairRun (S : System (Threads τ σ ω) (Label τ ω ε)) where
  state : Nat → Threads τ σ ω
  label : Nat → Label τ ω ε
  init : S.init (state 0)
  step : ∀ n, S.next (state n) (label n) = some (state (n + 1))
  fair : ∀ t k, (∀ n, k ≤ n → ∃ w, (state n).waiting t = some (w, true)) →
    ∃ n env, k ≤ n ∧ label n = .resume t env

omit [DecidableEq τ] in
theorem FairRun.reachable {S : System (Threads τ σ ω) (Label τ ω ε)} (r : FairRun S) (n : Nat) :
    S.Reachable (r.state n) := by
  induction n with
  | zero => exact .init r.init
  | succ n ih => exact ih.step (r.step n)

theorem Code.Signals.no_endless_wait {C : Code σ ω ε ρ} {start : σ} {may : τ → ω → Bool}
    {I : σ → Prop} (hC : C.Signals may I) (hstart : I start)
    (hreturns : ∀ env w x, ¬ C.blocked x w → (C.resume env w x).ret ≠ none)
    (r : FairRun (C.system start may)) (t : τ) (k : Nat) :
    ¬ ∀ n, k ≤ n → ∃ w woken, (r.state n).waiting t = some (w, woken) ∧
      ¬ C.blocked (r.state n).shared w := by
  intro hwaits
  have hwoken : ∀ n, k ≤ n → ∃ w, (r.state n).waiting t = some (w, true) := by
    intro n hn
    obtain ⟨w, woken, hw, hfree⟩ := hwaits n hn
    cases woken with
    | true => exact ⟨w, hw⟩
    | false => exact absurd ((hC.quiet hstart (r.reachable n)).blocked t w hw) hfree
  obtain ⟨n, env, hn, hlabel⟩ := r.fair t k hwoken
  obtain ⟨w, woken, hw, hfree⟩ := hwaits n hn
  obtain ⟨_, _, hafter, _⟩ := hwaits (n + 1) (Nat.le_succ_of_le hn)
  -- its step ends the wait
  have hnext := r.step n
  rw [hlabel] at hnext
  obtain ⟨_, hl, _⟩ | ⟨u, w', env', o, _, hs', ⟨hl, _⟩ | ⟨hl, hu, ho⟩⟩ := Code.next_cases hnext
  · cases hl
  · cases hl
  · cases hl
    rw [hw] at hu
    cases hu
    rw [hs', Threads.after] at hafter
    have hret : o.ret.isNone = false := by
      rw [Option.isNone_eq_false_iff, Option.isSome_iff_ne_none, ho]
      exact hreturns env w _ hfree
    simp [hret] at hafter

end P2PFFmpeg.Library.Monitor
