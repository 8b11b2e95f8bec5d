import Mathlib.Logic.Relation
import Mathlib.Data.List.Basic

namespace P2PFFmpeg.Library.Transition

variable {σ τ Label : Type}

/-- A transition system whose nondeterminism is carried by the labels: a label
that is not enabled in a state has no successor. -/
structure System (σ Label : Type) where
  init : σ → Prop
  next : σ → Label → Option σ

def System.run (S : System σ Label) : List Label → σ → Option σ
  | [], s => some s
  | l :: ls, s => (S.next s l).bind (S.run ls)

inductive System.Run (S : System σ Label) (s₀ : σ) : List Label → σ → Prop
  | nil : Run S s₀ [] s₀
  | snoc {ls s l t} : Run S s₀ ls s → S.next s l = some t → Run S s₀ (ls ++ [l]) t

def System.Reachable (S : System σ Label) (s : σ) : Prop :=
  ∃ s₀ ls, S.init s₀ ∧ S.Run s₀ ls s

/-- The runs all of whose steps meet a condition on the label and on the state
before the step. -/
noncomputable def System.restrict (S : System σ Label) (C : σ → Label → Prop) : System σ Label where
  init := S.init
  next s l := open Classical in if C s l then S.next s l else none

variable {S : System σ Label} {C : σ → Label → Prop} {s t : σ} {ls : List Label} {l : Label}

theorem System.restrict_next : (S.restrict C).next s l = some t ↔ C s l ∧ S.next s l = some t := by
  by_cases h : C s l <;> simp [restrict, h]

/-- A restriction that can be run: the condition is checked at every step. -/
def System.guard (S : System σ Label) (check : σ → Label → Bool) : System σ Label where
  init := S.init
  next s l := if check s l then S.next s l else none

theorem System.guard_next {check : σ → Label → Bool} :
    (S.guard check).next s l = some t ↔ check s l = true ∧ S.next s l = some t := by
  cases h : check s l <;> simp [guard, h]

variable {ls ms : List Label} {s₀ s : σ}

theorem System.Run.trans {s t u : σ} (h : S.Run s ls t) (g : S.Run t ms u) : S.Run s (ls ++ ms) u := by
  induction g with
  | nil => simpa using h
  | snoc _ hn ih =>
      rw [← List.append_assoc]
      exact .snoc ih hn

theorem System.Run.of_run (h : S.run ls s = some t) : S.Run s ls t := by
  induction ls generalizing s with
  | nil =>
      cases h
      exact .nil
  | cons l ls ih =>
      obtain ⟨u, hu, ht⟩ := Option.bind_eq_some_iff.mp h
      exact (System.Run.snoc .nil hu).trans (ih ht)

theorem System.Reachable.of_run (hs : S.init s) (h : S.run ls s = some t) : S.Reachable t :=
  ⟨s, ls, hs, .of_run h⟩

theorem System.Reachable.init (h : S.init s) : S.Reachable s :=
  ⟨s, [], h, .nil⟩

theorem System.Reachable.step {S : System σ Label} {s t : σ} {l : Label}
    (h : S.Reachable s) (hn : S.next s l = some t) : S.Reachable t := by
  obtain ⟨s₀, ls, h₀, hr⟩ := h
  exact ⟨s₀, ls ++ [l], h₀, .snoc hr hn⟩

theorem System.Run.of_restrict (h : (S.restrict C).Run s ls t) : S.Run s ls t := by
  induction h with
  | nil => exact .nil
  | snoc _ hn ih => exact .snoc ih (restrict_next.mp hn).2

theorem System.Reachable.of_restrict (h : (S.restrict C).Reachable s) : S.Reachable s := by
  obtain ⟨s₀, ls, h₀, hr⟩ := h
  exact ⟨s₀, ls, h₀, hr.of_restrict⟩

theorem System.Run.of_guard {S : System σ Label} {C : σ → Label → Prop}
    {check : σ → Label → Bool} (hcheck : ∀ s l, check s l = true → C s l) {s t : σ}
    {ls : List Label} (h : (S.guard check).run ls s = some t) : (S.restrict C).Run s ls t := by
  have hrun := Run.of_run h
  clear h
  induction hrun with
  | nil => exact .nil
  | @snoc ls u l v _ hn ih =>
      obtain ⟨hc, hnext⟩ := guard_next.mp hn
      exact .snoc ih (restrict_next.mpr ⟨hcheck u l hc, hnext⟩)

theorem System.Reachable.of_guard {S : System σ Label} {C : σ → Label → Prop}
    {check : σ → Label → Bool} (hcheck : ∀ s l, check s l = true → C s l) {s t : σ}
    {ls : List Label} (hs : S.init s) (h : (S.guard check).run ls s = some t) :
    (S.restrict C).Reachable t := ⟨s, ls, hs, .of_guard hcheck h⟩

theorem System.Reachable.restrict_restrict {C D : σ → Label → Prop}
    (h : (S.restrict fun s l => C s l ∧ D s l).Reachable s) : ((S.restrict C).restrict D).Reachable s := by
  obtain ⟨s₀, ls, h₀, hrun⟩ := h
  refine ⟨s₀, ls, h₀, ?_⟩
  induction hrun with
  | nil => exact .nil
  | snoc _ hn ih =>
      obtain ⟨⟨hc, hd⟩, hn⟩ := restrict_next.mp hn
      exact .snoc ih (restrict_next.mpr ⟨hd, restrict_next.mpr ⟨hc, hn⟩⟩)

/-- The induction over a run, stated once: what holds initially and is kept by
every step from a reachable state holds in every reachable state. -/
theorem System.Reachable.invariant {S : System σ Label} (I : σ → Prop) (h₀ : ∀ s, S.init s → I s)
    (hstep : ∀ s l t, S.Reachable s → I s → S.next s l = some t → I t) {s : σ} (h : S.Reachable s) : I s := by
  obtain ⟨s₀, ls, hi, hr⟩ := h
  induction hr with
  | nil => exact h₀ s₀ hi
  | snoc hr hn ih => exact hstep _ _ _ ⟨s₀, _, hi, hr⟩ ih hn

/-- What every step of a run keeps holds at its end when it does at its start. -/
theorem System.Run.keeps {S : System σ Label} {I : σ → Prop} {s t : σ} {ls : List Label}
    (h : S.Run s ls t) (hstep : ∀ l ∈ ls, ∀ u v, I u → S.next u l = some v → I v) (hs : I s) : I t := by
  induction h with
  | nil => exact hs
  | @snoc ls u l v _ hn ih =>
      have hu := ih fun m hm => hstep m (List.mem_append_left [l] hm)
      exact hstep l (List.mem_append_right ls (List.mem_singleton_self l)) u v hu hn

theorem System.Reachable.unguard {check : σ → Label → Bool} (h : (S.guard check).Reachable s) :
    S.Reachable s := by
  refine @System.Reachable.invariant _ _ (S.guard check) S.Reachable (fun _ hs => .init hs) ?_ s h
  intro s l t _ ih hn
  exact ih.step (guard_next.mp hn).2

theorem System.Run.related {S : System σ Label} {R : σ → σ → Prop}
    (hrefl : ∀ s, R s s) (htrans : ∀ s t u, R s t → R t u → R s u)
    (hstep : ∀ s l t, S.next s l = some t → R s t)
    {s t : σ} {ls : List Label} (h : S.Run s ls t) : R s t := by
  induction h with
  | nil => exact hrefl s
  | snoc _ hn ih => exact htrans _ _ _ ih (hstep _ _ _ hn)

def System.Passes (S : System σ Label) (s₀ : σ) (ls : List Label) (s u : σ) (l : Label) (v : σ) :
    Prop :=
  ∃ before after, ls = before ++ l :: after ∧ S.Run s₀ before u ∧ S.next u l = some v ∧
    S.Run v after s

def System.Visits (S : System σ Label) (s₀ : σ) (ls : List Label) (s u : σ) : Prop :=
  ∃ before after, ls = before ++ after ∧ S.Run s₀ before u ∧ S.Run u after s

theorem System.run_append (S : System σ Label) (ls ms : List Label) (s : σ) :
    S.run (ls ++ ms) s = (S.run ls s).bind (S.run ms) := by
  induction ls generalizing s with
  | nil => rfl
  | cons l ls ih =>
      simp only [List.cons_append, run, Option.bind_assoc]
      congr
      funext t
      exact ih t

theorem System.Run.run_eq (h : S.Run s ls t) : S.run ls s = some t := by
  induction h with
  | nil => rfl
  | snoc _ hn ih => simp [run_append, ih, System.run, hn]

theorem System.Run.snoc_inv (h : S.Run s (ls ++ [l]) t) : ∃ u, S.Run s ls u ∧ S.next u l = some t := by
  have hrun := h.run_eq
  rw [run_append] at hrun
  obtain ⟨u, hu, hlast⟩ := Option.bind_eq_some_iff.mp hrun
  obtain ⟨v, hv, heq⟩ := Option.bind_eq_some_iff.mp hlast
  cases heq
  exact ⟨u, .of_run hu, hv⟩

/-- The last step of a run, from views of what the run gives without and with it. -/
theorem System.step_of_runs {α β : Type} {f : σ → α} {g : σ → β} {a : α} {b : β}
    (ha : (S.run ls s₀).map f = some a) (hb : (S.run (ls ++ [l]) s₀).map g = some b) :
    ∃ u v, S.Run s₀ ls u ∧ S.next u l = some v ∧ f u = a ∧ g v = b := by
  obtain ⟨u, hu, ha⟩ := Option.map_eq_some_iff.mp ha
  obtain ⟨v, hv, hb⟩ := Option.map_eq_some_iff.mp hb
  obtain ⟨w, hw, hn⟩ := (System.Run.of_run hv).snoc_inv
  obtain rfl : u = w := Option.some.inj (hu.symm.trans hw.run_eq)
  exact ⟨u, v, hw, hn, ha, hb⟩

theorem System.Run.split (h : S.Run s (ls ++ l :: ms) t) :
    ∃ u v, S.Run s ls u ∧ S.next u l = some v ∧ S.Run v ms t := by
  have hrun := h.run_eq
  rw [run_append] at hrun
  obtain ⟨u, hu, hrest⟩ := Option.bind_eq_some_iff.mp hrun
  obtain ⟨v, hv, hms⟩ := Option.bind_eq_some_iff.mp hrest
  exact ⟨u, v, .of_run hu, hv, .of_run hms⟩

/-- The steps of a run meet a condition when those before the last do and it does. -/
theorem System.Run.restrict_snoc {s₀ s t : σ} (hr : S.Run s₀ ls s) (hn : S.next s l = some t) :
    (S.restrict C).Run s₀ (ls ++ [l]) t ↔ (S.restrict C).Run s₀ ls s ∧ C s l := by
  constructor
  · intro h
    obtain ⟨u, hu, hlast⟩ := h.snoc_inv
    obtain rfl : u = s := Option.some.inj (hu.of_restrict.run_eq.symm.trans hr.run_eq)
    exact ⟨hu, (restrict_next.mp hlast).1⟩
  · rintro ⟨h, hc⟩
    exact .snoc h (restrict_next.mpr ⟨hc, hn⟩)

theorem System.Visits.of_run {s₀ s u : σ} (hu : S.run ls s₀ = some u) (hs : S.run (ls ++ ms) s₀ = some s) :
    S.Visits s₀ (ls ++ ms) s u := by
  rw [run_append, hu, Option.bind_some] at hs
  exact ⟨ls, ms, rfl, .of_run hu, .of_run hs⟩

theorem System.Passes.visits {s₀ s u v : σ} (h : S.Passes s₀ ls s u l v) : S.Visits s₀ ls s u := by
  obtain ⟨before, after, rfl, hb, hn, ha⟩ := h
  exact ⟨before, l :: after, rfl, hb, (Run.snoc .nil hn).trans ha⟩

theorem System.Passes.extend {s₀ s t u v : σ} (h : S.Passes s₀ ls s u l v) (g : S.Run s ms t) :
    S.Passes s₀ (ls ++ ms) t u l v := by
  obtain ⟨before, after, rfl, hb, hn, ha⟩ := h
  exact ⟨before, after ++ ms, by simp, hb, hn, ha.trans g⟩

/-- A run all of whose steps meet a condition is a run of the restriction. -/
theorem System.Run.restrict (h : S.Run s₀ ls s) (hc : ∀ u l v, S.Passes s₀ ls s u l v → C u l) :
    (S.restrict C).Run s₀ ls s := by
  induction h with
  | nil => exact .nil
  | @snoc ls u l v hr hn ih =>
      have hlast : S.Passes s₀ (ls ++ [l]) v u l v := ⟨ls, [], rfl, hr, hn, .nil⟩
      refine .snoc (ih ?_) (restrict_next.mpr ⟨hc u l v hlast, hn⟩)
      intro a m b hpass
      exact hc a m b (hpass.extend (.snoc .nil hn))

theorem System.Run.restrict_labels (h : S.Run s₀ ls s) (hc : ∀ l ∈ ls, ∀ u, C u l) :
    (S.restrict C).Run s₀ ls s := by
  refine h.restrict ?_
  rintro u l v ⟨before, after, rfl, _⟩
  exact hc l (by simp) u

/-- A property that is false at the start of a run and true at its end is
switched on by some step of the run. -/
theorem System.Run.switch (Q : σ → Prop) (h : S.Run s₀ ls s) (h₀ : ¬ Q s₀) (hs : Q s) :
    ∃ u l v, S.Passes s₀ ls s u l v ∧ ¬ Q u ∧ Q v := by
  induction h with
  | nil => exact absurd hs h₀
  | @snoc ls s l t hr hn ih =>
      by_cases hq : Q s
      · obtain ⟨u, m, v, ⟨before, after, rfl, hb, hm, ha⟩, hu, hv⟩ := ih hq
        exact ⟨u, m, v, ⟨before, after ++ [l], by simp, hb, hm, .snoc ha hn⟩, hu, hv⟩
      · exact ⟨s, l, t, ⟨ls, [], rfl, hr, hn, .nil⟩, hq, hs⟩

/-- A system with a history variable: what is observed of every step is recorded. -/
def System.observed {O : Type} (S : System σ Label) (observe : σ → Label → List O) :
    System (σ × List O) Label where
  init s := S.init s.1 ∧ s.2 = []
  next s l := (S.next s.1 l).map fun t => (t, s.2 ++ observe s.1 l)

theorem System.observed_next {O : Type} {observe : σ → Label → List O} {s t : σ × List O} :
    (S.observed observe).next s l = some t ↔
      S.next s.1 l = some t.1 ∧ t.2 = s.2 ++ observe s.1 l := by
  obtain ⟨u, history⟩ := t
  simp only [observed, Option.map_eq_some_iff, Prod.mk.injEq]
  constructor
  · rintro ⟨v, hv, rfl, hh⟩
    exact ⟨hv, hh.symm⟩
  · rintro ⟨hv, hh⟩
    exact ⟨u, hv, rfl, hh.symm⟩

theorem System.Reachable.of_observed {O : Type} {observe : σ → Label → List O} {s : σ × List O}
    (h : (S.observed observe).Reachable s) : S.Reachable s.1 := by
  refine System.Reachable.invariant (fun s => S.Reachable s.1) ?_ ?_ h
  · rintro s ⟨hs, _⟩
    exact .init hs
  · intro s l t _ ih hn
    exact ih.step (observed_next.mp hn).1

end P2PFFmpeg.Library.Transition
