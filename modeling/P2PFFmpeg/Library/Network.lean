import P2PFFmpeg.Library.Transition

namespace P2PFFmpeg.Library.Network

open Transition

variable {ι μ σ τ A B ρ : Type}

/-- A hub and a family of leaves, each a system of its own. The messages that a
step hands out are read off its two ends; a message that arrives is a step of the
system that takes it up. -/
structure Star (ι μ σ τ A B ρ : Type) where
  hub : System σ A
  leaf : System τ B
  down : σ → σ → ι → List μ
  up : τ → τ → List μ
  hubTakes : ρ → μ → A
  leafTakes : ρ → μ → B

structure Net (ι μ σ τ : Type) where
  hub : σ
  leaf : ι → τ
  down : ι → List μ
  up : ι → List μ

inductive Label (ι A B ρ : Type)
  | hub (a : A)
  | leaf (i : ι) (b : B)
  | toHub (i : ι) (env : ρ)
  | toLeaf (i : ι) (env : ρ)

variable [DecidableEq ι]

def Star.moveHub (S : Star ι μ σ τ A B ρ) (s : Net ι μ σ τ) (a : A) : Option (Net ι μ σ τ) :=
  (S.hub.next s.hub a).map fun h =>
    { s with hub := h, down := fun i => s.down i ++ S.down s.hub h i }

def Star.moveLeaf (S : Star ι μ σ τ A B ρ) (s : Net ι μ σ τ) (i : ι) (b : B) :
    Option (Net ι μ σ τ) :=
  (S.leaf.next (s.leaf i) b).map fun x =>
    { s with
      leaf := Function.update s.leaf i x
      up := Function.update s.up i (s.up i ++ S.up (s.leaf i) x) }

def Star.system (S : Star ι μ σ τ A B ρ) : System (Net ι μ σ τ) (Label ι A B ρ) where
  init s := S.hub.init s.hub ∧ (∀ i, S.leaf.init (s.leaf i)) ∧ (∀ i, s.down i = []) ∧ ∀ i, s.up i = []
  next s l := match l with
    | .hub a => S.moveHub s a
    | .leaf i b => S.moveLeaf s i b
    | .toHub i env =>
        match s.up i with
        | [] => none
        | m :: ms => S.moveHub { s with up := Function.update s.up i ms } (S.hubTakes env m)
    | .toLeaf i env =>
        match s.down i with
        | [] => none
        | m :: ms => S.moveLeaf { s with down := Function.update s.down i ms } i (S.leafTakes env m)

structure HubStep (S : Star ι μ σ τ A B ρ) (s t : Net ι μ σ τ) (a : A) : Prop where
  next : S.hub.next s.hub a = some t.hub
  leaf : t.leaf = s.leaf
  down : ∀ i, t.down i = s.down i ++ S.down s.hub t.hub i

structure LeafStep (S : Star ι μ σ τ A B ρ) (s t : Net ι μ σ τ) (i : ι) (b : B) : Prop where
  next : S.leaf.next (s.leaf i) b = some (t.leaf i)
  hub : t.hub = s.hub
  others : ∀ j, j ≠ i → t.leaf j = s.leaf j ∧ t.up j = s.up j
  up : t.up i = s.up i ++ S.up (s.leaf i) (t.leaf i)

inductive Moves (S : Star ι μ σ τ A B ρ) (s t : Net ι μ σ τ) : Label ι A B ρ → Prop
  | hub {a} : HubStep S s t a → t.up = s.up → Moves S s t (.hub a)
  | leaf {i b} : LeafStep S s t i b → t.down = s.down → Moves S s t (.leaf i b)
  | toHub {i env} (m : μ) : s.up i = m :: t.up i → (∀ j, j ≠ i → t.up j = s.up j) →
      HubStep S s t (S.hubTakes env m) → Moves S s t (.toHub i env)
  | toLeaf {i env} (m : μ) : s.down i = m :: t.down i → (∀ j, j ≠ i → t.down j = s.down j) →
      LeafStep S s t i (S.leafTakes env m) → Moves S s t (.toLeaf i env)

variable {S : Star ι μ σ τ A B ρ} {s t : Net ι μ σ τ}

omit [DecidableEq ι] in
theorem moveHub_step {a : A} (h : S.moveHub s a = some t) : HubStep S s t a ∧ t.up = s.up := by
  obtain ⟨x, hx, rfl⟩ := Option.map_eq_some_iff.mp h
  exact ⟨⟨hx, rfl, fun _ => rfl⟩, rfl⟩

theorem moveLeaf_step {i : ι} {b : B} (h : S.moveLeaf s i b = some t) :
    LeafStep S s t i b ∧ t.down = s.down := by
  obtain ⟨x, hx, rfl⟩ := Option.map_eq_some_iff.mp h
  refine ⟨⟨?_, rfl, ?_, ?_⟩, rfl⟩
  · simp only [Function.update_self]
    exact hx
  · intro j hj
    simp only [Function.update_of_ne hj, and_self]
  · simp only [Function.update_self]

theorem next_moves {l : Label ι A B ρ} (h : S.system.next s l = some t) : Moves S s t l := by
  cases l with
  | hub a =>
      obtain ⟨hstep, hup⟩ := moveHub_step h
      exact .hub hstep hup
  | leaf i b =>
      obtain ⟨hstep, hdown⟩ := moveLeaf_step h
      exact .leaf hstep hdown
  | toHub i env =>
      simp only [Star.system] at h
      split at h
      · cases h
      · next m ms hup =>
          obtain ⟨hstep, ht⟩ := moveHub_step h
          refine .toHub m ?_ ?_ ⟨hstep.next, hstep.leaf, hstep.down⟩
          · rw [ht, hup]
            simp only [Function.update_self]
          · intro j hj
            rw [ht]
            simp only [Function.update_of_ne hj]
  | toLeaf i env =>
      simp only [Star.system] at h
      split at h
      · cases h
      · next m ms hdown =>
          obtain ⟨hstep, ht⟩ := moveLeaf_step h
          refine .toLeaf m ?_ ?_ ⟨hstep.next, hstep.hub, hstep.others, hstep.up⟩
          · rw [ht, hdown]
            simp only [Function.update_self]
          · intro j hj
            rw [ht]
            simp only [Function.update_of_ne hj]

/-- In every state of the star, each party is in a state of its own system. -/
theorem reachable_parts (h : S.system.Reachable s) :
    S.hub.Reachable s.hub ∧ ∀ i, S.leaf.Reachable (s.leaf i) := by
  refine System.Reachable.invariant
    (fun s => S.hub.Reachable s.hub ∧ ∀ i, S.leaf.Reachable (s.leaf i)) ?_ ?_ h
  · rintro s ⟨hhub, hleaf, _⟩
    exact ⟨.init hhub, fun i => .init (hleaf i)⟩
  · rintro s l t _ ⟨hhub, hleaf⟩ hn
    have hubStep : ∀ a, HubStep S s t a →
        S.hub.Reachable t.hub ∧ ∀ i, S.leaf.Reachable (t.leaf i) := by
      intro a hstep
      exact ⟨hhub.step hstep.next, hstep.leaf ▸ hleaf⟩
    have leafStep : ∀ i b, LeafStep S s t i b →
        S.hub.Reachable t.hub ∧ ∀ j, S.leaf.Reachable (t.leaf j) := by
      intro i b hstep
      refine ⟨hstep.hub ▸ hhub, ?_⟩
      intro j
      by_cases hj : j = i
      · rw [hj]
        exact (hleaf i).step hstep.next
      · rw [(hstep.others j hj).1]
        exact hleaf j
    cases next_moves hn with
    | hub hstep _ => exact hubStep _ hstep
    | toHub m _ _ hstep => exact hubStep _ hstep
    | leaf hstep _ => exact leafStep _ _ hstep
    | toLeaf m _ _ hstep => exact leafStep _ _ hstep

end P2PFFmpeg.Library.Network
