import Mathlib.Data.List.Infix
import Mathlib.Logic.Relation

/-!
Machines in a row. A machine is fed one packet, or the end of the stream, and is then
polled until it asks for more. The output of one is the input of the next.
-/

namespace P2PFFmpeg.Library.Pipeline

open Relation

variable {γ π : Type}

inductive Answer (π : Type)
  | packet (p : π)
  | eagain
  | eof
  | error (code : Int)
deriving DecidableEq

/-- A `ready` machine can be fed; `ended` says that it has been fed the end. -/
structure Machine (γ π : Type) where
  feed : γ → Option π → γ
  poll : γ → Answer π × γ
  ready : γ → Prop
  ended : γ → Bool

def Machine.pollNth (M : Machine γ π) : Nat → γ → γ
  | 0, c => c
  | n + 1, c => M.pollNth n (M.poll c).2

/-- It answers that it has nothing left, for ever. -/
def Machine.Drained (M : Machine γ π) (c : γ) : Prop :=
  ∀ n, (M.poll (M.pollNth n c)).1 = .eof

theorem Machine.Drained.poll {M : Machine γ π} {c : γ} (h : M.Drained c) :
    (M.poll c).1 = .eof ∧ M.Drained (M.poll c).2 :=
  ⟨h 0, fun n => h (n + 1)⟩

structure Machine.Lawful (M : Machine γ π) (Good : γ → Prop) : Prop where
  feed_good : ∀ {c} x, Good c → Good (M.feed c x)
  poll_good : ∀ {c}, Good c → Good (M.poll c).2
  ready_ended : ∀ {c}, M.ready c → M.ended c = false
  feed_ended : ∀ {c} x, M.ready c → M.ended (M.feed c x) = x.isNone
  poll_ended : ∀ {c}, Good c → M.ended (M.poll c).2 = M.ended c
  asks : ∀ {c}, Good c → (M.poll c).1 = .eagain → M.ready (M.poll c).2
  stops : ∀ {c}, Good c → (M.poll c).1 = .eof → M.ended c = true ∧ M.Drained (M.poll c).2

inductive Status
  | hungry
  | fed
  | finished
deriving DecidableEq

abbrev Stream (π : Type) := List π × Bool

/-- `last` says that the end is still to be fed, behind the packets of `rest`. -/
structure Feeding (γ π : Type) where
  now : γ
  status : Status
  rest : List π
  last : Bool
  out : List π

def Feeding.start (c : γ) (input : Stream π) : Feeding γ π :=
  ⟨c, .hungry, input.1, input.2, []⟩

def Feeding.more (s : Feeding γ π) (rest : List π) (last : Bool) : Feeding γ π :=
  { s with rest := s.rest ++ rest, last }

def Feeding.output (s : Feeding γ π) : Stream π :=
  (s.out, s.status = .finished)

def Machine.step (M : Machine γ π) (s : Feeding γ π) : Option (Feeding γ π) :=
  match s.status with
  | .hungry =>
      match s.rest with
      | x :: rest => some { s with now := M.feed s.now (some x), status := .fed, rest }
      | [] =>
          if s.last then some { s with now := M.feed s.now none, status := .fed, last := false }
          else none
  | .fed =>
      match (M.poll s.now).1 with
      | .packet p => some { s with now := (M.poll s.now).2, out := s.out ++ [p] }
      | .eagain => some { s with now := (M.poll s.now).2, status := .hungry }
      | .eof => some { s with now := (M.poll s.now).2, status := .finished }
      | .error _ => some { s with now := (M.poll s.now).2 }
  | .finished => none

def Machine.Runs (M : Machine γ π) : Feeding γ π → Feeding γ π → Prop :=
  ReflTransGen fun s t => M.step s = some t

def Machine.Gives (M : Machine γ π) (c : γ) (input output : Stream π) : Prop :=
  ∃ s, M.Runs (.start c input) s ∧ M.step s = none ∧ output = s.output

def Machine.Begins (M : Machine γ π) (c : γ) (input output : Stream π) : Prop :=
  ∃ s, M.Runs (.start c input) s ∧ output = s.output

def Machine.Whole (M : Machine γ π) : List γ → Stream π → Stream π → Prop
  | [], input, output => output = input
  | c :: cs, input, output => ∃ between, M.Gives c input between ∧ M.Whole cs between output

def SoFar (part whole : Stream π) : Prop :=
  part.1 <+: whole.1 ∧ (part.2 = true → part = whole)

/-- The same composition where each machine has been run for some time only. It also says
what comes out of machines that never stop. -/
def Machine.Partly (M : Machine γ π) : List γ → Stream π → Stream π → Prop
  | [], input, output => SoFar output input
  | c :: cs, input, output => ∃ between, M.Begins c input between ∧ M.Partly cs between output

section Runs

variable {M : Machine γ π} {s t u : Feeding γ π} {c : γ}

theorem SoFar.refl (x : Stream π) : SoFar x x :=
  ⟨List.prefix_refl _, fun _ => rfl⟩

theorem SoFar.trans {x y z : Stream π} (h : SoFar x y) (g : SoFar y z) : SoFar x z := by
  refine ⟨h.1.trans g.1, fun hx => ?_⟩
  have hxy := h.2 hx
  exact hxy.trans (g.2 (by rw [← hxy, hx]))

theorem Machine.Runs.total (h : M.Runs s t) (g : M.Runs s u) : M.Runs t u ∨ M.Runs u t := by
  refine ReflTransGen.total_of_right_unique ?_ h g
  intro a b c hab hac
  exact Option.some.inj (hab.symm.trans hac)

theorem Machine.Runs.stuck (h : M.Runs s t) (hs : M.step s = none) : s = t := by
  cases ReflTransGen.cases_head h with
  | inl heq => exact heq
  | inr hstep =>
      obtain ⟨u, hu, -⟩ := hstep
      rw [hs] at hu
      cases hu

theorem Machine.Runs.to_end (h : M.Runs s t) (g : M.Runs s u) (hu : M.step u = none) : M.Runs t u := by
  cases h.total g with
  | inl htu => exact htu
  | inr hut => rw [hut.stuck hu]; exact .refl

theorem Machine.step_out (h : M.step s = some t) : s.out <+: t.out := by
  cases hst : s.status <;> simp only [step, hst] at h
  · split at h
    · cases h; exact List.prefix_refl _
    · split at h
      · cases h; exact List.prefix_refl _
      · cases h
  · split at h <;> cases h
    · exact List.prefix_append _ _
    all_goals exact List.prefix_refl _
  · cases h

theorem Machine.Runs.out (h : M.Runs s t) : s.out <+: t.out := by
  induction h with
  | refl => exact List.prefix_refl _
  | tail _ hstep ih => exact ih.trans (step_out hstep)

theorem Machine.step_over (h : s.status = .finished) : M.step s = none := by
  simp only [step, h]

theorem Machine.Runs.output_soFar (h : M.Runs s t) : SoFar s.output t.output := by
  refine ⟨h.out, fun hover => ?_⟩
  have hs : s.status = .finished := of_decide_eq_true hover
  rw [h.stuck (step_over hs)]

/-- A machine that has not been told the end does the same when more packets follow. -/
theorem Machine.step_more {rest : List π} {last : Bool} (h : M.step s = some t) (hlast : s.last = false) :
    M.step (s.more rest last) = some (t.more rest last) ∧ t.last = false := by
  obtain ⟨c, status, xs, l, out⟩ := s
  cases hlast
  cases status <;> simp only [step, Feeding.more] at h ⊢
  · cases xs with
    | nil => simp at h
    | cons x xs =>
        cases h
        exact ⟨rfl, rfl⟩
  · split at h <;> cases h <;> exact ⟨rfl, rfl⟩
  · cases h

theorem Machine.Runs.more {rest : List π} {last : Bool} (h : M.Runs s t) (hlast : s.last = false) :
    M.Runs (s.more rest last) (t.more rest last) ∧ t.last = false := by
  induction h with
  | refl => exact ⟨.refl, hlast⟩
  | tail _ hstep ih =>
      obtain ⟨hrun, hl⟩ := ih
      obtain ⟨hnext, hl'⟩ := step_more hstep hl
      exact ⟨hrun.tail hnext, hl'⟩

theorem Feeding.start_more (c : γ) (xs rest : List π) (last : Bool) :
    (Feeding.start c (xs, false)).more rest last = .start c (xs ++ rest, last) := rfl

theorem Machine.Begins.mono {i i' o : Stream π} (h : M.Begins c i o) (hi : SoFar i i') : M.Begins c i' o := by
  obtain ⟨s, hrun, rfl⟩ := h
  obtain ⟨xs, e⟩ := i
  cases e with
  | true => rw [← hi.2 rfl]; exact ⟨s, hrun, rfl⟩
  | false =>
      obtain ⟨⟨rest, hrest⟩, -⟩ := hi
      obtain ⟨xs', last⟩ := i'
      subst hrest
      exact ⟨s.more rest last, Feeding.start_more c xs rest last ▸ (hrun.more rfl).1, rfl⟩

theorem Machine.Partly.mono {cs : List γ} {i i' o : Stream π} (h : M.Partly cs i o)
    (hi : SoFar i i') : M.Partly cs i' o := by
  cases cs with
  | nil => exact SoFar.trans h hi
  | cons c cs =>
      obtain ⟨m, hm, hrest⟩ := h
      exact ⟨m, hm.mono hi, hrest⟩

theorem Machine.Partly.soFar {cs : List γ} {i i' o w : Stream π} (h : M.Partly cs i o)
    (hi : SoFar i i') (hw : M.Whole cs i' w) : SoFar o w := by
  induction cs generalizing i i' with
  | nil => exact hw ▸ SoFar.trans h hi
  | cons c cs ih =>
      obtain ⟨m, hm, hrest⟩ := h
      obtain ⟨m', ⟨t, ht, hstuck, rfl⟩, hrest'⟩ := hw
      obtain ⟨s, hs, rfl⟩ := hm.mono hi
      exact ih hrest (hs.to_end ht hstuck).output_soFar hrest'

end Runs

inductive Machine.Idle (M : Machine γ π) : γ × γ → Stream π → Stream π → Prop
  | asks {c₀ c xs ys} : M.Runs (.start c₀ (xs, false)) ⟨c, .hungry, [], false, ys⟩ →
      Idle M (c₀, c) (xs, false) (ys, false)

inductive Machine.Busy (M : Machine γ π) : γ × γ → Stream π → Stream π → Prop
  | fed {c₀ c i ys} : M.Runs (.start c₀ i) ⟨c, .fed, [], false, ys⟩ → Busy M (c₀, c) i (ys, false)
  | finished {c₀ c c' i ys} : M.Runs (.start c₀ i) ⟨c', .finished, [], false, ys⟩ → M.Drained c →
      Busy M (c₀, c) i (ys, true)

def Line (R : γ × γ → Stream π → Stream π → Prop) :
    List (γ × γ) → Stream π → Stream π → Prop
  | [], input, output => output = input
  | c :: cs, input, output => ∃ between, R c input between ∧ Line R cs between output

section Line

variable {M : Machine γ π} {Good : γ → Prop} {c₀ c : γ} {xs : List π} {i m o : Stream π}

theorem Line.append {R : γ × γ → Stream π → Stream π → Prop} {cs ds : List (γ × γ)}
    (h : Line R cs i m) (g : Line R ds m o) : Line R (cs ++ ds) i o := by
  induction cs generalizing i with
  | nil =>
      cases h
      exact g
  | cons c cs ih =>
      obtain ⟨b, hb, hrest⟩ := h
      exact ⟨b, hb, ih hrest⟩

variable {cs : List (γ × γ)}

theorem Line.split_last {R : γ × γ → Stream π → Stream π → Prop} {c : γ × γ} (h : Line R (cs ++ [c]) i o) :
    ∃ m, Line R cs i m ∧ R c m o := by
  induction cs generalizing i with
  | nil =>
      obtain ⟨b, hb, rfl⟩ := h
      exact ⟨i, rfl, hb⟩
  | cons d cs ih =>
      obtain ⟨b, hb, hrest⟩ := h
      obtain ⟨m, hline, hlast⟩ := ih hrest
      exact ⟨m, ⟨b, hb, hline⟩, hlast⟩

theorem Line.concat {R : γ × γ → Stream π → Stream π → Prop} {c : γ × γ} (h : Line R cs i m) (g : R c m o) :
    Line R (cs ++ [c]) i o :=
  h.append ⟨o, g, rfl⟩

theorem Machine.Idle.start (c : γ) : M.Idle (c, c) ([], false) ([], false) :=
  .asks .refl

structure Machine.Follows (M : Machine γ π) (Good : γ → Prop) (input : Stream π)
    (s : Feeding γ π) : Prop where
  good : Good s.now
  ready : s.status = .hungry → M.ready s.now
  last : s.last = true → input.2 = true
  ended : M.ended s.now = (input.2 && !s.last)
  finished : s.status = .finished → M.ended s.now = true

theorem Machine.Lawful.step_follows (h : M.Lawful Good) {s t : Feeding γ π}
    (hs : M.Follows Good i s) (hstep : M.step s = some t) : M.Follows Good i t := by
  obtain ⟨c, status, rest, last, out⟩ := s
  obtain ⟨hgood, hready, hlast, hended, hover⟩ := hs
  cases status <;> simp only [step] at hstep
  · have hend := hended
    rw [h.ready_ended (hready rfl)] at hend
    split at hstep
    · cases hstep
      refine ⟨h.feed_good _ hgood, by simp, hlast, ?_, by simp⟩
      rw [h.feed_ended _ (hready rfl)]
      exact hend
    · split at hstep
      · rename_i hl
        cases hstep
        refine ⟨h.feed_good _ hgood, by simp, by simp, ?_, by simp⟩
        rw [h.feed_ended _ (hready rfl), hlast hl]
        rfl
      · cases hstep
  · have hkept := h.poll_ended hgood
    split at hstep <;> cases hstep <;> rename_i heq
    all_goals refine ⟨h.poll_good hgood, ?_, hlast, hkept.trans hended, ?_⟩
    · simp
    · simp
    · exact fun _ => h.asks hgood heq
    · simp
    · simp
    · exact fun _ => hkept.trans (h.stops hgood heq).1
    · simp
    · simp
  · cases hstep

theorem Machine.Lawful.runs_follows (h : M.Lawful Good) (hgood : Good c) (hready : M.ready c)
    {s : Feeding γ π} (hrun : M.Runs (.start c i) s) : M.Follows Good i s := by
  induction hrun with
  | refl =>
      refine ⟨hgood, fun _ => hready, id, ?_, by simp [Feeding.start]⟩
      rw [show (Feeding.start c i).now = c from rfl, h.ready_ended hready]
      simp [Feeding.start]
  | tail _ hstep ih => exact h.step_follows ih hstep

theorem Machine.Idle.gives (h : M.Idle (c₀, c) i o) : M.Gives c₀ i o ∧ o.2 = false := by
  cases h with
  | asks hrun => exact ⟨⟨_, hrun, rfl, rfl⟩, rfl⟩

theorem Machine.Idle.begins (h : M.Idle (c₀, c) i o) : M.Begins c₀ i o := by
  obtain ⟨s, hrun, -, rfl⟩ := h.gives.1
  exact ⟨s, hrun, rfl⟩

theorem Machine.Busy.begins (h : M.Busy (c₀, c) i o) : M.Begins c₀ i o := by
  cases h with
  | fed hrun => exact ⟨_, hrun, rfl⟩
  | finished hrun => exact ⟨_, hrun, rfl⟩

theorem Line.partly {cs ds : List (γ × γ)} (h : Line M.Busy cs i m) (g : Line M.Idle ds m o) :
    M.Partly ((cs ++ ds).map Prod.fst) i o := by
  induction cs generalizing i with
  | nil =>
      cases h
      induction ds generalizing m with
      | nil =>
          cases g
          exact .refl _
      | cons d ds ih =>
          obtain ⟨b, hb, hrest⟩ := g
          exact ⟨b, hb.begins, ih hrest⟩
  | cons c cs ih =>
      obtain ⟨b, hb, hrest⟩ := h
      exact ⟨b, hb.begins, ih hrest⟩

theorem Line.idle_whole {ds : List (γ × γ)} (h : Line M.Idle ds i o) : M.Whole (ds.map Prod.fst) i o := by
  induction ds generalizing i with
  | nil => exact h
  | cons d ds ih =>
      obtain ⟨b, hb, hrest⟩ := h
      exact ⟨b, hb.gives.1, ih hrest⟩

theorem Machine.Idle.ready (h : M.Idle (c₀, c) i o) (hM : M.Lawful Good) (hgood : Good c₀)
    (hready : M.ready c₀) : M.ready c := by
  cases h with
  | asks hrun => exact (hM.runs_follows hgood hready hrun).ready rfl

theorem Machine.Idle.feed (h : M.Idle (c₀, c) (xs, false) o) (x : Option π) :
    M.Busy (c₀, M.feed c x) (xs ++ x.toList, x.isNone) o := by
  cases h with
  | asks hrun =>
      have hmore := (@Runs.more γ π M _ _ x.toList x.isNone hrun rfl).1
      cases x with
      | some p => exact .fed (hmore.tail rfl)
      | none => exact .fed (hmore.tail rfl)

theorem Machine.Busy.packet {p : π} (h : M.Busy (c₀, c) i o) (hpoll : (M.poll c).1 = .packet p) :
    o.2 = false ∧ M.Busy (c₀, (M.poll c).2) i (o.1 ++ [p], false) := by
  cases h with
  | fed hrun => exact ⟨rfl, .fed (hrun.tail (by simp only [step, hpoll]))⟩
  | finished _ hdrained => rw [hdrained.poll.1] at hpoll; cases hpoll

theorem Machine.Busy.fails {e : Int} (h : M.Busy (c₀, c) i o) (hpoll : (M.poll c).1 = .error e) :
    M.Busy (c₀, (M.poll c).2) i o := by
  cases h with
  | fed hrun => exact .fed (hrun.tail (by simp only [step, hpoll]))
  | finished _ hdrained => rw [hdrained.poll.1] at hpoll; cases hpoll

section Polls

variable (hM : M.Lawful Good) (hgood : Good c₀) (hready : M.ready c₀) (h : M.Busy (c₀, c) i o)
include hM hgood hready h

theorem Machine.Busy.asks (hpoll : (M.poll c).1 = .eagain) :
    i.2 = false ∧ o.2 = false ∧ M.Idle (c₀, (M.poll c).2) (i.1, false) o := by
  cases h with
  | @fed _ _ _ ys hrun =>
      have hnext : M.step ⟨c, .fed, [], false, ys⟩ =
          some ⟨(M.poll c).2, .hungry, [], false, ys⟩ := by simp only [step, hpoll]
      have hfollows := hM.runs_follows hgood hready hrun
      have hend := (hM.step_follows hfollows hnext).ended
      rw [hM.ready_ended (hM.asks hfollows.good hpoll)] at hend
      obtain ⟨xs, e⟩ := i
      cases e with
      | true => cases hend
      | false => exact ⟨rfl, rfl, .asks (hrun.tail hnext)⟩
  | finished _ hdrained => rw [hdrained.poll.1] at hpoll; cases hpoll

theorem Machine.Busy.ends (hpoll : (M.poll c).1 = .eof) : M.Busy (c₀, (M.poll c).2) i (o.1, true) := by
  cases h with
  | @fed _ _ _ ys hrun =>
      have hnext : M.step ⟨c, .fed, [], false, ys⟩ =
          some ⟨(M.poll c).2, .finished, [], false, ys⟩ := by simp only [step, hpoll]
      exact .finished (hrun.tail hnext) (hM.stops (hM.runs_follows hgood hready hrun).good hpoll).2
  | finished hrun hdrained => exact .finished hrun hdrained.poll.2

/-- A machine that is over has been fed the end, and has given its whole output. -/
theorem Machine.Busy.over_gives (ho : o.2 = true) : i.2 = true ∧ M.Gives c₀ i o := by
  cases h with
  | fed => cases ho
  | finished hrun =>
      have hfollows := hM.runs_follows hgood hready hrun
      have hend := hfollows.ended.symm.trans (hfollows.finished rfl)
      exact ⟨(Bool.and_eq_true_iff.mp hend).1, ⟨_, hrun, rfl, rfl⟩⟩

end Polls

/-- When the last machine is over, so are the others, and all has come out. -/
theorem Line.over_whole (hM : M.Lawful Good) (h : Line M.Busy cs i o) (hgood : ∀ c ∈ cs, Good c.1)
    (hready : ∀ c ∈ cs, M.ready c.1) (ho : o.2 = true) : i.2 = true ∧ M.Whole (cs.map Prod.fst) i o := by
  induction cs generalizing i with
  | nil =>
      cases h
      exact ⟨ho, rfl⟩
  | cons c cs ih =>
      obtain ⟨b, hb, hrest⟩ := h
      obtain ⟨hb2, hwhole⟩ := ih hrest (fun d hd => hgood d (.tail _ hd))
        fun d hd => hready d (.tail _ hd)
      obtain ⟨hi, hgives⟩ := hb.over_gives hM (hgood c (.head _)) (hready c (.head _)) hb2
      exact ⟨hi, b, hgives, hwhole⟩

end Line

end P2PFFmpeg.Library.Pipeline
