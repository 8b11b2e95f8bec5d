import P2PFFmpeg.Library.Transition

namespace P2PFFmpeg.Library.Conditions

open Transition

variable {τ κ σ ω ρ : Type}

inductive Notice (κ : Type)
  | silent
  | signal (c : κ)
  | broadcast (c : κ)

inductive Ending (κ ρ : Type)
  | waits (c : κ)
  | returns (r : ρ)

structure Outcome (κ σ ρ : Type) where
  state : σ
  notice : Notice κ
  ending : Ending κ ρ

abbrev Code (κ σ ω ρ : Type) := ω → σ → Outcome κ σ ρ

structure Waiter (τ κ ω : Type) where
  thread : τ
  request : ω
  on : κ
  woken : Bool
deriving DecidableEq

def Waiter.wake (x : Waiter τ κ ω) : Waiter τ κ ω := { x with woken := true }

structure Threads (τ κ σ ω : Type) where
  shared : σ
  waiting : List (Waiter τ κ ω)

/-- A signal wakes the thread that is `chosen`. -/
inductive Label (τ ω : Type)
  | enter (t : τ) (w : ω) (chosen : Option τ)
  | resume (t : τ) (chosen : Option τ)
  | spurious (t : τ)

section Code

variable [DecidableEq τ] [DecidableEq κ] [DecidableEq ω]

def Waiter.sleeps (x : Waiter τ κ ω) (c : κ) : Bool := x.on = c && !x.woken

def wakeIf (p : Waiter τ κ ω → Bool) (ws : List (Waiter τ κ ω)) : List (Waiter τ κ ω) :=
  ws.map fun x => if p x then x.wake else x

/-- The threads that wait after a notice; a signal is for one that sleeps, if there is one. -/
def Notice.reach (n : Notice κ) (chosen : Option τ) (ws : List (Waiter τ κ ω)) :
    Option (List (Waiter τ κ ω)) :=
  match n with
  | .silent => some ws
  | .broadcast c => some (wakeIf (fun x => x.on = c) ws)
  | .signal c =>
      match chosen with
      | none => if ws.any fun x => x.sleeps c then none else some ws
      | some t =>
          if ws.any fun x => x.thread = t && x.sleeps c then some (wakeIf (fun x => x.thread = t) ws)
          else none

def Ending.waiter (e : Ending κ ρ) (t : τ) (w : ω) : List (Waiter τ κ ω) :=
  match e with
  | .waits c => [⟨t, w, c, false⟩]
  | .returns _ => []

def Threads.section (s : Threads τ κ σ ω) : Label τ ω → Option (τ × ω × List (Waiter τ κ ω))
  | .enter t w _ => if s.waiting.any fun x => x.thread = t then none else some (t, w, s.waiting)
  | .resume t _ =>
      (s.waiting.find? fun x => x.thread = t && x.woken).map
        fun x => (t, x.request, s.waiting.erase x)
  | .spurious _ => none

def Label.chosen : Label τ ω → Option τ
  | .enter _ _ chosen | .resume _ chosen => chosen
  | .spurious _ => none

/-- Any number of threads, each lock section one step. A wake-up may be spurious. -/
def Code.system (C : Code κ σ ω ρ) (start : σ → Prop) : System (Threads τ κ σ ω) (Label τ ω) where
  init s := start s.shared ∧ s.waiting = []
  next s l :=
    match l with
    | .spurious t => some { s with waiting := wakeIf (fun x => x.thread = t) s.waiting }
    | l =>
        (s.section l).bind fun (t, w, ws) =>
          ((C w s.shared).notice.reach l.chosen ws).map fun ws' =>
            ⟨(C w s.shared).state, ws' ++ (C w s.shared).ending.waiter t w⟩

def Code.observe {O : Type} (C : Code κ σ ω ρ) (seen : ω → Outcome κ σ ρ → List O)
    (s : Threads τ κ σ ω) (l : Label τ ω) : List O :=
  match s.section l with
  | some (_, w, _) => seen w (C w s.shared)
  | none => []

end Code

def Notice.count [DecidableEq κ] : Notice κ → κ → Nat
  | .signal d, c => if d = c then 1 else 0
  | _, _ => 0

section Rules

variable [DecidableEq τ] [DecidableEq κ] [DecidableEq ω]

def pending (c : κ) (ws : List (Waiter τ κ ω)) : Nat := ws.countP fun x => x.on = c && x.woken

/-- The rules for the shared state. `Enough c x n` says that in the state `x`, `n`
threads that come back from a wait on `c` leave nothing over for another one. -/
structure Code.Serves (C : Code κ σ ω ρ) (I : σ → Prop) (On : ω → κ → Prop)
    (Enough : κ → σ → Nat → Prop) : Prop where
  keeps : ∀ w x, I x → I (C w x).state
  on : ∀ w x c, I x → (C w x).ending = .waits c → On w c
  mono : ∀ c x n m, n ≤ m → Enough c x n → Enough c x m
  waits : ∀ w x c, I x → (C w x).ending = .waits c → Enough c (C w x).state 0
  passes : ∀ w x c n, I x → (C w x).notice ≠ .broadcast c → Enough c x n →
    Enough c (C w x).state (n + (C w x).notice.count c)
  takes : ∀ w x c n, I x → On w c → (C w x).notice ≠ .broadcast c → Enough c x (n + 1) →
    Enough c (C w x).state n

structure Code.Awake (I : σ → Prop) (On : ω → κ → Prop) (Enough : κ → σ → Nat → Prop)
    (s : Threads τ κ σ ω) : Prop where
  shared : I s.shared
  on : ∀ x ∈ s.waiting, On x.request x.on
  enough : ∀ x ∈ s.waiting, x.woken = false → Enough x.on s.shared (pending x.on s.waiting)

variable {ws ws' : List (Waiter τ κ ω)} {c : κ} {x y : Waiter τ κ ω}

omit [DecidableEq τ] [DecidableEq κ] [DecidableEq ω] in
/-- Who waits after some have been woken has waited before, and who sleeps has slept. -/
theorem of_mem_wakeIf {p : Waiter τ κ ω → Bool} (h : x ∈ wakeIf p ws) :
    ∃ y ∈ ws, y.request = x.request ∧ y.on = x.on ∧ (x.woken = false → y = x ∧ p x = false) := by
  obtain ⟨y, hy, rfl⟩ := List.mem_map.mp h
  refine ⟨y, hy, ?_⟩
  cases hp : p y with
  | true => exact ⟨rfl, rfl, fun h => Bool.noConfusion h⟩
  | false => exact ⟨rfl, rfl, fun _ => ⟨rfl, hp⟩⟩

omit [DecidableEq τ] [DecidableEq ω] in
theorem pending_cons : pending c (x :: ws) = pending c ws + (if x.on = c ∧ x.woken then 1 else 0) := by
  simp [pending, List.countP_cons]

omit [DecidableEq τ] [DecidableEq ω] in
theorem pending_wakeIf (p : Waiter τ κ ω → Bool) (ws : List (Waiter τ κ ω)) :
    pending c ws ≤ pending c (wakeIf p ws) := by
  induction ws with
  | nil => exact Nat.le_refl _
  | cons x ws ih =>
      have hcons : wakeIf p (x :: ws) = (if p x then x.wake else x) :: wakeIf p ws := rfl
      rw [hcons, pending_cons, pending_cons]
      apply Nat.add_le_add ih
      by_cases hx : x.on = c ∧ x.woken = true
      · have hnow : (if p x then x.wake else x).on = c ∧
            (if p x then x.wake else x).woken = true := by
          split
          · exact ⟨hx.1, rfl⟩
          · exact hx
        exact Nat.le_of_eq (by rw [if_pos hx, if_pos hnow])
      · rw [if_neg hx]
        exact Nat.zero_le _

omit [DecidableEq τ] [DecidableEq ω] in
theorem pending_wakeIf_lt {p : Waiter τ κ ω → Bool} (hx : x ∈ ws) (hp : p x = true)
    (hsleeps : x.sleeps c = true) : pending c ws + 1 ≤ pending c (wakeIf p ws) := by
  obtain ⟨before, after, rfl⟩ := List.append_of_mem hx
  have hsplit : ∀ (a b : List (Waiter τ κ ω)) (z : Waiter τ κ ω),
      pending c (a ++ z :: b) = pending c a + pending c (z :: b) := fun _ _ _ => List.countP_append
  have hwake : wakeIf p (before ++ x :: after) = wakeIf p before ++ x.wake :: wakeIf p after := by
    simp [wakeIf, hp]
  have hbefore := @pending_wakeIf τ κ ω _ c p before
  have hafter := @pending_wakeIf τ κ ω _ c p after
  simp only [Waiter.sleeps, Bool.and_eq_true, decide_eq_true_eq, Bool.not_eq_true'] at hsleeps
  have hwas : ¬ (x.on = c ∧ x.woken = true) := by simp [hsleeps.2]
  have hnow : x.wake.on = c ∧ x.wake.woken = true := ⟨hsleeps.1, rfl⟩
  rw [hwake, hsplit, hsplit, pending_cons, pending_cons, if_neg hwas, if_pos hnow]
  omega

omit [DecidableEq ω] in
theorem Notice.reach_spec {n : Notice κ} {chosen : Option τ} (h : n.reach chosen ws = some ws') :
    (∀ x ∈ ws', ∃ y ∈ ws, y.request = x.request ∧ y.on = x.on ∧ (x.woken = false → y = x)) ∧
      (∀ c, pending c ws ≤ pending c ws') ∧
      ∀ x ∈ ws', x.woken = false →
        n ≠ .broadcast x.on ∧ pending x.on ws + n.count x.on ≤ pending x.on ws' := by
  cases n with
  | silent =>
      cases h
      exact ⟨fun x hx => ⟨x, hx, rfl, rfl, fun _ => rfl⟩, fun _ => Nat.le_refl _,
        fun x _ _ => ⟨nofun, Nat.le_refl _⟩⟩
  | broadcast c =>
      cases h
      refine ⟨?_, fun _ => pending_wakeIf _ ws, ?_⟩
      · intro x hx
        obtain ⟨y, hy, hrequest, hon, hsame⟩ := of_mem_wakeIf hx
        exact ⟨y, hy, hrequest, hon, fun h => (hsame h).1⟩
      · intro x hx hsleeps
        obtain ⟨_, _, _, _, hsame⟩ := of_mem_wakeIf hx
        have hother := (hsame hsleeps).2
        refine ⟨?_, pending_wakeIf _ ws⟩
        rintro heq
        cases heq
        simp at hother
  | signal c =>
      cases chosen with
      | none =>
          simp only [reach] at h
          split at h
          · cases h
          · next hnobody =>
              cases h
              refine ⟨fun x hx => ⟨x, hx, rfl, rfl, fun _ => rfl⟩, fun _ => Nat.le_refl _, ?_⟩
              intro x hx hsleeps
              have hother : c ≠ x.on := by
                rintro rfl
                exact hnobody (List.any_eq_true.mpr ⟨x, hx, by simp [Waiter.sleeps, hsleeps]⟩)
              exact ⟨nofun, by simp [count, hother]⟩
      | some t =>
          simp only [reach] at h
          split at h
          · next hsomebody =>
              cases h
              obtain ⟨z, hz, hchosen⟩ := List.any_eq_true.mp hsomebody
              rw [Bool.and_eq_true] at hchosen
              refine ⟨?_, fun _ => pending_wakeIf _ ws, ?_⟩
              · intro x hx
                obtain ⟨y, hy, hrequest, hon, hsame⟩ := of_mem_wakeIf hx
                exact ⟨y, hy, hrequest, hon, fun h => (hsame h).1⟩
              · intro x _ _
                refine ⟨nofun, ?_⟩
                by_cases hc : c = x.on
                · rw [count, if_pos hc]
                  exact pending_wakeIf_lt hz hchosen.1 (hc ▸ hchosen.2)
                · rw [count, if_neg hc]
                  exact pending_wakeIf _ ws
          · cases h

theorem pending_erase (hx : x ∈ ws) (c : κ) :
    pending c ws = pending c (ws.erase x) + (if x.on = c ∧ x.woken then 1 else 0) := by
  rw [← pending_cons]
  exact (List.perm_cons_erase hx).countP_eq _

variable {C : Code κ σ ω ρ} {I : σ → Prop} {On : ω → κ → Prop} {Enough : κ → σ → Nat → Prop}
  {start : σ → Prop} {s s' : Threads τ κ σ ω} {l : Label τ ω}

/-- What a step is: a wake-up, or a section of a thread that has called or was woken. -/
theorem Code.next_cases (hn : (C.system start).next s l = some s') :
    (∃ t, l = .spurious t ∧ s' = { s with waiting := wakeIf (fun x => x.thread = t) s.waiting }) ∨
      ∃ t w ws ws', s.section l = some (t, w, ws) ∧
        (C w s.shared).notice.reach l.chosen ws = some ws' ∧
        s' = ⟨(C w s.shared).state, ws' ++ (C w s.shared).ending.waiter t w⟩ ∧
        (ws = s.waiting ∨ ∃ x ∈ s.waiting, x.woken = true ∧ x.request = w ∧ ws = s.waiting.erase x) := by
  cases l with
  | spurious t => exact .inl ⟨t, rfl, (Option.some.inj hn).symm⟩
  | enter t w chosen =>
      obtain ⟨⟨t', w', ws⟩, hsection, hrest⟩ := Option.bind_eq_some_iff.mp hn
      obtain ⟨ws', hreach, rfl⟩ := Option.map_eq_some_iff.mp hrest
      refine .inr ⟨t', w', ws, ws', hsection, hreach, rfl, .inl ?_⟩
      rw [Threads.section] at hsection
      split at hsection
      · cases hsection
      · cases hsection
        rfl
  | resume t chosen =>
      obtain ⟨⟨t', w', ws⟩, hsection, hrest⟩ := Option.bind_eq_some_iff.mp hn
      obtain ⟨ws', hreach, rfl⟩ := Option.map_eq_some_iff.mp hrest
      refine .inr ⟨t', w', ws, ws', hsection, hreach, rfl, .inr ?_⟩
      rw [Threads.section] at hsection
      obtain ⟨x, hx, hsame⟩ := Option.map_eq_some_iff.mp hsection
      cases hsame
      have hwoken := List.find?_some hx
      rw [Bool.and_eq_true] at hwoken
      exact ⟨x, List.mem_of_find?_eq_some hx, hwoken.2, rfl, rfl⟩

omit [DecidableEq τ] [DecidableEq ω] in
theorem Code.Awake.spurious (h : Code.Awake I On Enough s)
    (hmono : ∀ c x n m, n ≤ m → Enough c x n → Enough c x m) (p : Waiter τ κ ω → Bool) :
    Code.Awake I On Enough { s with waiting := wakeIf p s.waiting } where
  shared := h.shared
  on := by
    intro x hx
    obtain ⟨y, hy, hrequest, hon, _⟩ := of_mem_wakeIf hx
    rw [← hrequest, ← hon]
    exact h.on y hy
  enough := by
    intro x hx hsleeps
    obtain ⟨y, hy, _, _, hsame⟩ := of_mem_wakeIf hx
    obtain ⟨rfl, _⟩ := hsame hsleeps
    exact hmono _ _ _ _ (pending_wakeIf p s.waiting) (h.enough y hy hsleeps)

/-- A section leaves the others awake, when it finds enough of them awake: those
that are not in the section, if its thread comes from a wait. -/
theorem Code.Serves.awake (hC : C.Serves I On Enough) (h : Code.Awake I On Enough s)
    (hn : (C.system start).next s l = some s') : Code.Awake I On Enough s' := by
  obtain ⟨t, rfl, rfl⟩ | ⟨t, w, ws, ws', _, hreach, rfl, hbefore⟩ := Code.next_cases hn
  · exact h.spurious hC.mono _
  · obtain ⟨hfrom, hpending, hnotice⟩ := Notice.reach_spec hreach
    have hsub : ∀ x ∈ ws, x ∈ s.waiting := by
      obtain rfl | ⟨y, _, _, _, rfl⟩ := hbefore
      · exact fun _ hx => hx
      · exact fun _ hx => List.mem_of_mem_erase hx
    have hnew : ∀ c, pending c (ws' ++ (C w s.shared).ending.waiter t w) = pending c ws' := by
      intro c
      rw [pending, List.countP_append]
      cases (C w s.shared).ending <;> simp [Ending.waiter, pending]
    refine ⟨hC.keeps w _ h.shared, ?_, ?_⟩
    · intro x hx
      rcases List.mem_append.mp hx with hx | hx
      · obtain ⟨y, hy, hrequest, hon, _⟩ := hfrom x hx
        rw [← hrequest, ← hon]
        exact h.on y (hsub y hy)
      · cases hending : (C w s.shared).ending with
        | returns r => simp [hending, Ending.waiter] at hx
        | waits c =>
            simp only [hending, Ending.waiter, List.mem_singleton] at hx
            rw [hx]
            exact hC.on w _ c h.shared hending
    · intro x hx hsleeps
      simp only [hnew]
      rcases List.mem_append.mp hx with hx | hx
      · obtain ⟨y, hy, _, _, hsame⟩ := hfrom x hx
        obtain rfl := hsame hsleeps
        obtain ⟨hall, hcount⟩ := hnotice y hx hsleeps
        have henough := h.enough y (hsub y hy) hsleeps
        obtain rfl | ⟨z, hz, hwoken, rfl, rfl⟩ := hbefore
        · exact hC.mono _ _ _ _ hcount (hC.passes w _ _ _ h.shared hall henough)
        · rw [pending_erase hz] at henough
          by_cases hsame : z.on = y.on
          · rw [if_pos ⟨hsame, hwoken⟩] at henough
            exact hC.mono _ _ _ _ (hpending y.on)
              (hC.takes z.request _ _ _ h.shared (hsame ▸ h.on z hz) hall henough)
          · rw [if_neg fun hand => hsame hand.1] at henough
            exact hC.mono _ _ _ _ hcount (hC.passes z.request _ _ _ h.shared hall henough)
      · cases hending : (C w s.shared).ending with
        | returns r => simp [hending, Ending.waiter] at hx
        | waits c =>
            simp only [hending, Ending.waiter, List.mem_singleton] at hx
            rw [hx]
            exact hC.mono _ _ _ _ (Nat.zero_le _) (hC.waits w _ c h.shared hending)

theorem Code.Serves.reachable (hC : C.Serves I On Enough) (hstart : ∀ x, start x → I x)
    (h : (C.system start).Reachable s) : Code.Awake I On Enough s := by
  refine System.Reachable.invariant (Code.Awake I On Enough) ?_ ?_ h
  · rintro ⟨x, ws⟩ ⟨hx, rfl⟩
    exact ⟨hstart x hx, fun _ h => absurd h List.not_mem_nil, fun _ h => absurd h List.not_mem_nil⟩
  · intro s l s' _ hs hn
    exact hC.awake hs hn

end Rules

end P2PFFmpeg.Library.Conditions
