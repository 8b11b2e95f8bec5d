import Mathlib.Order.Defs.Unbundled

/-!
Programs that do not notice a shift of the state: from the shifted state they return the
same value, and what they leave is shifted alike.
-/

namespace P2PFFmpeg.Library.Program

section

variable {ε σ τ α β : Type}

def after (x : EStateM ε σ α) (s : σ) : σ :=
  match x.run s with
  | .ok _ t => t
  | .error _ t => t

def fault (x : EStateM ε σ α) (s : σ) : Option ε :=
  match x.run s with
  | .ok _ _ => none
  | .error e _ => some e

def value (x : EStateM ε σ α) (s : σ) : Option α :=
  match x.run s with
  | .ok a _ => some a
  | .error _ _ => none

def zoom (part : τ → σ) (put : σ → τ → τ) (x : EStateM ε σ α) : EStateM ε τ α := fun t =>
  match x.run (part t) with
  | .ok a s => .ok a (put s t)
  | .error e s => .error e (put s t)

def doWhen (c : Bool) (x : EStateM ε σ Unit) : EStateM ε σ Unit := if c then x else pure ()

@[simp] theorem after_pure (a : α) (s : σ) : after (pure a : EStateM ε σ α) s = s := rfl

@[simp] theorem after_throw (e : ε) (s : σ) : after (throw e : EStateM ε σ α) s = s := rfl

@[simp] theorem after_get (s : σ) : after (get : EStateM ε σ σ) s = s := rfl

@[simp] theorem after_modify (f : σ → σ) (s : σ) : after (modify f : EStateM ε σ PUnit) s = f s := rfl

@[simp] theorem fault_pure (a : α) (s : σ) : fault (pure a : EStateM ε σ α) s = none := rfl

@[simp] theorem fault_throw (e : ε) (s : σ) : fault (throw e : EStateM ε σ α) s = some e := rfl

@[simp] theorem fault_get (s : σ) : fault (get : EStateM ε σ σ) s = none := rfl

@[simp] theorem fault_modify (f : σ → σ) (s : σ) :
    fault (modify f : EStateM ε σ PUnit) s = none := rfl

@[simp] theorem value_pure (a : α) (s : σ) : value (pure a : EStateM ε σ α) s = some a := rfl

@[simp] theorem value_throw (e : ε) (s : σ) : value (throw e : EStateM ε σ α) s = none := rfl

@[simp] theorem value_get (s : σ) : value (get : EStateM ε σ σ) s = some s := rfl

@[simp] theorem value_modify (f : σ → σ) (s : σ) :
    value (modify f : EStateM ε σ PUnit) s = some () := rfl

theorem after_bind (x : EStateM ε σ α) (f : α → EStateM ε σ β) (s : σ) :
    after (x >>= f) s = match value x s with
      | some a => after (f a) (after x s)
      | none => after x s := by
  simp only [after, value, EStateM.run_bind]
  cases x.run s <;> rfl

theorem fault_bind (x : EStateM ε σ α) (f : α → EStateM ε σ β) (s : σ) :
    fault (x >>= f) s = match value x s with
      | some a => fault (f a) (after x s)
      | none => fault x s := by
  simp only [after, value, fault, EStateM.run_bind]
  cases x.run s <;> rfl

theorem value_bind (x : EStateM ε σ α) (f : α → EStateM ε σ β) (s : σ) :
    value (x >>= f) s = (value x s).bind fun a => value (f a) (after x s) := by
  simp only [after, value, EStateM.run_bind]
  cases x.run s <;> rfl

variable {x : EStateM ε σ α} {f : α → EStateM ε σ β} {s : σ}

theorem value_bind_some {b : β} (h : value (x >>= f) s = some b) :
    ∃ a, value x s = some a ∧ value (f a) (after x s) = some b := by
  rw [value_bind] at h
  exact Option.bind_eq_some_iff.mp h

@[simp] theorem after_get_bind (f : σ → EStateM ε σ α) (s : σ) :
    after (get >>= f) s = after (f s) s := rfl

@[simp] theorem fault_get_bind (f : σ → EStateM ε σ α) (s : σ) :
    fault (get >>= f) s = fault (f s) s := rfl

@[simp] theorem value_get_bind (f : σ → EStateM ε σ α) (s : σ) :
    value (get >>= f) s = value (f s) s := rfl

@[simp] theorem after_modify_bind (g : σ → σ) (f : PUnit → EStateM ε σ α) (s : σ) :
    after (modify g >>= f) s = after (f ()) (g s) := rfl

@[simp] theorem fault_modify_bind (g : σ → σ) (f : PUnit → EStateM ε σ α) (s : σ) :
    fault (modify g >>= f) s = fault (f ()) (g s) := rfl

@[simp] theorem value_modify_bind (g : σ → σ) (f : PUnit → EStateM ε σ α) (s : σ) :
    value (modify g >>= f) s = value (f ()) (g s) := rfl

@[simp] theorem after_bind_pure (x : EStateM ε σ α) (f : α → β) (s : σ) :
    after (x >>= fun a => pure (f a)) s = after x s := by
  rw [after_bind]
  cases value x s <;> rfl

@[simp] theorem value_bind_pure (x : EStateM ε σ α) (f : α → β) (s : σ) :
    value (x >>= fun a => pure (f a)) s = (value x s).map f := by
  rw [value_bind]
  cases value x s <;> rfl

theorem fault_eq_none_iff (x : EStateM ε σ α) (s : σ) : fault x s = none ↔ ∃ a, value x s = some a := by
  simp only [fault, value]
  cases x.run s <;> simp

@[simp] theorem after_zoom (part : τ → σ) (put : σ → τ → τ) (x : EStateM ε σ α) (t : τ) :
    after (zoom part put x) t = put (after x (part t)) t := by
  simp only [after, zoom, EStateM.run]
  cases x (part t) <;> rfl

@[simp] theorem fault_zoom (part : τ → σ) (put : σ → τ → τ) (x : EStateM ε σ α) (t : τ) :
    fault (zoom part put x) t = fault x (part t) := by
  simp only [fault, zoom, EStateM.run]
  cases x (part t) <;> rfl

@[simp] theorem value_zoom (part : τ → σ) (put : σ → τ → τ) (x : EStateM ε σ α) (t : τ) :
    value (zoom part put x) t = value x (part t) := by
  simp only [value, zoom, EStateM.run]
  cases x (part t) <;> rfl

def Keeps (R : σ → σ → Prop) (x : EStateM ε σ α) : Prop := ∀ s, R s (after x s)

section Preorder

variable {R : σ → σ → Prop} [IsPreorder σ R]

theorem keeps_of_after_eq (h : ∀ s, after x s = s) : Keeps R x := by
  intro s
  rw [h]
  exact Std.Refl.refl s

theorem keeps_pure (a : α) : Keeps R (pure a : EStateM ε σ α) := keeps_of_after_eq (after_pure a)

theorem keeps_throw (e : ε) : Keeps R (throw e : EStateM ε σ α) := keeps_of_after_eq (after_throw e)

omit [IsPreorder σ R] in
theorem keeps_modify {f : σ → σ} (h : ∀ s, R s (f s)) : Keeps R (modify f : EStateM ε σ PUnit) := h

/-- The rule of sequencing at one state: the second program is followed only
where the first one returns. -/
theorem related_bind (hx : R s (after x s))
    (hf : ∀ a, value x s = some a → R (after x s) (after (f a) (after x s))) : R s (after (x >>= f) s) := by
  rw [after_bind]
  cases hv : value x s with
  | none => exact hx
  | some a => exact IsTrans.trans _ _ _ hx (hf a hv)

theorem keeps_bind (hx : Keeps R x) (hf : ∀ a, Keeps R (f a)) : Keeps R (x >>= f) := by
  intro s
  apply related_bind (hx s)
  intro a _
  exact hf a _

omit [IsPreorder σ R] in
theorem keeps_get_bind {f : σ → EStateM ε σ α} (h : ∀ t, Keeps R (f t)) : Keeps R (get >>= f) := by
  intro s
  rw [after_get_bind]
  exact h s s

theorem keeps_doWhen (c : Bool) {x : EStateM ε σ Unit} (h : Keeps R x) : Keeps R (doWhen c x) := by
  cases c with
  | false => exact keeps_pure ()
  | true => exact h

omit [IsPreorder σ R] in
theorem keeps_zoom {S : τ → τ → Prop} {part : τ → σ} {put : σ → τ → τ}
    (hput : ∀ t s, R (part t) s → S t (put s t)) (h : Keeps R x) : Keeps S (zoom part put x) := by
  intro t
  rw [after_zoom]
  exact hput t _ (h _)

end Preorder

def AvoidsAt (bad : ε → Prop) (x : EStateM ε σ α) (s : σ) : Prop := ∀ e, fault x s = some e → ¬ bad e

def Avoids (bad : ε → Prop) (x : EStateM ε σ α) : Prop := ∀ s, AvoidsAt bad x s

section Avoids

variable {bad : ε → Prop}

theorem avoids_pure (a : α) : Avoids bad (pure a : EStateM ε σ α) := by
  intro s e he
  cases he

theorem avoids_throw {e : ε} (h : ¬ bad e) : Avoids bad (throw e : EStateM ε σ α) := by
  intro s e' he
  cases he
  exact h

theorem avoids_modify (f : σ → σ) : Avoids bad (modify f : EStateM ε σ PUnit) := by
  intro s e he
  cases he

theorem avoids_bind (hx : Avoids bad x) (hf : ∀ a, Avoids bad (f a)) : Avoids bad (x >>= f) := by
  intro s e he
  rw [fault_bind] at he
  cases hv : value x s with
  | none => exact hx s e (by simpa only [hv] using he)
  | some a => exact hf a _ e (by simpa only [hv] using he)

theorem avoidsAt_of_value {a : α} (h : value x s = some a) : AvoidsAt bad x s := by
  intro e he
  rw [(fault_eq_none_iff x s).mpr ⟨a, h⟩] at he
  cases he

theorem avoidsAt_iff_of_fault {e : ε} (h : fault x s = some e) : AvoidsAt bad x s ↔ ¬ bad e := by
  constructor
  · intro hx
    exact hx e h
  · intro hbad e' he
    rw [h] at he
    cases he
    exact hbad

theorem avoidsAt_bind_of_value {a : α} (h : value x s = some a) :
    AvoidsAt bad (x >>= f) s ↔ AvoidsAt bad (f a) (after x s) := by
  rw [AvoidsAt, AvoidsAt, fault_bind, h]

theorem avoidsAt_bind_of_fault {e : ε} (h : fault x s = some e) : AvoidsAt bad (x >>= f) s ↔ ¬ bad e := by
  apply avoidsAt_iff_of_fault
  rw [fault_bind]
  cases hv : value x s with
  | none => exact h
  | some a =>
      rw [(fault_eq_none_iff x s).mpr ⟨a, hv⟩] at h
      cases h

/-- Where the second program is without bad faults, only the first one counts. -/
theorem avoidsAt_bind_iff (hf : ∀ a, Avoids bad (f a)) (s : σ) :
    AvoidsAt bad (x >>= f) s ↔ AvoidsAt bad x s := by
  cases hv : value x s with
  | none =>
      have hfault : fault (x >>= f) s = fault x s := by rw [fault_bind, hv]
      rw [AvoidsAt, AvoidsAt, hfault]
  | some a =>
      rw [avoidsAt_bind_of_value hv]
      exact iff_of_true (hf a _) (avoidsAt_of_value hv)

theorem avoidsAt_get_bind {f : σ → EStateM ε σ α} :
    AvoidsAt bad (get >>= f) s ↔ AvoidsAt bad (f s) s := Iff.rfl

theorem avoidsAt_zoom {part : τ → σ} {put : σ → τ → τ} {t : τ} :
    AvoidsAt bad (zoom part put x) t ↔ AvoidsAt bad x (part t) := by
  rw [AvoidsAt, AvoidsAt, fault_zoom]

theorem avoids_get_bind {f : σ → EStateM ε σ α} (h : ∀ t, Avoids bad (f t)) : Avoids bad (get >>= f) := by
  intro s e he
  exact h s s e he

theorem avoids_zoom {part : τ → σ} {put : σ → τ → τ} (h : Avoids bad x) : Avoids bad (zoom part put x) := by
  intro t
  exact avoidsAt_zoom.mpr (h _)

theorem avoids_doWhen (c : Bool) {x : EStateM ε σ Unit} (h : Avoids bad x) : Avoids bad (doWhen c x) := by
  cases c with
  | false => exact avoids_pure ()
  | true => exact h

end Avoids

/-- Where the program returns, it has left a state of the kind `Q` behind. -/
def EndsIn (Q : σ → Prop) (x : EStateM ε σ α) (s : σ) : Prop :=
  ∀ a, value x s = some a → Q (after x s)

section EndsIn

variable {Q : σ → Prop}

theorem endsIn_pure (a : α) (h : Q s) : EndsIn Q (pure a : EStateM ε σ α) s := by
  intro _ _
  exact h

theorem endsIn_throw (e : ε) : EndsIn Q (throw e : EStateM ε σ α) s := by
  intro a h
  cases h

theorem endsIn_modify {f : σ → σ} (h : Q (f s)) : EndsIn Q (modify f : EStateM ε σ PUnit) s := by
  intro _ _
  exact h

theorem endsIn_bind (h : ∀ a, value x s = some a → EndsIn Q (f a) (after x s)) : EndsIn Q (x >>= f) s := by
  intro b hb
  obtain ⟨a, ha, hv⟩ := value_bind_some hb
  rw [after_bind, ha]
  exact h a ha b hv

theorem endsIn_get_bind {f : σ → EStateM ε σ α} (h : EndsIn Q (f s) s) :
    EndsIn Q (get >>= f) s := h

theorem endsIn_modify_bind {g : σ → σ} {f : PUnit → EStateM ε σ α} (h : EndsIn Q (f ()) (g s)) :
    EndsIn Q (modify g >>= f) s := h

end EndsIn

end

section

variable {ε σ τ α β γ δ : Type}

/-- Wherever the view of the state is b, the program returns a and leaves b'. -/
def Turns (view : σ → Option β) (b : β) (x : EStateM ε σ α) (a : α) (b' : β) : Prop :=
  ∀ s, view s = some b → value x s = some a ∧ view (after x s) = some b'

variable {view : σ → Option β} {b c d : β}

theorem turns_pure (a : α) : Turns view b (pure a : EStateM ε σ α) a b := fun _ h => ⟨rfl, h⟩

theorem turns_bind {x : EStateM ε σ α} {f : α → EStateM ε σ δ} {a : α} {e : δ}
    (hx : Turns view b x a c) (hf : Turns view c (f a) e d) : Turns view b (x >>= f) e d := by
  intro s hs
  obtain ⟨hv, ha⟩ := hx s hs
  rw [value_bind, after_bind, hv]
  exact hf _ ha

theorem turns_modify {f : σ → σ} (h : ∀ s, view s = some b → view (f s) = some c) :
    Turns view b (modify f : EStateM ε σ PUnit) () c := fun s hs => ⟨rfl, h s hs⟩

/-- Reading the state is reading more than its view: what follows is to turn for
every state with this view. -/
theorem turns_get_bind {f : σ → EStateM ε σ α} {a : α}
    (h : ∀ s, view s = some b → Turns view b (f s) a c) : Turns view b (get >>= f) a c := by
  intro s hs
  rw [value_get_bind, after_get_bind]
  exact h s hs s hs

theorem turns_doWhen {x : EStateM ε σ Unit} (cond : Bool) (h : Turns view b x () b) :
    Turns view b (doWhen cond x) () b := by
  cases cond with
  | false => exact turns_pure ()
  | true => exact h

/-- A program on a part of the state turns what the view shows of the part. -/
theorem turns_zoom {part : τ → σ} {put : σ → τ → τ} {wide : τ → Option γ} {x : EStateM ε σ α}
    {a : α} {e e' : γ} (hin : ∀ t, wide t = some e → view (part t) = some b)
    (hout : ∀ t s, wide t = some e → view s = some c → wide (put s t) = some e')
    (hx : Turns view b x a c) : Turns wide e (zoom part put x) a e' := by
  intro t ht
  obtain ⟨hv, ha⟩ := hx _ (hin t ht)
  rw [value_zoom, after_zoom]
  exact ⟨hv, hout t _ ht ha⟩

end

section

variable {ε σ τ α β : Type}

def Mirrors (shift : σ → σ) (x y : EStateM ε σ α) (s : σ) : Prop :=
  value y (shift s) = value x s ∧ after y (shift s) = shift (after x s)

def Commutes (shift : σ → σ) (x : EStateM ε σ α) : Prop := ∀ s, Mirrors shift x x s

variable {shift : σ → σ}

theorem mirrors_modify {f g : σ → σ} {s : σ} (h : g (shift s) = shift (f s)) :
    Mirrors shift (modify f : EStateM ε σ PUnit) (modify g) s := ⟨rfl, h⟩

theorem mirrors_bind {x y : EStateM ε σ α} {f g : α → EStateM ε σ β} {s : σ} (hx : Mirrors shift x y s)
    (hf : ∀ a, value x s = some a → Mirrors shift (f a) (g a) (after x s)) :
    Mirrors shift (x >>= f) (y >>= g) s := by
  obtain ⟨hv, ha⟩ := hx
  rw [Mirrors, value_bind, value_bind, after_bind, after_bind, hv, ha]
  cases hvalue : value x s with
  | none => exact ⟨rfl, rfl⟩
  | some a => exact hf a hvalue

theorem mirrors_ite {c : Prop} [Decidable c] {x y x' y' : EStateM ε σ α} {s : σ} (h : Mirrors shift x y s)
    (h' : Mirrors shift x' y' s) : Mirrors shift (if c then x else x') (if c then y else y') s := by
  by_cases hc : c
  · rw [if_pos hc, if_pos hc]
    exact h
  · rw [if_neg hc, if_neg hc]
    exact h'

theorem mirrors_zoom {part : τ → σ} {put : σ → τ → τ} {whole : τ → τ} {x y : EStateM ε σ α} {t : τ}
    (hpart : part (whole t) = shift (part t)) (hput : ∀ s, put (shift s) (whole t) = whole (put s t))
    (h : Mirrors shift x y (part t)) : Mirrors whole (zoom part put x) (zoom part put y) t := by
  obtain ⟨hv, ha⟩ := h
  rw [Mirrors, value_zoom, value_zoom, after_zoom, after_zoom, hpart, hv, ha, hput]
  exact ⟨rfl, rfl⟩

theorem commutes_pure (a : α) : Commutes shift (pure a : EStateM ε σ α) := fun _ => ⟨rfl, rfl⟩

theorem commutes_throw (e : ε) : Commutes shift (throw e : EStateM ε σ α) := fun _ => ⟨rfl, rfl⟩

theorem commutes_modify {f : σ → σ} (h : ∀ s, f (shift s) = shift (f s)) :
    Commutes shift (modify f : EStateM ε σ PUnit) := fun s => mirrors_modify (h s)

theorem commutes_bind {x : EStateM ε σ α} {f : α → EStateM ε σ β} (hx : Commutes shift x)
    (hf : ∀ a, Commutes shift (f a)) : Commutes shift (x >>= f) :=
  fun s => mirrors_bind (hx s) fun a _ => hf a _

/-- What follows a read of the state is to be the same for the shifted state. -/
theorem commutes_get_bind {f : σ → EStateM ε σ α} (h : ∀ s, f (shift s) = f s)
    (hf : ∀ s, Commutes shift (f s)) : Commutes shift (get >>= f) := by
  intro s
  rw [Mirrors, value_get_bind, value_get_bind, after_get_bind, after_get_bind, h]
  exact hf s s

theorem commutes_doWhen (c : Bool) {x : EStateM ε σ Unit} (h : Commutes shift x) :
    Commutes shift (doWhen c x) := by
  cases c with
  | false => exact commutes_pure ()
  | true => exact h

end

end P2PFFmpeg.Library.Program
