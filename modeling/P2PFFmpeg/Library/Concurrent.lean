import P2PFFmpeg.Library.Program
import P2PFFmpeg.Library.Transition

namespace P2PFFmpeg.Library.Concurrent

open Program Transition

variable {ε σ μ ω θ ρ ι κ α : Type}

/-- The programs of the threads of a process, over a context they share. The
first part of the message handler and the callbacks of a library leave
operations to do; the process also has a thread of its own. Environments and
inputs carry what the calls of a step return. -/
structure Threads (ε σ μ ω θ ρ ι κ : Type) where
  head : ρ → μ → EStateM ε σ (List ω)
  op : ρ → ω → EStateM ε σ Unit
  callback : κ → EStateM ε σ (List ω)
  thread : ι → θ → EStateM ε σ θ

/-- The message thread handles a message and still has the operations in todo
to do for it, the library threads still have the ones in pool. -/
structure Process (σ μ ω θ : Type) where
  context : σ
  message : Option μ
  todo : List ω
  pool : List ω
  thread : θ
  crashed : Bool

inductive Label (μ ρ ι κ : Type)
  | message (env : ρ) (msg : μ)
  | handlerOp (env : ρ)
  | callback (event : κ)
  | callbackOp (env : ρ)
  | thread (input : ι)

def Process.exec (s : Process σ μ ω θ) (x : EStateM ε σ α)
    (k : α → Process σ μ ω θ → Process σ μ ω θ) : Process σ μ ω θ :=
  match value x s.context with
  | some a => k a { s with context := after x s.context }
  | none => { s with context := after x s.context, crashed := true }

def Threads.next (T : Threads ε σ μ ω θ ρ ι κ) (s : Process σ μ ω θ) (l : Label μ ρ ι κ) :
    Option (Process σ μ ω θ) :=
  if s.crashed then none
  else match l with
  | .message env msg =>
      match s.todo with
      | [] => some (s.exec (T.head env msg) fun ops t => { t with message := some msg, todo := ops })
      | _ :: _ => none
  | .handlerOp env =>
      match s.todo with
      | [] => none
      | op :: ops => some (s.exec (T.op env op) fun _ t => { t with todo := ops })
  | .callback event =>
      some (s.exec (T.callback event) fun ops t => { t with pool := t.pool ++ ops })
  | .callbackOp env =>
      match s.pool with
      | [] => none
      | op :: ops => some (s.exec (T.op env op) fun _ t => { t with pool := ops })
  | .thread input => some (s.exec (T.thread input s.thread) fun a t => { t with thread := a })

def Threads.system (T : Threads ε σ μ ω θ ρ ι κ) (init : Process σ μ ω θ → Prop) :
    System (Process σ μ ω θ) (Label μ ρ ι κ) where
  init := init
  next := T.next

structure Ran (s t : Process σ μ ω θ) (x : EStateM ε σ α)
    (k : α → Process σ μ ω θ → Process σ μ ω θ) : Prop where
  context : t.context = after x s.context
  control : (∃ a, value x s.context = some a ∧ t = k a { s with context := t.context }) ∨
    (value x s.context = none ∧ t = { s with context := t.context, crashed := true })

theorem ran_exec (s : Process σ μ ω θ) (x : EStateM ε σ α)
    {k : α → Process σ μ ω θ → Process σ μ ω θ} (hk : ∀ a t, (k a t).context = t.context) :
    Ran s (s.exec x k) x k := by
  rw [Process.exec]
  cases hv : value x s.context with
  | some a => exact ⟨hk a _, Or.inl ⟨a, hv, by simp only [hk]⟩⟩
  | none => exact ⟨rfl, Or.inr ⟨hv, rfl⟩⟩

inductive Moves (T : Threads ε σ μ ω θ ρ ι κ) (s t : Process σ μ ω θ) : Label μ ρ ι κ → Prop
  | message {env msg} : s.todo = [] →
      Ran s t (T.head env msg) (fun ops u => { u with message := some msg, todo := ops }) →
      Moves T s t (.message env msg)
  | handlerOp {env op ops} : s.todo = op :: ops →
      Ran s t (T.op env op) (fun _ u => { u with todo := ops }) → Moves T s t (.handlerOp env)
  | callback {event} : Ran s t (T.callback event) (fun ops u => { u with pool := u.pool ++ ops }) →
      Moves T s t (.callback event)
  | callbackOp {env op ops} : s.pool = op :: ops →
      Ran s t (T.op env op) (fun _ u => { u with pool := ops }) → Moves T s t (.callbackOp env)
  | thread {input} : Ran s t (T.thread input s.thread) (fun a u => { u with thread := a }) →
      Moves T s t (.thread input)

inductive Scheduled (T : Threads ε σ μ ω θ ρ ι κ) (s t : Process σ μ ω θ) : Label μ ρ ι κ → Prop
  | crashed (l) : t = { s with context := t.context, crashed := true } → Scheduled T s t l
  | message {env msg} (ops : List ω) : s.todo = [] → value (T.head env msg) s.context = some ops →
      t = { s with context := t.context, message := some msg, todo := ops } →
      Scheduled T s t (.message env msg)
  | handlerOp {env} (op : ω) (ops : List ω) : s.todo = op :: ops →
      t = { s with context := t.context, todo := ops } → Scheduled T s t (.handlerOp env)
  | callback {event} (ops : List ω) : value (T.callback event) s.context = some ops →
      t = { s with context := t.context, pool := s.pool ++ ops } → Scheduled T s t (.callback event)
  | callbackOp {env} (op : ω) (ops : List ω) : s.pool = op :: ops →
      t = { s with context := t.context, pool := ops } → Scheduled T s t (.callbackOp env)
  | thread {input} (a : θ) : value (T.thread input s.thread) s.context = some a →
      t = { s with context := t.context, thread := a } → Scheduled T s t (.thread input)

section Steps

variable {T : Threads ε σ μ ω θ ρ ι κ} {s t : Process σ μ ω θ} {l : Label μ ρ ι κ}

theorem next_running (h : T.next s l = some t) : s.crashed = false := by
  by_contra hc
  rw [Bool.not_eq_false] at hc
  simp [Threads.next, hc] at h

theorem next_moves (h : T.next s l = some t) : Moves T s t l := by
  have hrun := next_running h
  unfold Threads.next at h
  rw [hrun, if_neg Bool.false_ne_true] at h
  cases l with
  | message env msg =>
      simp only at h
      split at h
      · next htodo =>
          cases h
          exact .message htodo (ran_exec _ _ (fun _ _ => rfl))
      · cases h
  | handlerOp env =>
      simp only at h
      split at h
      · cases h
      · next op ops htodo =>
          cases h
          exact .handlerOp htodo (ran_exec _ _ (fun _ _ => rfl))
  | callback event =>
      cases h
      exact .callback (ran_exec _ _ (fun _ _ => rfl))
  | callbackOp env =>
      simp only at h
      split at h
      · cases h
      · next op ops hpool =>
          cases h
          exact .callbackOp hpool (ran_exec _ _ (fun _ _ => rfl))
  | thread input =>
      cases h
      exact .thread (ran_exec _ _ (fun _ _ => rfl))

theorem next_scheduled (h : T.next s l = some t) : Scheduled T s t l := by
  cases next_moves h with
  | message htodo hr =>
      rcases hr.control with ⟨ops, hv, he⟩ | ⟨_, he⟩
      · exact .message ops htodo hv he
      · exact .crashed _ he
  | handlerOp htodo hr =>
      rcases hr.control with ⟨_, _, he⟩ | ⟨_, he⟩
      · exact .handlerOp _ _ htodo he
      · exact .crashed _ he
  | callback hr =>
      rcases hr.control with ⟨ops, hv, he⟩ | ⟨_, he⟩
      · exact .callback ops hv he
      · exact .crashed _ he
  | callbackOp hpool hr =>
      rcases hr.control with ⟨_, _, he⟩ | ⟨_, he⟩
      · exact .callbackOp _ _ hpool he
      · exact .crashed _ he
  | thread hr =>
      rcases hr.control with ⟨a, hv, he⟩ | ⟨_, he⟩
      · exact .thread a hv he
      · exact .crashed _ he

/-- The message thread works off its operations one by one, and takes up new
ones only with a new message. -/
theorem next_todo (h : T.next s l = some t) : (t.todo = s.todo ∧ t.message = s.message) ∨
      (∃ env op, l = .handlerOp env ∧ s.todo = op :: t.todo ∧ t.message = s.message) ∨
      ∃ env msg, l = .message env msg ∧ s.todo = [] ∧
        value (T.head env msg) s.context = some t.todo ∧ t.message = some msg := by
  cases next_scheduled h with
  | message ops htodo hv he =>
      rw [he]
      exact Or.inr (Or.inr ⟨_, _, rfl, htodo, hv, rfl⟩)
  | handlerOp op ops htodo he =>
      rw [he, htodo]
      exact Or.inr (Or.inl ⟨_, op, rfl, rfl, rfl⟩)
  | crashed _ he | callback _ _ he | callbackOp _ _ _ he | thread _ _ he =>
      rw [he]
      exact Or.inl ⟨rfl, rfl⟩

theorem next_pool (h : T.next s l = some t) : ∀ op ∈ t.pool, op ∈ s.pool ∨
    ∃ event ops, l = .callback event ∧ value (T.callback event) s.context = some ops ∧ op ∈ ops := by
  cases next_scheduled h with
  | callback ops hv he =>
      rw [he]
      intro op ho
      rcases List.mem_append.mp ho with ho | ho
      · exact Or.inl ho
      · exact Or.inr ⟨_, ops, rfl, hv, ho⟩
  | callbackOp op ops hpool he =>
      rw [he, hpool]
      exact fun _ ho => Or.inl (List.mem_cons_of_mem _ ho)
  | crashed _ he | message _ _ _ he | handlerOp _ _ _ he | thread _ _ he =>
      rw [he]
      exact fun _ ho => Or.inl ho

theorem next_thread (h : T.next s l = some t) :
    ((t.crashed = true ∨ ∀ input, l ≠ .thread input) ∧ t.thread = s.thread) ∨
      ∃ input, l = .thread input ∧ value (T.thread input s.thread) s.context = some t.thread := by
  cases next_scheduled h with
  | crashed _ he =>
      rw [he]
      exact Or.inl ⟨Or.inl rfl, rfl⟩
  | thread a hv he =>
      rw [he]
      exact Or.inr ⟨_, rfl, hv⟩
  | message _ _ _ he | handlerOp _ _ _ he | callback _ _ he | callbackOp _ _ _ he =>
      rw [he]
      exact Or.inl ⟨Or.inr (by simp), rfl⟩

theorem next_handlerOp {env : ρ} {op : ω} {ops : List ω} (h : T.next s (.handlerOp env) = some t)
    (htodo : s.todo = op :: ops) (hv : value (T.op env op) s.context = some ()) :
    t = { s with context := after (T.op env op) s.context, todo := ops } := by
  cases next_moves h with
  | handlerOp htodo' hr =>
      rw [htodo] at htodo'
      cases htodo'
      rcases hr.control with ⟨_, _, he⟩ | ⟨hnone, _⟩
      · rw [← hr.context]
        exact he
      · rw [hv] at hnone
        cases hnone

end Steps

end P2PFFmpeg.Library.Concurrent
