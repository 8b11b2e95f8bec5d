import P2PFFmpeg.Library.Mutex
import P2PFFmpeg.Library.Transition
import P2PFFmpeg.Sender.Handler

namespace P2PFFmpeg.Sender.WakeUp

open Library Library.Transition Peer

inductive Party
  | muxer | signalling
  deriving DecidableEq, Repr

/-- The wait loop of p2p_rtp_muxer_init. The state is read in a lock section of
its own, and the wait is called after it. -/
inductive WaitPc
  | lockRead
  | readState
  | unlockRead (state : SenderState)
  | test (state : SenderState)
  | callWait
  | waiting
  | relock (timedOut : Bool)
  | woken (timedOut : Bool)
  | unlockReturn (ret : Int)
  | unlockLoop
  | returned (ret : Int)
  deriving DecidableEq, Repr

inductive SetPc
  | idle
  | lock (newState : SenderState)
  | compare (newState : SenderState)
  | broadcast
  | unlock
  deriving DecidableEq, Repr

structure State where
  mux : P2PRtpMuxContext
  stateMutex : Mutex Party
  now : Int
  deadline : Int
  muxer : WaitPc
  setter : SetPc

inductive Label
  | tick
  | call (newState : SenderState)
  | step (party : Party)
  deriving DecidableEq, Repr

def wake : WaitPc → WaitPc
  | .waiting => .relock false
  | pc => pc

def setterStep (s : State) : Option State :=
  match s.setter with
  | .idle => none
  | .lock newState =>
      (s.stateMutex.acquire .signalling).map fun m =>
        { s with stateMutex := m, setter := .compare newState }
  | .compare newState =>
      some { s with
        mux := setSenderState s.now newState s.mux
        setter := if s.mux.currentState < newState then .broadcast else .unlock }
  | .broadcast => some { s with muxer := wake s.muxer, setter := .unlock }
  | .unlock => some { s with stateMutex := s.stateMutex.release .signalling, setter := .idle }

/-- pthread_cond_timedwait lets go of the mutex, whoever holds it, and takes it
again before it returns. -/
def muxerStep (s : State) : Option State :=
  match s.muxer with
  | .lockRead =>
      (s.stateMutex.acquire .muxer).map fun m => { s with stateMutex := m, muxer := .readState }
  | .readState => some { s with muxer := .unlockRead s.mux.currentState }
  | .unlockRead state =>
      some { s with stateMutex := s.stateMutex.release .muxer, muxer := .test state }
  | .test state => some { s with muxer := if state = .streaming then .returned 0 else .callWait }
  | .callWait => some { s with stateMutex := s.stateMutex.release .muxer, muxer := .waiting }
  | .waiting => if s.deadline ≤ s.now then some { s with muxer := .relock true } else none
  | .relock timedOut =>
      (s.stateMutex.acquire .muxer).map fun m => { s with stateMutex := m, muxer := .woken timedOut }
  | .woken timedOut =>
      some { s with
        muxer := if timedOut then .unlockReturn averrorEtimedout
          else if s.mux.currentState = .error then .unlockReturn averrorExternal
          else .unlockLoop }
  | .unlockReturn ret =>
      some { s with stateMutex := s.stateMutex.release .muxer, muxer := .returned ret }
  | .unlockLoop => some { s with stateMutex := s.stateMutex.release .muxer, muxer := .lockRead }
  | .returned _ => none

def next (s : State) : Label → Option State
  | .tick => some { s with now := s.now + 1 }
  | .call newState => if s.setter = .idle then some { s with setter := .lock newState } else none
  | .step .signalling => setterStep s
  | .step .muxer => muxerStep s

def system : System State Label where
  init s := s.now < s.deadline ∧ s.stateMutex = Mutex.free ∧ s.muxer = .lockRead ∧ s.setter = .idle
  next := next

def State.holds (s : State) : Party → Bool
  | .muxer =>
      match s.muxer with
      | .readState | .unlockRead _ | .woken _ | .unlockReturn _ | .unlockLoop => true
      | _ => false
  | .signalling =>
      match s.setter with
      | .compare _ | .broadcast | .unlock => true
      | _ => false

/-- What a returned run of the wait loop owes to the sender states it has seen
and to the mutex. -/
structure WakesUp (s₀ s : State) (ls : List Label) (ret : Int) : Prop where
  streaming : (∃ u, system.Visits s₀ ls s u ∧ u.now < u.deadline ∧
    u.mux.currentState = .streaming) → ret = 0
  error : (∃ u, system.Visits s₀ ls s u ∧ u.now < u.deadline ∧ u.mux.currentState = .error) →
    (∀ u, system.Visits s₀ ls s u → u.mux.currentState ≠ .streaming) → ret = averrorExternal
  timeout : ret = averrorEtimedout → ∀ u, system.Visits s₀ ls s u → u.now < u.deadline →
    u.mux.currentState ≠ .streaming ∧ u.mux.currentState ≠ .error
  held : ∀ u v, system.Passes s₀ ls s u (.step .muxer) v → u.muxer = .callWait →
    u.stateMutex.holder = some .muxer
  released : ∀ u, system.Visits s₀ ls s u → u.stateMutex.Owned u.holds

def ReadsStreaming (s : State) : Label → Prop
  | .step .muxer => s.muxer = .readState → s.mux.currentState = .streaming
  | _ => True

def Straight : WaitPc → Prop
  | .lockRead | .readState => True
  | .unlockRead state | .test state => state = .streaming
  | .returned ret => ret = 0
  | _ => False

structure Orderly (s : State) : Prop where
  straight : Straight s.muxer
  owned : s.stateMutex.Owned s.holds

theorem straight_wake {pc : WaitPc} (h : Straight pc) : wake pc = pc := by
  cases pc with
  | waiting => exact h.elim
  | _ => rfl

variable {s t : State}

theorem orderly_setter (ho : Orderly s) (h : setterStep s = some t) : Orderly t := by
  rw [setterStep] at h
  cases hpc : s.setter with
  | idle => simp [hpc] at h
  | lock newState =>
      simp only [hpc, Option.map_eq_some_iff] at h
      obtain ⟨m, hm, rfl⟩ := h
      refine ⟨ho.straight, (ho.owned.acquire hm).congr ?_⟩
      intro p
      cases p <;> simp [State.holds]
  | compare newState =>
      simp only [hpc] at h
      cases h
      refine ⟨ho.straight, ho.owned.congr ?_⟩
      intro p
      cases p with
      | muxer => rfl
      | signalling =>
          by_cases hlt : s.mux.currentState < newState <;> simp [State.holds, hpc, hlt]
  | broadcast =>
      simp only [hpc, straight_wake ho.straight] at h
      cases h
      refine ⟨ho.straight, ho.owned.congr ?_⟩
      intro p
      cases p <;> simp [State.holds, hpc]
  | unlock =>
      simp only [hpc] at h
      cases h
      have hholds : s.holds .signalling = true := by simp [State.holds, hpc]
      refine ⟨ho.straight, (ho.owned.release hholds).congr ?_⟩
      intro p
      cases p <;> simp [State.holds]

theorem orderly_muxer (hc : ReadsStreaming s (.step .muxer)) (ho : Orderly s) (h : muxerStep s = some t) :
    Orderly t := by
  have hstraight := ho.straight
  rw [muxerStep] at h
  cases hpc : s.muxer with
  | lockRead =>
      simp only [hpc, Option.map_eq_some_iff] at h
      obtain ⟨m, hm, rfl⟩ := h
      refine ⟨trivial, (ho.owned.acquire hm).congr ?_⟩
      intro p
      cases p <;> simp [State.holds]
  | readState =>
      simp only [hpc, hc hpc] at h
      cases h
      refine ⟨rfl, ho.owned.congr ?_⟩
      intro p
      cases p <;> simp [State.holds, hpc]
  | unlockRead state =>
      rw [hpc] at hstraight
      cases hstraight
      simp only [hpc] at h
      cases h
      have hholds : s.holds .muxer = true := by simp [State.holds, hpc]
      refine ⟨rfl, (ho.owned.release hholds).congr ?_⟩
      intro p
      cases p <;> simp [State.holds]
  | test state =>
      rw [hpc] at hstraight
      cases hstraight
      simp only [hpc] at h
      cases h
      refine ⟨rfl, ho.owned.congr ?_⟩
      intro p
      cases p <;> simp [State.holds, hpc]
  | returned ret => simp [hpc] at h
  | _ =>
      rw [hpc] at hstraight
      exact hstraight.elim

theorem orderly_reachable {s : State} (h : (system.restrict ReadsStreaming).Reachable s) : Orderly s := by
  refine System.Reachable.invariant Orderly ?_ ?_ h
  · rintro s ⟨_, hfree, hmuxer, hsetter⟩
    refine ⟨by rw [hmuxer]; trivial, ?_⟩
    rw [hfree]
    refine Mutex.owned_free.congr ?_
    intro p
    cases p <;> simp [State.holds, hmuxer, hsetter]
  · intro s l t _ ho hn
    obtain ⟨hc, h⟩ := System.restrict_next.mp hn
    cases l with
    | tick =>
        cases h
        exact ⟨ho.straight, ho.owned⟩
    | call newState =>
        change (if s.setter = .idle then _ else none) = some t at h
        split at h
        · next hidle =>
            cases h
            refine ⟨ho.straight, ho.owned.congr ?_⟩
            intro p
            cases p <;> simp [State.holds, hidle]
        · cases h
    | step party =>
        cases party with
        | muxer => exact orderly_muxer hc ho h
        | signalling => exact orderly_setter ho h

theorem next_muxer {l : Label} (h : next s l = some t) (hl : l ≠ .step .muxer) :
    t.muxer = s.muxer ∨ t.muxer = wake s.muxer := by
  cases l with
  | tick =>
      cases h
      exact Or.inl rfl
  | call newState =>
      change (if s.setter = .idle then _ else none) = some t at h
      split at h
      · cases h
        exact Or.inl rfl
      · cases h
  | step party =>
      cases party with
      | muxer => exact absurd rfl hl
      | signalling =>
          change setterStep s = some t at h
          rw [setterStep] at h
          cases hpc : s.setter with
          | idle => simp [hpc] at h
          | lock newState =>
              simp only [hpc, Option.map_eq_some_iff] at h
              obtain ⟨m, _, rfl⟩ := h
              exact Or.inl rfl
          | broadcast =>
              simp only [hpc] at h
              cases h
              exact Or.inr rfl
          | compare _ | unlock =>
              simp only [hpc] at h
              cases h
              exact Or.inl rfl

def BeforeWait : WaitPc → Prop
  | .unlockRead state => state ≠ .streaming
  | .test state => state ≠ .streaming
  | .callWait => True
  | _ => False

theorem beforeWait_step {l : Label} (h : next s l = some t) (hb : BeforeWait s.muxer) :
    BeforeWait t.muxer ∨ (s.muxer = .callWait ∧ l = .step .muxer) := by
  by_cases hl : l = .step .muxer
  · subst hl
    change muxerStep s = some t at h
    rw [muxerStep] at h
    cases hpc : s.muxer with
    | unlockRead state =>
        rw [hpc] at hb
        simp only [hpc] at h
        cases h
        exact Or.inl hb
    | test state =>
        rw [hpc] at hb
        simp only [hpc, if_neg hb] at h
        cases h
        exact Or.inl trivial
    | callWait => exact Or.inr ⟨rfl, rfl⟩
    | _ =>
        rw [hpc] at hb
        exact hb.elim
  · left
    rcases next_muxer h hl with hm | hm
    · rwa [hm]
    · rw [hm]
      cases hpc : s.muxer with
      | waiting =>
          rw [hpc] at hb
          exact hb.elim
      | _ =>
          rw [hpc] at hb
          exact hb

theorem holds_wake {s : State} {setter : SetPc} (h : s.holds .muxer = true) :
    State.holds { s with muxer := wake s.muxer, setter := setter } .muxer = true := by
  cases hpc : s.muxer <;> simp [State.holds, hpc, wake] at h ⊢

theorem holder_setter (hi : s.stateMutex.holder = some .muxer → s.holds .muxer = true)
    (h : setterStep s = some t) (ht : t.stateMutex.holder = some .muxer) : t.holds .muxer = true := by
  rw [setterStep] at h
  cases hpc : s.setter with
  | idle => simp [hpc] at h
  | lock newState =>
      simp only [hpc, Option.map_eq_some_iff] at h
      obtain ⟨m, hm, rfl⟩ := h
      have hholder := Mutex.holder_acquire hm
      rw [show m.holder = some .muxer from ht] at hholder
      cases hholder
  | compare newState =>
      simp only [hpc] at h
      cases h
      exact hi ht
  | broadcast =>
      simp only [hpc] at h
      cases h
      exact holds_wake (hi ht)
  | unlock =>
      simp only [hpc] at h
      cases h
      cases ht

theorem holder_muxerStep (hi : s.stateMutex.holder = some .muxer → s.holds .muxer = true)
    (h : muxerStep s = some t) (ht : t.stateMutex.holder = some .muxer) : t.holds .muxer = true := by
  rw [muxerStep] at h
  cases hpc : s.muxer with
  | lockRead | relock _ =>
      simp only [hpc, Option.map_eq_some_iff] at h
      obtain ⟨m, _, rfl⟩ := h
      rfl
  | readState =>
      simp only [hpc] at h
      cases h
      rfl
  | woken timedOut =>
      simp only [hpc] at h
      cases h
      simp only [State.holds]
      cases timedOut with
      | true => rfl
      | false =>
          by_cases herr : s.mux.currentState = .error <;> simp [herr]
  | unlockRead _ | callWait | unlockReturn _ | unlockLoop =>
      simp only [hpc] at h
      cases h
      cases ht
  | test state =>
      simp only [hpc] at h
      cases h
      have hfalse := hi ht
      simp [State.holds, hpc] at hfalse
  | waiting =>
      simp only [hpc] at h
      split at h
      · cases h
        have hfalse := hi ht
        simp [State.holds, hpc] at hfalse
      · cases h
  | returned ret => simp [hpc] at h

/-- While the muxer holds the mutex it is in a piece of code that it runs with
the mutex held, and the call of the wait is not one of them. -/
theorem holder_muxer {s : State} (h : system.Reachable s)
    (hs : s.stateMutex.holder = some .muxer) : s.holds .muxer = true := by
  refine System.Reachable.invariant
    (fun s => s.stateMutex.holder = some .muxer → s.holds .muxer = true) ?_ ?_ h hs
  · rintro s ⟨_, hfree, _, _⟩ hs
    rw [hfree] at hs
    cases hs
  · intro s l t _ hi hn ht
    cases l with
    | tick =>
        cases hn
        exact hi ht
    | call newState =>
        change (if s.setter = .idle then _ else none) = some t at hn
        split at hn
        · cases hn
          exact hi ht
        · cases hn
    | step party =>
        cases party with
        | muxer => exact holder_muxerStep hi hn ht
        | signalling => exact holder_setter hi hn ht

theorem calls_wait {s₀ s u v : State} {ls : List Label} {ret : Int}
    (hp : system.Passes s₀ ls s u (.step .muxer) v) (hread : u.muxer = .readState)
    (hne : u.mux.currentState ≠ .streaming) (hret : s.muxer = .returned ret) :
    ∃ a b, system.Passes s₀ ls s a (.step .muxer) b ∧ a.muxer = .callWait := by
  obtain ⟨before, after, rfl, hb, hn, ha⟩ := hp
  have hv : BeforeWait v.muxer := by
    change muxerStep u = some v at hn
    simp only [muxerStep, hread] at hn
    cases hn
    exact hne
  have hs : ¬ BeforeWait s.muxer := by
    rw [hret]
    exact id
  obtain ⟨a, l, b, hpass, hna, hnb⟩ := ha.switch (fun s => ¬ BeforeWait s.muxer) (not_not.mpr hv) hs
  obtain ⟨xs, ys, rfl, hx, hab, hy⟩ := hpass
  rcases beforeWait_step hab (not_not.mp hna) with hbw | ⟨hcall, rfl⟩
  · exact absurd hbw hnb
  · refine ⟨a, b, ⟨before ++ .step .muxer :: xs, ys, by simp, ?_, hab, hy⟩, hcall⟩
    have hrun := (System.Run.snoc hb hn).trans hx
    simpa using hrun

theorem reads_state {s₀ s : State} {ls : List Label} {ret : Int} (h₀ : system.init s₀)
    (hr : system.Run s₀ ls s) (hret : s.muxer = .returned ret) :
    ∃ u v, system.Passes s₀ ls s u (.step .muxer) v ∧ u.muxer = .readState := by
  obtain ⟨_, _, hstart, _⟩ := h₀
  obtain ⟨u, l, v, hpass, hu, hv⟩ :=
    hr.switch (fun s => s.muxer ≠ .lockRead ∧ s.muxer ≠ .readState)
      (fun h => h.1 hstart) (by rw [hret]; simp)
  obtain ⟨_, _, _, _, hn, _⟩ := id hpass
  by_cases hl : l = .step .muxer
  · subst hl
    refine ⟨u, v, hpass, ?_⟩
    by_contra hne
    have hlock : u.muxer = .lockRead := by
      by_contra hne'
      exact hu ⟨hne', hne⟩
    change muxerStep u = some v at hn
    simp only [muxerStep, hlock, Option.map_eq_some_iff] at hn
    obtain ⟨m, _, rfl⟩ := hn
    exact hv.2 rfl
  · have hsame : v.muxer = u.muxer := by
      rcases next_muxer hn hl with hm | hm
      · exact hm
      · rw [hm]
        cases hpc : u.muxer with
        | waiting => exact absurd ⟨by simp [hpc], by simp [hpc]⟩ hu
        | _ => rfl
    rw [hsame] at hv
    exact absurd hv hu

/-- The wait loop never loses a wake-up, nor the mutex, exactly in the runs that
never get to wait: those in which the state is read as streaming at once. -/
theorem wakes_up_iff {s₀ s : State} {ls : List Label} {ret : Int} (h₀ : system.init s₀)
    (hr : system.Run s₀ ls s) (hret : s.muxer = .returned ret) :
    WakesUp s₀ s ls ret ↔ ∀ u v, system.Passes s₀ ls s u (.step .muxer) v →
      u.muxer = .readState → u.mux.currentState = .streaming := by
  constructor
  · intro hw u v hp hread
    by_contra hne
    obtain ⟨a, b, hpass, hcall⟩ := calls_wait hp hread hne hret
    obtain ⟨before, _, _, hb, _, _⟩ := id hpass
    have hholds := holder_muxer ⟨s₀, before, h₀, hb⟩ (hw.held a b hpass hcall)
    simp [State.holds, hcall] at hholds
  · intro hreads
    have horderly : ∀ u, system.Visits s₀ ls s u → Orderly u := by
      rintro u ⟨before, after, rfl, hb, ha⟩
      refine orderly_reachable ⟨s₀, before, h₀, hb.restrict ?_⟩
      intro a l b hpass
      cases l with
      | step party =>
          cases party with
          | muxer => exact hreads a b (hpass.extend ha)
          | signalling => trivial
      | _ => trivial
    have hend : Orderly s := horderly s ⟨ls, [], by simp, hr, .nil⟩
    have hzero : ret = 0 := by
      have hstraight := hend.straight
      rw [hret] at hstraight
      exact hstraight
    constructor
    · exact fun _ => hzero
    · intro _ hnever
      obtain ⟨u, v, hpass, hread⟩ := reads_state h₀ hr hret
      exact absurd (hreads u v hpass hread) (hnever u hpass.visits)
    · intro htimeout
      rw [hzero] at htimeout
      exact absurd htimeout (by decide)
    · intro u v hpass hcall
      have hstraight := (horderly u hpass.visits).straight
      rw [hcall] at hstraight
      exact hstraight.elim
    · exact fun u hu => (horderly u hu).owned

/-- The muxer enters its loop while it waits for a receiver, ten ticks before
the deadline. -/
def State.start : State where
  mux :=
    { p2pContext := ⟨none, none, .empty, none, []⟩
      currentState := .waitingForReceiver
      stateEnterTime := 0
      streams := []
      roomId := none
      waitTimeout := 10 }
  stateMutex := Mutex.free
  now := 0
  deadline := 10
  muxer := .lockRead
  setter := .idle

theorem start_init : system.init State.start := ⟨by decide, rfl, rfl, rfl⟩

/-- The streaming state is set, and the muxer reads it at once. -/
theorem wakes_up_at_once : ∃ ls s, s.muxer = .returned 0 ∧
    (WakesUp State.start s ls 0 ↔ ∀ u v, system.Passes State.start ls s u (.step .muxer) v →
      u.muxer = .readState → u.mux.currentState = .streaming) := by
  have hrun : (system.run (.call .streaming :: List.replicate 4 (.step .signalling) ++
      List.replicate 4 (.step .muxer)) State.start).map (fun s => s.muxer) = some (.returned 0) := by
    decide +kernel
  obtain ⟨s, hs, hret⟩ := Option.map_eq_some_iff.mp hrun
  exact ⟨_, s, hret, wakes_up_iff start_init (.of_run hs) hret⟩

def broadcastAfterRead : List Label :=
  List.replicate 4 (.step .muxer) ++ .call .streaming :: List.replicate 4 (.step .signalling)

def waitUntilDeadline : List Label :=
  .step .muxer :: List.replicate 10 .tick ++ List.replicate 4 (.step .muxer)

/-- The wake-up gets lost: the initialisation times out although the sender has
been streaming since long before the deadline. -/
theorem wake_up_lost : ¬ ∀ s₀ s ls ret, system.init s₀ → system.Run s₀ ls s →
    s.muxer = .returned ret → WakesUp s₀ s ls ret := by
  intro h
  have hset : (system.run broadcastAfterRead State.start).map
      (fun s => (s.mux.currentState, s.now, s.deadline)) = some (.streaming, 0, 10) := by
    decide +kernel
  have hrun : (system.run (broadcastAfterRead ++ waitUntilDeadline) State.start).map
      (fun s => s.muxer) = some (.returned averrorEtimedout) := by
    decide +kernel
  obtain ⟨u, hu, hview⟩ := Option.map_eq_some_iff.mp hset
  obtain ⟨s, hs, hret⟩ := Option.map_eq_some_iff.mp hrun
  obtain ⟨hstate, htime⟩ := Prod.mk.inj hview
  obtain ⟨hnow, hdeadline⟩ := Prod.mk.inj htime
  have hw := h State.start s _ _ start_init (.of_run hs) hret
  have hzero := hw.streaming ⟨u, .of_run hu hs, by rw [hnow, hdeadline]; decide, hstate⟩
  exact absurd hzero (by decide)

end P2PFFmpeg.Sender.WakeUp
