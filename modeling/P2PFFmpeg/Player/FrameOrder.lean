import P2PFFmpeg.Library.Ring
import P2PFFmpeg.Library.Transition

namespace P2PFFmpeg.Player

open Library Library.Transition

section

variable {α : Type}

/-- A slot of the queue holds a frame or has been unreferenced. -/
structure FrameQueue (α : Type) where
  queue : Nat → Option α
  rindex : Nat
  windex : Nat
  size : Int
  maxSize : Nat
  keepLast : Bool
  rindexShown : Nat

def FRAME_QUEUE_SIZE : Nat := 16

def frameQueueInit (maxSize : Nat) (keepLast : Bool) : FrameQueue α where
  queue := fun _ => none
  rindex := 0
  windex := 0
  size := 0
  maxSize := min maxSize FRAME_QUEUE_SIZE
  keepLast := keepLast
  rindexShown := 0

def frameQueuePeek (f : FrameQueue α) : Nat := (f.rindex + f.rindexShown) % f.maxSize

def frameQueuePeekNext (f : FrameQueue α) : Nat := (f.rindex + f.rindexShown + 1) % f.maxSize

def frameQueuePeekLast (f : FrameQueue α) : Nat := f.rindex

def frameQueueNbRemaining (f : FrameQueue α) : Int := f.size - f.rindexShown

def frameQueueUnrefItem (f : FrameQueue α) (slot : Nat) : FrameQueue α :=
  { f with queue := Function.update f.queue slot none }

/-- Where the producer is: in the loop of frame_queue_peek_writable, behind it,
with the slot, with the slot filled, and between the two changes of
frame_queue_push. -/
inductive ProducerPc (α : Type)
  | readSize
  | readAbort
  | leave
  | slot
  | filled (frame : α)
  | moved (frame : α)
deriving DecidableEq

/-- Where the consumer is: before its test of frame_queue_nb_remaining, with a
frame to take, and before each of the three changes of frame_queue_next. -/
inductive ConsumerPc
  | test
  | ready
  | unref
  | move
  | decrement
deriving DecidableEq

/-- The queue, the flag of its packet queue, the two threads, and what has been
pushed and what frame_queue_next has been called for. -/
structure FrameState (α : Type) where
  f : FrameQueue α
  abortRequest : Bool
  producer : ProducerPc α
  consumer : ConsumerPc
  produced : List α
  consumed : List (Option α)

/-- An index goes up by one and wraps at the size. -/
def advance (index maxSize : Nat) : Nat := if index + 1 = maxSize then 0 else index + 1

/-- The next shared access of the producer, who fills its slot with the given
frame. Its loop reads the size and the flag one after the other, and a thread
that waits comes back to the loop whenever it is woken. -/
def producerStep (s : FrameState α) (frame : α) : FrameState α :=
  match s.producer with
  | .readSize =>
      if s.f.size ≥ s.f.maxSize then { s with producer := .readAbort }
      else { s with producer := .leave }
  | .readAbort =>
      if s.abortRequest then { s with producer := .leave } else { s with producer := .readSize }
  | .leave =>
      if s.abortRequest then { s with producer := .readSize } else { s with producer := .slot }
  | .slot =>
      { s with
        f := { s.f with queue := Function.update s.f.queue s.f.windex (some frame) }
        producer := .filled frame }
  | .filled frame =>
      { s with
        f := { s.f with windex := advance s.f.windex s.f.maxSize }
        producer := .moved frame }
  | .moved frame =>
      { s with
        f := { s.f with size := s.f.size + 1 }
        producer := .readSize
        produced := s.produced ++ [frame] }

/-- The next shared access of the consumer, who calls frame_queue_next for the
frame that frame_queue_peek points to. -/
def consumerStep (s : FrameState α) : FrameState α :=
  match s.consumer with
  | .test => if frameQueueNbRemaining s.f > 0 then { s with consumer := .ready } else s
  | .ready =>
      if s.f.keepLast = true ∧ s.f.rindexShown = 0 then
        { s with
          f := { s.f with rindexShown := 1 }
          consumer := .test
          consumed := s.consumed ++ [s.f.queue (frameQueuePeek s.f)] }
      else
        { s with
          consumer := .unref
          consumed := s.consumed ++ [s.f.queue (frameQueuePeek s.f)] }
  | .unref => { s with f := frameQueueUnrefItem s.f s.f.rindex, consumer := .move }
  | .move =>
      { s with f := { s.f with rindex := advance s.f.rindex s.f.maxSize }, consumer := .decrement }
  | .decrement => { s with f := { s.f with size := s.f.size - 1 }, consumer := .test }

inductive FrameLabel (α : Type)
  | producer (frame : α)
  | consumer
  | abort

def FrameLabel.state (s : FrameState α) : FrameLabel α → FrameState α
  | .producer frame => producerStep s frame
  | .consumer => consumerStep s
  | .abort => { s with abortRequest := true }

def FrameState.start (maxSize : Nat) (keepLast : Bool) : FrameState α where
  f := frameQueueInit maxSize keepLast
  abortRequest := false
  producer := .readSize
  consumer := .test
  produced := []
  consumed := []

def framing (α : Type) (maxSize : Nat) (keepLast : Bool) :
    System (FrameState α) (FrameLabel α) where
  init s := s = .start maxSize keepLast
  next s l := some (l.state s)

def FrameState.given (s : FrameState α) : Option Nat :=
  match s.producer with
  | .slot | .filled _ => some s.f.windex
  | _ => none

/-- One between the change of an index and the change of the size. -/
def ProducerPc.pending : ProducerPc α → Nat
  | .moved _ => 1
  | _ => 0

def ConsumerPc.pending : ConsumerPc → Nat
  | .decrement => 1
  | _ => 0

/-- The slots that the consumer may still read: that of the next frame, that of
the one behind it when two remain, and that of the frame shown last. -/
def FrameState.mayRead (s : FrameState α) : List Nat :=
  (if frameQueueNbRemaining s.f - s.consumer.pending ≥ 1 then [frameQueuePeek s.f] else []) ++
    (if frameQueueNbRemaining s.f - s.consumer.pending ≥ 2 then [frameQueuePeekNext s.f] else []) ++
    (if s.f.rindexShown = 1 then [frameQueuePeekLast s.f] else [])

end

section

variable {α : Type}

theorem advance_eq {index maxSize : Nat} (h : index < maxSize) :
    advance index maxSize = (index + 1) % maxSize := by
  unfold advance
  split
  · next hlast => rw [hlast, Nat.mod_self]
  · rw [Nat.mod_eq_of_lt (by omega)]

def ProducerPc.hasRoom : ProducerPc α → Prop
  | .slot | .filled _ | .moved _ => True
  | _ => False

def ProducerPc.inFlight : ProducerPc α → Option α
  | .filled frame | .moved frame => some frame
  | _ => none

/-- One between the call of frame_queue_next and the move of the read index. -/
def ConsumerPc.taken : ConsumerPc → Nat
  | .unref | .move => 1
  | _ => 0

def ConsumerPc.emptied : ConsumerPc → Nat
  | .move => 1
  | _ => 0

structure Holding (s : FrameState α) (gone held : List α) : Prop where
  rindex : s.f.rindex < s.f.maxSize
  windex : s.f.windex = (s.f.rindex + (held.length + s.producer.pending)) % s.f.maxSize
  size : s.f.size = (held.length + s.consumer.pending : Nat)
  bound : s.f.size ≤ s.f.maxSize
  room : s.producer.hasRoom → s.f.size < s.f.maxSize
  leave : s.producer = .leave → s.f.size < s.f.maxSize ∨ s.abortRequest = true
  shown : s.f.rindexShown ≤ 1
  seen : s.f.rindexShown + s.consumer.taken ≤ held.length
  ready : s.consumer = .ready → s.f.rindexShown < held.length
  content : ∀ i, i < held.length → s.consumer.emptied ≤ i →
    s.f.queue ((s.f.rindex + i) % s.f.maxSize) = held[i]?
  inFlight : ∀ frame, s.producer.inFlight = some frame →
    s.f.queue ((s.f.rindex + held.length) % s.f.maxSize) = some frame
  produced : s.produced = gone ++ held
  consumed : s.consumed = (gone ++ held.take (s.f.rindexShown + s.consumer.taken)).map some

theorem start_holding {maxSize : Nat} (h : 0 < maxSize) (keepLast : Bool) :
    Holding (FrameState.start maxSize keepLast : FrameState α) [] [] := by
  have hpos : 0 < min maxSize FRAME_QUEUE_SIZE := Nat.lt_min.mpr ⟨h, by decide⟩
  exact
    { rindex := hpos
      windex := (Nat.zero_mod _).symm
      size := rfl
      bound := Int.natCast_nonneg _
      room := False.elim
      leave := by simp [FrameState.start]
      shown := Nat.zero_le 1
      seen := Nat.le_refl 0
      ready := by simp [FrameState.start]
      content := by simp
      inFlight := by simp [FrameState.start, ProducerPc.inFlight]
      produced := rfl
      consumed := rfl }

section Steps

variable {s : FrameState α} {gone held : List α}

theorem Holding.length_lt (h : Holding s gone held) (hroom : s.producer.hasRoom) :
    held.length < s.f.maxSize := by
  have hsize := h.size
  have hlt := h.room hroom
  omega

theorem Holding.producer_moves (h : Holding s gone held) {pc : ProducerPc α}
    (hnow : s.producer.pending = 0) (hpending : pc.pending = 0) (hflight : pc.inFlight = none)
    (hroom : pc.hasRoom → s.f.size < s.f.maxSize)
    (hleave : pc = .leave → s.f.size < s.f.maxSize ∨ s.abortRequest = true) :
    Holding { s with producer := pc } gone held :=
  { h with
    windex := by
      have hw := h.windex
      rw [hnow] at hw
      simpa only [hpending] using hw
    room := hroom
    leave := hleave
    inFlight := by simp [hflight] }

theorem Holding.producer (h : Holding s gone held) (frame : α) :
    ∃ fresh, Holding (producerStep s frame) gone (held ++ fresh) := by
  -- what a step leaves alone then holds by definition
  obtain ⟨f, abortRequest, producer, consumer, produced, consumed⟩ := s
  have hw : f.windex = (f.rindex + (held.length + producer.pending)) % f.maxSize := h.windex
  cases producer with
  | readSize =>
      refine ⟨[], ?_⟩
      simp only [producerStep, List.append_nil]
      split
      · exact h.producer_moves rfl rfl rfl False.elim (by simp)
      · next hsize =>
          exact h.producer_moves rfl rfl rfl False.elim fun _ => .inl (Int.not_le.mp hsize)
  | readAbort =>
      refine ⟨[], ?_⟩
      simp only [producerStep, List.append_nil]
      split
      · next habort => exact h.producer_moves rfl rfl rfl False.elim fun _ => .inr habort
      · exact h.producer_moves rfl rfl rfl False.elim (by simp)
  | leave =>
      refine ⟨[], ?_⟩
      simp only [producerStep, List.append_nil]
      split
      · exact h.producer_moves rfl rfl rfl False.elim (by simp)
      · next habort =>
          exact h.producer_moves rfl rfl rfl (fun _ => (h.leave rfl).resolve_right habort) (by simp)
  | slot =>
      refine ⟨[], ?_⟩
      change f.windex = (f.rindex + held.length) % f.maxSize at hw
      simp only [producerStep, List.append_nil]
      exact
        { h with
          windex := hw
          room := fun _ => h.room trivial
          leave := by simp
          content := by
            intro i hi hemptied
            -- the producer's slot is the one behind those of the frames that are held
            have hne : (f.rindex + i) % f.maxSize ≠ f.windex := by
              rw [hw]
              exact Ring.add_mod_ne h.rindex hi (h.length_lt trivial)
            exact (Function.update_of_ne hne _ _).trans (h.content i hi hemptied)
          inFlight := by
            intro other hother
            cases hother
            simp [← hw] }
  | filled frame' =>
      refine ⟨[], ?_⟩
      change f.windex = (f.rindex + held.length) % f.maxSize at hw
      simp only [producerStep, List.append_nil]
      exact
        { h with
          windex := by
            rw [advance_eq (hw ▸ Nat.mod_lt _ (Nat.zero_lt_of_lt h.rindex)), hw, Nat.mod_add_mod]
            rfl
          room := fun _ => h.room trivial
          leave := by simp }
  | moved frame' =>
      refine ⟨[frame'], ?_⟩
      have hlt : f.size < f.maxSize := h.room trivial
      have hsize : f.size = (held.length + consumer.pending : Nat) := h.size
      simp only [producerStep]
      exact
        { h with
          windex := by simpa [ProducerPc.pending] using hw
          size := by
            simp only [List.length_append, List.length_singleton]
            omega
          bound := hlt
          room := False.elim
          leave := by simp
          seen := by
            rw [List.length_append]
            exact Nat.le_add_right_of_le h.seen
          ready := by
            intro hc
            rw [List.length_append]
            exact Nat.lt_add_right _ (h.ready hc)
          content := by
            intro i hi hemptied
            simp only [List.length_append, List.length_singleton] at hi
            by_cases hold : i < held.length
            · rw [List.getElem?_append_left hold]
              exact h.content i hold hemptied
            · obtain rfl : i = held.length := by omega
              rw [List.getElem?_concat_length]
              exact h.inFlight frame' rfl
          inFlight := by simp [ProducerPc.inFlight]
          produced := by
            rw [← List.append_assoc, ← show produced = gone ++ held from h.produced]
          consumed := by
            rw [List.take_append_of_le_length h.seen]
            exact h.consumed }

theorem Holding.peek (h : Holding s gone held) (hready : s.consumer = .ready) :
    s.f.queue (frameQueuePeek s.f) = held[s.f.rindexShown]? :=
  h.content _ (h.ready hready) (by simp [hready, ConsumerPc.emptied])

theorem Holding.consumed_next (h : Holding s gone held) (hready : s.consumer = .ready) :
    s.consumed ++ [s.f.queue (frameQueuePeek s.f)] =
      (gone ++ held.take (s.f.rindexShown + 1)).map some := by
  have hlt := h.ready hready
  have hconsumed := h.consumed
  simp only [hready, ConsumerPc.taken, Nat.add_zero] at hconsumed
  rw [h.peek hready, hconsumed, List.getElem?_eq_getElem hlt, List.take_succ_eq_append_getElem hlt]
  simp only [List.map_append, List.append_assoc, List.map_cons, List.map_nil]

theorem Holding.consumer (h : Holding s gone held) : ∃ gone' held', Holding (consumerStep s) gone' held' := by
  -- what a step leaves alone then holds by definition
  obtain ⟨f, abortRequest, producer, consumer, produced, consumed⟩ := s
  have hsize : f.size = (held.length + consumer.pending : Nat) := h.size
  have hbound : f.size ≤ f.maxSize := h.bound
  have hrindex : f.rindex < f.maxSize := h.rindex
  have hfirst : (f.rindex + 0) % f.maxSize = f.rindex := Nat.mod_eq_of_lt hrindex
  cases consumer with
  | test =>
      refine ⟨gone, held, ?_⟩
      simp only [consumerStep]
      split
      · next hsome =>
          simp only [ConsumerPc.pending] at hsize
          simp only [frameQueueNbRemaining] at hsome
          exact
            { h with
              ready := by
                intro _
                simp only
                omega }
      · exact h
  | ready =>
      refine ⟨gone, held, ?_⟩
      have hlt := h.ready rfl
      have hconsumed := h.consumed_next rfl
      simp only [consumerStep]
      split
      · next hshown =>
          rw [hshown.2] at hconsumed hlt
          exact
            { h with
              shown := Nat.le_refl 1
              seen := hlt
              ready := by simp
              consumed := hconsumed }
      · exact
          { h with
            seen := hlt
            ready := by simp
            consumed := hconsumed }
  | unref =>
      refine ⟨gone, held, ?_⟩
      have hseen : f.rindexShown + 1 ≤ held.length := h.seen
      simp only [ConsumerPc.pending] at hsize
      simp only [consumerStep, frameQueueUnrefItem]
      exact
        { h with
          ready := by simp
          content := by
            intro i hi hemptied
            simp only [ConsumerPc.emptied] at hemptied
            have hne : (f.rindex + i) % f.maxSize ≠ f.rindex := by
              have := Ring.add_mod_ne hrindex hemptied (by omega)
              rw [hfirst] at this
              exact this.symm
            exact (Function.update_of_ne hne _ _).trans (h.content i hi (Nat.zero_le i))
          inFlight := by
            intro frame hframe
            have hroom : producer.hasRoom := by
              cases producer <;> trivial
            have hne : (f.rindex + held.length) % f.maxSize ≠ f.rindex := by
              have := Ring.add_mod_ne hrindex (i := 0) (by omega) (h.length_lt hroom)
              rw [hfirst] at this
              exact this.symm
            exact (Function.update_of_ne hne _ _).trans (h.inFlight frame hframe) }
  | move =>
      have hseen := h.seen
      have hconsumed := h.consumed
      simp only [ConsumerPc.taken] at hseen hconsumed
      cases held with
      | nil => simp at hseen
      | cons first rest =>
          refine ⟨gone ++ [first], rest, ?_⟩
          -- the place of a frame behind the first, seen from the new read index
          have hplace : ∀ i, ((f.rindex + 1) % f.maxSize + i) % f.maxSize = (f.rindex + (i + 1)) % f.maxSize := by
            intro i
            rw [Nat.mod_add_mod]
            congr 1
            omega
          simp only [consumerStep, advance_eq hrindex]
          exact
            { h with
              rindex := Nat.mod_lt _ (Nat.zero_lt_of_lt hrindex)
              windex := by
                have hw := h.windex
                simp only [hplace]
                simpa only [List.length_cons, Nat.add_right_comm] using hw
              seen := Nat.le_of_succ_le_succ hseen
              ready := by simp
              content := by
                intro i hi _
                simp only [hplace]
                exact h.content (i + 1) (Nat.succ_lt_succ hi) (Nat.succ_le_succ (Nat.zero_le i))
              inFlight := by
                intro frame hframe
                simp only [hplace]
                exact h.inFlight frame hframe
              produced := h.produced.trans (List.append_cons gone first rest)
              consumed := by
                simp only [ConsumerPc.taken, Nat.add_zero, List.append_assoc, List.singleton_append]
                simpa only [List.take_succ_cons] using hconsumed }
  | decrement =>
      refine ⟨gone, held, ?_⟩
      simp only [ConsumerPc.pending] at hsize
      exact
        { h with
          size := by
            simp only [ConsumerPc.pending, consumerStep]
            omega
          bound := by
            simp only [consumerStep]
            omega
          room := by
            intro hroom
            have hlt := h.room hroom
            simp only [consumerStep] at hlt ⊢
            omega
          leave := by
            intro hleave
            refine (h.leave hleave).imp_left ?_
            intro hlt
            simp only [consumerStep] at hlt ⊢
            omega
          ready := by simp [consumerStep] }

theorem Holding.step (h : Holding s gone held) (l : FrameLabel α) :
    ∃ gone' held', Holding (l.state s) gone' held' := by
  cases l with
  | producer frame =>
      obtain ⟨fresh, hnext⟩ := h.producer frame
      exact ⟨gone, held ++ fresh, hnext⟩
  | consumer => exact h.consumer
  | abort =>
      exact ⟨gone, held, { h with leave := fun _ => .inr rfl }⟩

end Steps

theorem FrameLabel.state_maxSize (l : FrameLabel α) (s : FrameState α) :
    (l.state s).f.maxSize = s.f.maxSize := by
  cases l with
  | producer frame =>
      simp only [FrameLabel.state, producerStep]
      split <;> first | rfl | (split <;> rfl)
  | consumer =>
      simp only [FrameLabel.state, consumerStep]
      split <;> first | rfl | (split <;> rfl)
  | abort => rfl

theorem framing_holding {maxSize : Nat} (hmax : 0 < maxSize) {keepLast : Bool} {s : FrameState α}
    (h : (framing α maxSize keepLast).Reachable s) :
    (∃ gone held, Holding s gone held) ∧ s.f.maxSize = min maxSize FRAME_QUEUE_SIZE := by
  refine System.Reachable.invariant (fun s => (∃ gone held, Holding s gone held) ∧
    s.f.maxSize = min maxSize FRAME_QUEUE_SIZE) ?_ ?_ h
  · intro s hs
    obtain rfl : s = .start maxSize keepLast := hs
    exact ⟨⟨[], [], start_holding hmax keepLast⟩, rfl⟩
  · rintro s l t _ ⟨⟨gone, held, hs⟩, hsize⟩ hn
    obtain rfl : l.state s = t := Option.some.inj hn
    exact ⟨hs.step l, (l.state_maxSize s).trans hsize⟩

/-- What the queue promises to its two threads. -/
structure FrameQueueSound (s : FrameState α) : Prop where
  index : s.producer.pending = 0 → s.consumer.pending = 0 →
    (s.f.windex : Int) = (s.f.rindex + s.f.size) % s.f.maxSize
  between : ((s.f.windex + s.consumer.pending : Int)) % s.f.maxSize =
    (s.f.rindex + s.f.size + s.producer.pending) % s.f.maxSize
  nonneg : 0 ≤ s.f.size
  bound : s.f.size ≤ s.f.maxSize
  separate : ∀ slot, s.given = some slot → slot ∉ s.mayRead
  order : s.consumed = (s.produced.take s.consumed.length).map some
  remaining : s.consumer = .test ∨ s.consumer = .ready →
    (s.consumed.length + frameQueueNbRemaining s.f : Int) = s.produced.length

section Sound

variable {s : FrameState α} {gone held : List α}

theorem Holding.between (h : Holding s gone held) : ((s.f.windex + s.consumer.pending : Int)) % s.f.maxSize =
      (s.f.rindex + s.f.size + s.producer.pending) % s.f.maxSize := by
  rw [h.windex, h.size]
  push_cast
  rw [Int.emod_add_emod]
  congr 1
  omega

theorem Holding.index (h : Holding s gone held) (hp : s.producer.pending = 0) (hc : s.consumer.pending = 0) :
    (s.f.windex : Int) = (s.f.rindex + s.f.size) % s.f.maxSize := by
  rw [h.windex, h.size, hp, hc]
  simp

theorem Holding.mayRead (h : Holding s gone held) {slot : Nat} (hslot : slot ∈ s.mayRead) :
    ∃ i < held.length, slot = (s.f.rindex + i) % s.f.maxSize := by
  have hsize := h.size
  have hseen := h.seen
  simp only [FrameState.mayRead, frameQueueNbRemaining, ge_iff_le, List.mem_append,
    List.mem_ite_nil_right, List.mem_singleton] at hslot
  obtain (⟨hleft, rfl⟩ | ⟨hleft, rfl⟩) | ⟨hshown, rfl⟩ := hslot
  · exact ⟨s.f.rindexShown, by omega, rfl⟩
  · exact ⟨s.f.rindexShown + 1, by omega, rfl⟩
  · exact ⟨0, by omega, (Nat.mod_eq_of_lt h.rindex).symm⟩

theorem Holding.separate (h : Holding s gone held) {slot : Nat} (hgiven : s.given = some slot) :
    slot ∉ s.mayRead := by
  intro hread
  obtain ⟨i, hi, rfl⟩ := h.mayRead hread
  have hroom : s.producer.hasRoom ∧ s.producer.pending = 0 := by
    revert hgiven
    rw [FrameState.given]
    cases s.producer <;> simp [ProducerPc.hasRoom, ProducerPc.pending]
  have hw := h.windex
  rw [hroom.2, Nat.add_zero] at hw
  have hslot : s.f.windex = (s.f.rindex + i) % s.f.maxSize := by
    revert hgiven
    rw [FrameState.given]
    cases s.producer <;> simp
  exact Ring.add_mod_ne h.rindex hi (h.length_lt hroom.1) (hslot.symm.trans hw)

theorem Holding.consumed_length (h : Holding s gone held) :
    s.consumed.length = gone.length + (s.f.rindexShown + s.consumer.taken) := by
  rw [h.consumed, List.length_map, List.length_append, List.length_take_of_le h.seen]

theorem Holding.order (h : Holding s gone held) :
    s.consumed = (s.produced.take s.consumed.length).map some := by
  rw [h.consumed_length, h.produced, List.take_length_add_append]
  exact h.consumed

theorem Holding.sound (h : Holding s gone held) : FrameQueueSound s where
  index := h.index
  between := h.between
  nonneg := by
    have hsize := h.size
    omega
  bound := h.bound
  separate := fun _ => h.separate
  order := h.order
  remaining := by
    intro hc
    have hsize := h.size
    have hpending : s.consumer.pending = 0 ∧ s.consumer.taken = 0 := by
      obtain hc | hc := hc
      · rw [hc]
        exact ⟨rfl, rfl⟩
      · rw [hc]
        exact ⟨rfl, rfl⟩
    rw [h.consumed_length, h.produced, List.length_append, frameQueueNbRemaining, hsize,
      hpending.1, hpending.2]
    omega

end Sound

/-- In every interleaving of the two threads, whatever the size and the kind of
the queue. -/
theorem frame_queue_sound {maxSize : Nat} (hmax : 0 < maxSize) (keepLast : Bool)
    {s : FrameState α} (h : (framing α maxSize keepLast).Reachable s) :
    s.f.maxSize = min maxSize FRAME_QUEUE_SIZE ∧ FrameQueueSound s := by
  obtain ⟨⟨gone, held, hs⟩, hsize⟩ := framing_holding hmax h
  exact ⟨hsize, hs.sound⟩

def pushOne (frame : Nat) : List (FrameLabel Nat) := List.replicate 5 (.producer frame)

/-- Two frames go through a queue that keeps the last one shown. -/
theorem frame_queue_sound_two_frames : ∃ s : FrameState Nat,
    (framing Nat 3 true).Reachable s ∧ s.consumed = [some 7, some 8] ∧
      s.f.maxSize = min 3 FRAME_QUEUE_SIZE ∧ FrameQueueSound s := by
  have hrun : ((framing Nat 3 true).run
      (pushOne 7 ++ pushOne 8 ++ List.replicate 7 .consumer) (.start 3 true)).map
        (fun s => s.consumed) = some [some 7, some 8] := by
    decide +kernel
  obtain ⟨s, hs, hconsumed⟩ := Option.map_eq_some_iff.mp hrun
  have hreach := System.Reachable.of_run (S := framing Nat 3 true) rfl hs
  exact ⟨s, hreach, hconsumed, frame_queue_sound (by decide) true hreach⟩

/-- The consumer, too, moves its index before it changes the size: in between,
with a producer that does nothing, the write index is not where the read index
and the size put it. -/
theorem index_ahead_of_size : ∃ s : FrameState Nat, (framing Nat 3 false).Reachable s ∧
    s.producer = .readSize ∧ (s.f.windex : Int) ≠ (s.f.rindex + s.f.size) % s.f.maxSize := by
  have hrun : ((framing Nat 3 false).run (pushOne 7 ++ List.replicate 4 .consumer)
      (.start 3 false)).map
        (fun s => (s.producer, s.f.windex, s.f.rindex, s.f.size, s.f.maxSize)) =
      some (.readSize, 1, 1, 1, 3) := by
    decide +kernel
  obtain ⟨s, hs, hview⟩ := Option.map_eq_some_iff.mp hrun
  simp only [Prod.mk.injEq] at hview
  obtain ⟨hp, hw, hr, hsize, hmax⟩ := hview
  refine ⟨s, System.Reachable.of_run (S := framing Nat 3 false) rfl hs, hp, ?_⟩
  rw [hw, hr, hsize, hmax]
  decide

end

end P2PFFmpeg.Player
