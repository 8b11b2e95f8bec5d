import P2PFFmpeg.Library.BoundedQueue
import P2PFFmpeg.Util.Fifo

namespace P2PFFmpeg.Util

open Library Library.Ring

variable {σ α : Type}

/-- What a callback answers that was given room for `avail` elements: it has
written some, and reports some of these. -/
structure CbAnswer (α : Type) (avail : Nat) where
  ret : Int
  filled : List α
  nbElems : Nat
  reported : nbElems ≤ filled.length
  room : filled.length ≤ avail

abbrev AVFifoCB (σ α : Type) := σ → (avail : Nat) → CbAnswer α avail × σ

def CbAnswer.ends {avail : Nat} (a : CbAnswer α avail) : Bool := a.ret < 0 || a.nbElems == 0

structure CbLoop (σ α : Type) where
  user : σ
  buffer : Nat → Option α
  offsetW : Nat
  toWrite : Nat
  ret : Int

/-- The loop of fifo_write_common with a callback: a round that does not end it
moves an element. -/
def cbRounds (readCb : AVFifoCB σ α) (nbElems : Nat) : Nat → CbLoop σ α → CbLoop σ α
  | 0, l => l
  | fuel + 1, l =>
      if l.toWrite = 0 then l
      else
        let answered := readCb l.user (min (nbElems - l.offsetW) l.toWrite)
        -- the room given does not wrap around
        let buffer := (writeElems nbElems answered.1.filled (l.buffer, l.offsetW)).1
        let after := { l with user := answered.2, buffer := buffer, ret := answered.1.ret }
        if answered.1.ends then after
        else
          let offsetW := l.offsetW + answered.1.nbElems
          cbRounds readCb nbElems fuel { after with
            offsetW := if offsetW ≥ nbElems then 0 else offsetW
            toWrite := l.toWrite - answered.1.nbElems }

/-- The error, the count that is written back, and the FIFO. -/
def avFifoWriteFromCb (f : AVFifo α) (readCb : AVFifoCB σ α) (user : σ) (nbElems : Nat)
    (allocated : Bool) : Int × Nat × AVFifo α :=
  let checked := fifoCheckSpace f nbElems allocated
  if checked.1 < 0 then (checked.1, nbElems, checked.2)
  else
    let l := cbRounds readCb checked.2.nbElems nbElems
      ⟨user, checked.2.buffer, checked.2.offsetW, nbElems, 0⟩
    (l.ret, nbElems - l.toWrite, { checked.2 with
      buffer := l.buffer
      offsetW := l.offsetW
      isEmpty := if nbElems ≠ l.toWrite then false else checked.2.isEmpty })

def avFifoReset2 (f : AVFifo α) : AVFifo α := { f with offsetR := 0, offsetW := 0, isEmpty := true }

def avFifoAutoGrowLimit (f : AVFifo α) (maxElems : Nat) : AVFifo α :=
  { f with autoGrowLimit := maxElems }

/-- A call; `allocated` tells whether memory can be had for it. -/
inductive FifoOp (σ α : Type) where
  | write (buf : List α) (allocated : Bool)
  | writeFromCb (readCb : AVFifoCB σ α) (user : σ) (nbElems : Nat) (allocated : Bool)
  | read (nbElems : Nat)
  | peek (nbElems offset : Nat)
  | drain2 (size : Nat)
  | grow2 (inc : Nat) (allocated : Bool)
  | autoGrowLimit (maxElems : Nat)
  | reset2

/-- What the caller sees: the returned code, the elements read, and the count
that a call with a callback writes back. -/
structure FifoAnswer (α : Type) where
  ret : Int
  elems : List (Option α)
  nbElems : Nat

/-- One call; `none` when its assertion fails. -/
def fifoStep (f : AVFifo α) : FifoOp σ α → Option (FifoAnswer α × AVFifo α)
  | .write buf allocated =>
      let written := avFifoWrite f buf allocated
      some (⟨written.1, [], 0⟩, written.2)
  | .writeFromCb readCb user nbElems allocated =>
      let written := avFifoWriteFromCb f readCb user nbElems allocated
      some (⟨written.1, [], written.2.1⟩, written.2.2)
  | .read nbElems =>
      let got := avFifoRead f nbElems
      some (⟨got.1, got.2.1, 0⟩, got.2.2)
  | .peek nbElems offset =>
      let peeked := fifoPeekCommon f nbElems offset
      some (⟨peeked.1, peeked.2, 0⟩, f)
  | .drain2 size => if avFifoCanRead f ≥ size then some (⟨0, [], 0⟩, avFifoDrain2 f size) else none
  | .grow2 inc allocated =>
      let grown := avFifoGrow2 f inc allocated
      some (⟨grown.1, [], 0⟩, grown.2)
  | .autoGrowLimit maxElems => some (⟨0, [], 0⟩, avFifoAutoGrowLimit f maxElems)
  | .reset2 => some (⟨0, [], 0⟩, avFifoReset2 f)

def fifoRun (f : AVFifo α) : List (FifoOp σ α) → List (FifoAnswer α) × Option (AVFifo α)
  | [] => ([], some f)
  | op :: ops =>
      match fifoStep f op with
      | none => ([], none)
      | some (answer, next) =>
          let rest := fifoRun next ops
          (answer :: rest.1, rest.2)

/-- A queue that may be widened on a write. -/
structure GrowingQueue (α : Type) extends BoundedQueue α where
  autoGrow : Bool
  autoGrowLimit : Nat

namespace GrowingQueue

/-- A write of `n` elements may widen the queue. -/
def MayGrow (q : GrowingQueue α) (n : Nat) : Prop :=
  q.autoGrow = true ∧ n - q.room ≤ q.autoGrowLimit - q.capacity

/-- How a queue gets room for `n` more elements. -/
inductive MakesRoom (q : GrowingQueue α) (n : Nat) (allocated : Bool) : Int → BoundedQueue α → Prop
  | fits : n ≤ q.room → q.MakesRoom n allocated 0 q.toBoundedQueue
  | grows {inc : Nat} : q.room < n → q.MayGrow n → n ≤ q.room + inc →
      q.capacity + inc ≤ q.autoGrowLimit → allocated = true →
      q.MakesRoom n allocated 0 (q.widen inc)
  | full : q.room < n → ¬ q.MayGrow n → q.MakesRoom n allocated averrorEnospc q.toBoundedQueue
  | noMemory {ret : Int} : q.room < n → q.MayGrow n → ret < 0 →
      allocated = false ∨ sizeMax < q.autoGrowLimit → q.MakesRoom n allocated ret q.toBoundedQueue

/-- What a callback supplies when it is asked for `toWrite` elements in pieces of
any size, with the code of its last call. -/
inductive Pulls (readCb : AVFifoCB σ α) : σ → Nat → Int → Int → List α → Prop
  | done {user : σ} {last : Int} : Pulls readCb user 0 last last []
  | ends {user : σ} {toWrite avail : Nat} {last : Int} : 0 < avail → avail ≤ toWrite →
      (readCb user avail).1.ends = true →
      Pulls readCb user toWrite last (readCb user avail).1.ret []
  | takes {user : σ} {toWrite avail : Nat} {last ret : Int} {moved : List α} :
      0 < avail → avail ≤ toWrite → (readCb user avail).1.ends = false →
      Pulls readCb (readCb user avail).2 (toWrite - (readCb user avail).1.nbElems)
        (readCb user avail).1.ret ret moved →
      Pulls readCb user toWrite last ret
        ((readCb user avail).1.filled.take (readCb user avail).1.nbElems ++ moved)

/-- One call on a queue; `none` when its assertion fails. -/
inductive Step : GrowingQueue α → FifoOp σ α → Option (FifoAnswer α × GrowingQueue α) → Prop
  | write {q : GrowingQueue α} {buf : List α} {allocated : Bool} {wide : BoundedQueue α}
      (hroom : q.MakesRoom buf.length allocated 0 wide) (hfits : buf.length ≤ wide.room) :
      Step q (.write buf allocated)
        (some (⟨0, [], 0⟩, { q with toBoundedQueue := wide.push buf hfits }))
  | writeFails {q : GrowingQueue α} {buf : List α} {allocated : Bool} {ret : Int}
      (hret : ret < 0) (hroom : q.MakesRoom buf.length allocated ret q.toBoundedQueue) :
      Step q (.write buf allocated) (some (⟨ret, [], 0⟩, q))
  | pull {q : GrowingQueue α} {readCb : AVFifoCB σ α} {user : σ} {nbElems : Nat} {allocated : Bool}
      {wide : BoundedQueue α} {ret : Int} {moved : List α}
      (hroom : q.MakesRoom nbElems allocated 0 wide) (hpulls : Pulls readCb user nbElems 0 ret moved)
      (hfits : moved.length ≤ wide.room) :
      Step q (.writeFromCb readCb user nbElems allocated)
        (some (⟨ret, [], moved.length⟩, { q with toBoundedQueue := wide.push moved hfits }))
  | pullFails {q : GrowingQueue α} {readCb : AVFifoCB σ α} {user : σ} {nbElems : Nat}
      {allocated : Bool} {ret : Int}
      (hret : ret < 0) (hroom : q.MakesRoom nbElems allocated ret q.toBoundedQueue) :
      Step q (.writeFromCb readCb user nbElems allocated) (some (⟨ret, [], nbElems⟩, q))
  | read {q : GrowingQueue α} {nbElems : Nat} (h : nbElems ≤ q.elems.length) :
      Step q (.read nbElems) (some (⟨0, (q.elems.take nbElems).map some, 0⟩,
        { q with toBoundedQueue := q.drop nbElems }))
  | readFails {q : GrowingQueue α} {nbElems : Nat} (h : q.elems.length < nbElems) :
      Step q (.read nbElems) (some (⟨-22, [], 0⟩, q))
  | peek {q : GrowingQueue α} {nbElems offset : Nat} (h : offset + nbElems ≤ q.elems.length) :
      Step q (.peek nbElems offset)
        (some (⟨0, ((q.elems.drop offset).take nbElems).map some, 0⟩, q))
  | peekFails {q : GrowingQueue α} {nbElems offset : Nat} (h : q.elems.length < offset + nbElems) :
      Step q (.peek nbElems offset) (some (⟨-22, [], 0⟩, q))
  | drain {q : GrowingQueue α} {size : Nat} (h : size ≤ q.elems.length) :
      Step q (.drain2 size) (some (⟨0, [], 0⟩, { q with toBoundedQueue := q.drop size }))
  | drainAborts {q : GrowingQueue α} {size : Nat} (h : q.elems.length < size) :
      Step q (.drain2 size) none
  | grow {q : GrowingQueue α} {inc : Nat} (h : inc ≤ sizeMax - q.capacity) :
      Step q (.grow2 inc true) (some (⟨0, [], 0⟩, { q with toBoundedQueue := q.widen inc }))
  | growTooFar {q : GrowingQueue α} {inc : Nat} {allocated : Bool} (h : sizeMax - q.capacity < inc) :
      Step q (.grow2 inc allocated) (some (⟨-22, [], 0⟩, q))
  | growFails {q : GrowingQueue α} {inc : Nat} (h : inc ≤ sizeMax - q.capacity) :
      Step q (.grow2 inc false) (some (⟨-12, [], 0⟩, q))
  | limit {q : GrowingQueue α} {maxElems : Nat} :
      Step q (.autoGrowLimit maxElems) (some (⟨0, [], 0⟩, { q with autoGrowLimit := maxElems }))
  | reset {q : GrowingQueue α} :
      Step q .reset2 (some (⟨0, [], 0⟩, { q with toBoundedQueue := q.clear }))

inductive Run : GrowingQueue α → List (FifoOp σ α) → List (FifoAnswer α) →
    Option (GrowingQueue α) → Prop
  | nil {q : GrowingQueue α} : Run q [] [] (some q)
  | aborts {q : GrowingQueue α} {op : FifoOp σ α} {ops : List (FifoOp σ α)} :
      Step q op none → Run q (op :: ops) [] none
  | cons {q next : GrowingQueue α} {op : FifoOp σ α} {ops : List (FifoOp σ α)}
      {answer : FifoAnswer α} {answers : List (FifoAnswer α)} {last : Option (GrowingQueue α)} :
      Step q op (some (answer, next)) → Run next ops answers last →
      Run q (op :: ops) (answer :: answers) last

end GrowingQueue

structure AVFifo.Blank (f : AVFifo α) : Prop where
  nbElems : f.nbElems = 0
  offsetR : f.offsetR = 0
  offsetW : f.offsetW = 0
  isEmpty : f.isEmpty = true

structure AVFifo.Refines (f : AVFifo α) (q : GrowingQueue α) : Prop where
  capacity : f.nbElems = q.capacity
  autoGrow : f.autoGrow = q.autoGrow
  limit : f.autoGrowLimit = q.autoGrowLimit
  content : f.Holds q.elems ∨ f.Blank ∧ q.elems = []

section Refines

variable {f : AVFifo α} {q : GrowingQueue α}

theorem AVFifo.Blank.canRead (h : f.Blank) : avFifoCanRead f = 0 := by
  simp [avFifoCanRead, h.isEmpty, h.offsetW]

theorem AVFifo.Refines.canRead (h : f.Refines q) : avFifoCanRead f = q.elems.length := by
  cases h.content with
  | inl hholds => exact hholds.canRead
  | inr hblank => rw [hblank.1.canRead, hblank.2, List.length_nil]

theorem AVFifo.Refines.canWrite (h : f.Refines q) : avFifoCanWrite f = q.room := by
  rw [avFifoCanWrite, h.canRead, h.capacity, BoundedQueue.room]

theorem avFifoGrow2_cases (f : AVFifo α) (inc : Nat) (allocated : Bool) :
    (sizeMax - f.nbElems < inc ∧ avFifoGrow2 f inc allocated = (-22, f)) ∨
      (inc ≤ sizeMax - f.nbElems ∧ allocated = false ∧ avFifoGrow2 f inc allocated = (-12, f)) ∨
      (inc ≤ sizeMax - f.nbElems ∧ allocated = true ∧ (avFifoGrow2 f inc allocated).1 = 0 ∧
        (avFifoGrow2 f inc allocated).2.autoGrow = f.autoGrow ∧
        (avFifoGrow2 f inc allocated).2.autoGrowLimit = f.autoGrowLimit) := by
  by_cases hsize : inc > sizeMax - f.nbElems
  · exact .inl ⟨hsize, by rw [avFifoGrow2, if_pos hsize]⟩
  · refine .inr ?_
    cases allocated with
    | false => exact .inl ⟨Nat.not_lt.mp hsize, rfl, by rw [avFifoGrow2, if_neg hsize, if_pos rfl]⟩
    | true =>
        refine .inr ⟨Nat.not_lt.mp hsize, rfl, ?_⟩
        simp only [avFifoGrow2, if_neg hsize, Bool.true_eq_false, if_false]
        split
        · split <;> exact ⟨rfl, rfl, rfl⟩
        · exact ⟨rfl, rfl, rfl⟩

variable {allocated : Bool}

theorem AVFifo.Blank.grow (h : f.Blank) {inc : Nat} (hret : 0 ≤ (avFifoGrow2 f inc allocated).1) :
    avFifoGrow2 f inc allocated = (0, { f with nbElems := inc }) := by
  simp only [avFifoGrow2, h.isEmpty, h.nbElems, Bool.not_true, Bool.and_false, Bool.false_eq_true,
    if_false, Nat.zero_add] at hret ⊢
  split at hret
  · cases hret
  · split at hret
    · cases hret
    · rw [if_neg ‹_›, if_neg ‹_›]

theorem AVFifo.Refines.grow (h : f.Refines q) {inc : Nat} (hret : 0 ≤ (avFifoGrow2 f inc allocated).1) :
    (avFifoGrow2 f inc allocated).2.Refines { q with toBoundedQueue := q.widen inc } := by
  obtain ⟨_, hfails⟩ | ⟨_, _, hfails⟩ | ⟨_, _, _, hauto, hlimit⟩ := avFifoGrow2_cases f inc allocated
  · rw [hfails] at hret
    cases hret
  · rw [hfails] at hret
    cases hret
  · cases h.content with
    | inl hholds =>
        obtain ⟨hgrown, hnb⟩ := hholds.grow inc hret
        exact ⟨hnb.trans (by rw [h.capacity]; rfl), hauto.trans h.autoGrow, hlimit.trans h.limit,
          .inl hgrown⟩
    | inr hblank =>
        obtain ⟨hblank, hnil⟩ := hblank
        have hcapacity := h.capacity
        rw [hblank.nbElems] at hcapacity
        rw [hblank.grow hret]
        refine ⟨?_, h.autoGrow, h.limit, ?_⟩
        · rw [BoundedQueue.widen_capacity, ← hcapacity, Nat.zero_add]
        · by_cases hinc : inc = 0
          · exact .inr ⟨⟨hinc, hblank.offsetR, hblank.offsetW, hblank.isEmpty⟩, hnil⟩
          · refine .inl ⟨?_, ?_, ?_, ?_, ?_⟩
            · simp only [hblank.offsetR]
              omega
            · simp [hnil]
            · simp [hblank.offsetR, hblank.offsetW, hnil]
            · simp [hblank.isEmpty, hnil]
            · simp [hnil]

theorem AVFifo.Refines.makesRoom (h : f.Refines q) (n : Nat) (allocated : Bool) :
    ∃ wide, q.MakesRoom n allocated (fifoCheckSpace f n allocated).1 wide ∧
      (fifoCheckSpace f n allocated).2.Refines { q with toBoundedQueue := wide } := by
  simp only [fifoCheckSpace, h.canWrite, h.limit, h.autoGrow, h.capacity]
  by_cases hfits : n - q.room = 0
  · rw [if_pos hfits]
    exact ⟨q.toBoundedQueue, .fits (by omega), h⟩
  · rw [if_neg hfits]
    by_cases hgrow : q.MayGrow n
    · have hgrow' : (q.autoGrow && decide (n - q.room ≤ q.autoGrowLimit - q.capacity)) = true := by
        simpa [GrowingQueue.MayGrow] using hgrow
      obtain ⟨inc, hinc⟩ : ∃ inc, inc = if n - q.room < (q.autoGrowLimit - q.capacity) / 2 then
          (n - q.room) * 2 else q.autoGrowLimit - q.capacity := ⟨_, rfl⟩
      rw [if_pos hgrow', ← hinc]
      have henough : n - q.room ≤ inc ∧ inc ≤ q.autoGrowLimit - q.capacity := by
        have hlimit := hgrow.2
        rw [hinc]
        split <;> omega
      obtain ⟨hsize, hfails⟩ | ⟨_, hmemory, hfails⟩ | ⟨_, hmemory, hret, _⟩ :=
        avFifoGrow2_cases f inc allocated
      · rw [hfails]
        rw [h.capacity] at hsize
        exact ⟨_, .noMemory (by omega) hgrow (Int.negSucc_lt_zero 21) (.inr (by omega)), h⟩
      · rw [hfails]
        exact ⟨_, .noMemory (by omega) hgrow (Int.negSucc_lt_zero 11) (.inl hmemory), h⟩
      · have hgrown := h.grow (Int.le_of_eq hret.symm)
        rw [hret]
        exact ⟨_, .grows (by omega) hgrow (by omega) (by omega) hmemory, hgrown⟩
    · have hgrow' : ¬(q.autoGrow && decide (n - q.room ≤ q.autoGrowLimit - q.capacity)) = true := by
        simpa [GrowingQueue.MayGrow] using hgrow
      rw [if_neg hgrow']
      exact ⟨q.toBoundedQueue, .full (by omega) hgrow, h⟩

theorem GrowingQueue.MakesRoom.cases {n : Nat} {ret : Int} {wide : BoundedQueue α}
    (h : q.MakesRoom n allocated ret wide) :
    (ret = 0 ∧ n ≤ wide.room) ∨ (ret < 0 ∧ wide = q.toBoundedQueue) := by
  cases h with
  | fits hroom => exact .inl ⟨rfl, hroom⟩
  | grows _ _ hroom => exact .inl ⟨rfl, by rwa [BoundedQueue.room_widen]⟩
  | full => exact .inr ⟨by decide, rfl⟩
  | noMemory _ _ hret => exact .inr ⟨hret, rfl⟩

theorem AVFifo.Refines.write (h : f.Refines q) (buf : List α) (allocated : Bool) :
    ∃ next, q.Step (.write buf allocated : FifoOp σ α)
        (some (⟨(avFifoWrite f buf allocated).1, [], 0⟩, next)) ∧
      (avFifoWrite f buf allocated).2.Refines next := by
  obtain ⟨wide, hroom, hchecked⟩ := h.makesRoom buf.length allocated
  simp only [avFifoWrite]
  obtain ⟨hret, hfits⟩ | ⟨hret, rfl⟩ := hroom.cases
  · rw [if_neg (by omega)]
    rw [hret] at hroom
    refine ⟨_, .write hroom hfits, hchecked.capacity, hchecked.autoGrow, hchecked.limit, ?_⟩
    cases hchecked.content with
    | inl hholds =>
        refine .inl (hholds.written ?_)
        rw [hchecked.capacity, ← BoundedQueue.length_add_room]
        exact Nat.add_le_add_left hfits _
    | inr hblank =>
        have hnone : buf = [] := by
          apply List.length_eq_zero_iff.mp
          have hcapacity := hchecked.capacity
          rw [hblank.1.nbElems] at hcapacity
          have hroom := BoundedQueue.length_add_room wide
          simp only at hcapacity
          omega
        obtain ⟨hblank, hnil⟩ := hblank
        subst hnone
        exact .inr ⟨⟨hblank.nbElems, hblank.offsetR, hblank.offsetW, by simpa using hblank.isEmpty⟩,
          by simpa using hnil⟩
  · rw [if_pos hret]
    exact ⟨q, .writeFails hret hroom, hchecked⟩

theorem AVFifo.Holds.offsetW_lt {xs : List α} (h : f.Holds xs) : f.offsetW < f.nbElems := by
  rw [h.offsetW]
  exact Nat.mod_lt _ (Nat.zero_lt_of_lt h.offsetR)

theorem AVFifo.Holds.filled {xs : List α} (h : f.Holds xs) {filled : List α} {n : Nat}
    (hreported : n ≤ filled.length) (hroom : xs.length + filled.length ≤ f.nbElems)
    (hstraight : f.offsetW + filled.length ≤ f.nbElems) :
    AVFifo.Holds { f with
      buffer := (writeElems f.nbElems filled (f.buffer, f.offsetW)).1
      offsetW := if f.offsetW + n ≥ f.nbElems then 0 else f.offsetW + n
      isEmpty := if n = 0 then f.isEmpty else false } (xs ++ filled.take n) := by
  have hr := h.offsetR
  have hlength : (xs ++ filled.take n).length = xs.length + n := by
    rw [List.length_append, List.length_take, Nat.min_eq_left hreported]
  have hwritten := (writeElems_spec hr filled f.buffer hroom).1
  rw [← h.offsetW] at hwritten
  refine ⟨hr, ?_, ?_, ?_, ?_⟩
  · rw [hlength]
    simp only
    omega
  · have hnext : (f.offsetW + n) % f.nbElems = (f.offsetR + (xs.length + n)) % f.nbElems := by
      rw [h.offsetW, Nat.mod_add_mod, Nat.add_assoc]
    rw [hlength, ← hnext]
    simp only
    split
    · rw [show f.offsetW + n = f.nbElems by omega, Nat.mod_self]
    · exact (Nat.mod_eq_of_lt (by omega)).symm
  · rw [hlength]
    simp only
    by_cases hnone : n = 0
    · rw [if_pos hnone, h.isEmpty, hnone, Nat.add_zero]
    · rw [if_neg hnone]
      exact (decide_eq_false (by omega)).symm
  · have hxs : xs.length = (xs.map some).length := List.length_map some |>.symm
    rw [hlength, window_take _ f.nbElems f.offsetR
      (show xs.length + n ≤ xs.length + filled.length by omega), hwritten, h.content, hxs,
      List.take_length_add_append, List.map_append, List.map_take]

theorem AVFifo.Holds.pulls {xs : List α} (h : f.Holds xs) (readCb : AVFifoCB σ α) (user : σ)
    {fuel toWrite : Nat} (last : Int) (hfuel : toWrite ≤ fuel)
    (hroom : xs.length + toWrite ≤ f.nbElems) {l : CbLoop σ α}
    (hl : l = cbRounds readCb f.nbElems fuel ⟨user, f.buffer, f.offsetW, toWrite, last⟩) :
    ∃ moved, GrowingQueue.Pulls readCb user toWrite last l.ret moved ∧
      toWrite = l.toWrite + moved.length ∧
      AVFifo.Holds { f with
        buffer := l.buffer
        offsetW := l.offsetW
        isEmpty := if moved = [] then f.isEmpty else false } (xs ++ moved) := by
  induction fuel generalizing f xs user toWrite last with
  | zero =>
      obtain rfl : toWrite = 0 := by omega
      rw [cbRounds] at hl
      subst hl
      exact ⟨[], .done, rfl, by simpa using h⟩
  | succ fuel ih =>
      rw [cbRounds] at hl
      by_cases hzero : toWrite = 0
      · subst hzero
        rw [if_pos rfl] at hl
        subst hl
        exact ⟨[], .done, rfl, by simpa using h⟩
      · rw [if_neg hzero] at hl
        have hw := h.offsetW_lt
        have havail : 0 < min (f.nbElems - f.offsetW) toWrite := by omega
        simp only at hl
        generalize hgiven : min (f.nbElems - f.offsetW) toWrite = avail at *
        have hasked : avail ≤ toWrite := by omega
        rcases hanswer : readCb user avail with ⟨answer, user'⟩
        have hreported := answer.reported
        have hfilled := answer.room
        rw [hanswer] at hl
        by_cases hends : answer.ends = true
        · rw [if_pos hends] at hl
          subst hl
          refine ⟨[], ?_, rfl, ?_⟩
          · have hends' : (readCb user avail).1.ends = true := by rw [hanswer]; exact hends
            have hstop := @GrowingQueue.Pulls.ends σ α readCb user toWrite avail last havail hasked hends'
            rwa [hanswer] at hstop
          · -- what the callback wrote is behind the last element
            have hbehind := @AVFifo.Holds.filled _ _ xs h answer.filled 0 (Nat.zero_le _)
              (by omega) (by omega)
            simpa [Nat.not_le.mpr hw] using hbehind
        · rw [if_neg hends] at hl
          have hmoves : answer.nbElems ≠ 0 := by
            intro hnone
            simp [CbAnswer.ends, hnone] at hends
          have hnext := h.filled hreported (by omega) (by omega)
          rw [if_neg hmoves] at hnext
          have hfuel' : toWrite - answer.nbElems ≤ fuel := by omega
          have hroom' : (xs ++ answer.filled.take answer.nbElems).length +
              (toWrite - answer.nbElems) ≤ f.nbElems := by
            rw [List.length_append, List.length_take]
            omega
          obtain ⟨moved, hpulls, hcount, hholds⟩ := ih hnext user' answer.ret hfuel' hroom' hl
          refine ⟨answer.filled.take answer.nbElems ++ moved, ?_, ?_, ?_⟩
          · have hends' : (readCb user avail).1.ends = false := by
              rw [hanswer]
              simpa using hends
            have htakes := @GrowingQueue.Pulls.takes σ α readCb user toWrite avail last l.ret moved
              havail hasked hends'
            rw [hanswer] at htakes
            exact htakes hpulls
          · rw [List.length_append, List.length_take]
            omega
          · have hsome : answer.filled.take answer.nbElems ++ moved ≠ [] := by
              intro hnil
              have hlen := congrArg List.length hnil
              simp only [List.length_append, List.length_take, List.length_nil] at hlen
              omega
            rw [if_neg hsome, ← List.append_assoc]
            simpa using hholds

theorem AVFifo.Blank.room (h : f.Blank) (hq : f.Refines q) : q.room = 0 := by
  rw [BoundedQueue.room, ← hq.capacity, h.nbElems, Nat.zero_sub]

theorem AVFifo.Refines.writeFromCb (h : f.Refines q) (readCb : AVFifoCB σ α) (user : σ)
    (nbElems : Nat) (allocated : Bool) : ∃ next, q.Step (.writeFromCb readCb user nbElems allocated)
        (some (⟨(avFifoWriteFromCb f readCb user nbElems allocated).1, [],
          (avFifoWriteFromCb f readCb user nbElems allocated).2.1⟩, next)) ∧
      (avFifoWriteFromCb f readCb user nbElems allocated).2.2.Refines next := by
  obtain ⟨wide, hroom, hchecked⟩ := h.makesRoom nbElems allocated
  simp only [avFifoWriteFromCb]
  generalize fifoCheckSpace f nbElems allocated = checked at *
  obtain ⟨hret, hfits⟩ | ⟨hret, rfl⟩ := hroom.cases
  · rw [if_neg (by omega)]
    rw [hret] at hroom
    generalize hl : cbRounds readCb checked.2.nbElems nbElems
      ⟨user, checked.2.buffer, checked.2.offsetW, nbElems, 0⟩ = l
    cases hchecked.content with
    | inl hholds =>
        have hspace : wide.elems.length + nbElems ≤ checked.2.nbElems := by
          have hroom := wide.length_add_room
          have hcapacity := hchecked.capacity
          simp only at hcapacity
          omega
        obtain ⟨moved, hpulls, hcount, hmoved⟩ :=
          hholds.pulls readCb user 0 (Nat.le_refl nbElems) hspace hl.symm
        have hreport : nbElems - l.toWrite = moved.length := by omega
        have hflag : (if nbElems ≠ l.toWrite then false else checked.2.isEmpty) =
            if moved = [] then checked.2.isEmpty else false := by
          by_cases hnone : moved = []
          · rw [hnone, List.length_nil] at hcount
            rw [if_pos hnone, if_neg (by omega)]
          · have hsome := List.length_pos_iff.mpr hnone
            rw [if_neg hnone, if_pos (by omega)]
        rw [hreport, hflag]
        exact ⟨_, .pull hroom hpulls (by omega), hchecked.capacity, hchecked.autoGrow,
          hchecked.limit, .inl hmoved⟩
    | inr hblank =>
        obtain ⟨hblank, hnil⟩ := hblank
        have hnone : nbElems = 0 := by
          have hnoroom := hblank.room hchecked
          simp only at hnoroom
          omega
        subst hnone
        rw [cbRounds] at hl
        subst hl
        refine ⟨_, .pull hroom .done (Nat.zero_le _), hchecked.capacity, hchecked.autoGrow,
          hchecked.limit, .inr ⟨⟨hblank.nbElems, hblank.offsetR, hblank.offsetW, ?_⟩, ?_⟩⟩
        · simpa using hblank.isEmpty
        · simpa using hnil
  · rw [if_pos hret]
    exact ⟨q, .pullFails hret hroom, hchecked⟩

theorem AVFifo.Refines.peekAt (h : f.Refines q) (toRead offset : Nat) : fifoPeekCommon f toRead offset =
      if q.elems.length < offset + toRead then (-22, [])
      else (0, ((q.elems.drop offset).take toRead).map some) := by
  cases h.content with
  | inl hholds =>
      rw [hholds.peekAt]
      by_cases hfew : q.elems.length < offset + toRead
      · rw [if_pos hfew, if_pos (by omega)]
      · rw [if_neg hfew, if_neg (by omega)]
  | inr hblank =>
      obtain ⟨hblank, hnil⟩ := hblank
      simp only [fifoPeekCommon, hblank.canRead, hnil, List.length_nil]
      by_cases hnone : offset + toRead = 0
      · obtain ⟨rfl, rfl⟩ : offset = 0 ∧ toRead = 0 := by omega
        rfl
      · rw [if_pos (by omega), if_pos (by omega)]

theorem AVFifo.Refines.drain (h : f.Refines q) {size : Nat} (hsize : size ≤ q.elems.length) :
    (avFifoDrain2 f size).Refines { q with toBoundedQueue := q.drop size } := by
  refine ⟨h.capacity, h.autoGrow, h.limit, ?_⟩
  cases h.content with
  | inl hholds => exact .inl (hholds.drain hsize)
  | inr hblank =>
      obtain ⟨hblank, hnil⟩ := hblank
      obtain rfl : size = 0 := by simpa [hnil] using hsize
      refine .inr ⟨⟨hblank.nbElems, ?_, hblank.offsetW, ?_⟩, hnil⟩
      · simp [avFifoDrain2, hblank.offsetR, hblank.nbElems]
      · simp [avFifoDrain2, hblank.canRead]

theorem AVFifo.Refines.reset (h : f.Refines q) :
    (avFifoReset2 f).Refines { q with toBoundedQueue := q.clear } := by
  refine ⟨h.capacity, h.autoGrow, h.limit, ?_⟩
  by_cases hnone : f.nbElems = 0
  · exact .inr ⟨⟨hnone, rfl, rfl, rfl⟩, rfl⟩
  · exact .inl ⟨Nat.pos_of_ne_zero hnone, Nat.zero_le _, (Nat.zero_mod _).symm, rfl, rfl⟩

theorem AVFifo.Refines.step (h : f.Refines q) (op : FifoOp σ α) : (fifoStep f op = none ∧ q.Step op none) ∨
      ∃ answer f' q', fifoStep f op = some (answer, f') ∧ q.Step op (some (answer, q')) ∧
        f'.Refines q' := by
  cases op with
  | write buf allocated =>
      obtain ⟨next, hstep, hnext⟩ := h.write buf allocated
      exact .inr ⟨_, _, next, rfl, hstep, hnext⟩
  | writeFromCb readCb user nbElems allocated =>
      obtain ⟨next, hstep, hnext⟩ := h.writeFromCb readCb user nbElems allocated
      exact .inr ⟨_, _, next, rfl, hstep, hnext⟩
  | read nbElems =>
      simp only [fifoStep, avFifoRead, h.peekAt, Nat.zero_add, List.drop_zero]
      by_cases hfew : q.elems.length < nbElems
      · rw [if_pos hfew]
        exact .inr ⟨_, _, _, rfl, .readFails hfew, h.drain (Nat.zero_le _)⟩
      · have hlength : ((q.elems.take nbElems).map some).length = nbElems := by
          rw [List.length_map, List.length_take]
          omega
        rw [if_neg hfew, hlength]
        exact .inr ⟨_, _, _, rfl, .read (Nat.not_lt.mp hfew), h.drain (Nat.not_lt.mp hfew)⟩
  | peek nbElems offset =>
      refine .inr ⟨_, f, q, rfl, ?_, h⟩
      rw [h.peekAt]
      by_cases hfew : q.elems.length < offset + nbElems
      · rw [if_pos hfew]
        exact .peekFails hfew
      · rw [if_neg hfew]
        exact .peek (Nat.not_lt.mp hfew)
  | drain2 size =>
      simp only [fifoStep, h.canRead]
      by_cases hfew : q.elems.length < size
      · rw [if_neg (by omega)]
        exact .inl ⟨rfl, .drainAborts hfew⟩
      · rw [if_pos (by omega)]
        exact .inr ⟨_, _, _, rfl, .drain (Nat.not_lt.mp hfew), h.drain (Nat.not_lt.mp hfew)⟩
  | grow2 inc allocated =>
      have hcapacity := h.capacity
      simp only [fifoStep]
      obtain ⟨hsize, hfails⟩ | ⟨hsize, hmemory, hfails⟩ | ⟨hsize, hmemory, hret, _⟩ :=
        avFifoGrow2_cases f inc allocated
      · rw [hfails]
        exact .inr ⟨_, _, _, rfl, .growTooFar (hcapacity ▸ hsize), h⟩
      · subst hmemory
        rw [hfails]
        exact .inr ⟨_, _, _, rfl, .growFails (hcapacity ▸ hsize), h⟩
      · subst hmemory
        have hgrown := h.grow (Int.le_of_eq hret.symm)
        rw [hret]
        exact .inr ⟨_, _, _, rfl, .grow (hcapacity ▸ hsize), hgrown⟩
  | autoGrowLimit maxElems =>
      refine .inr ⟨_, _, _, rfl, .limit, h.capacity, h.autoGrow, rfl, ?_⟩
      cases h.content with
      | inl hholds =>
          exact .inl ⟨hholds.offsetR, hholds.length, hholds.offsetW, hholds.isEmpty, hholds.content⟩
      | inr hblank =>
          obtain ⟨⟨hnb, hr, hw, hempty⟩, hnil⟩ := hblank
          exact .inr ⟨⟨hnb, hr, hw, hempty⟩, hnil⟩
  | reset2 => exact .inr ⟨_, _, _, rfl, .reset, h.reset⟩

theorem AVFifo.Refines.run (h : f.Refines q) (ops : List (FifoOp σ α)) :
    ∃ last, q.Run ops (fifoRun f ops).1 last ∧
      Option.Rel AVFifo.Refines (fifoRun f ops).2 last := by
  induction ops generalizing f q with
  | nil => exact ⟨some q, .nil, .some h⟩
  | cons op ops ih =>
      rw [fifoRun]
      obtain ⟨hstep, haborts⟩ | ⟨answer, f', q', hstep, hsame, hnext⟩ := h.step op
      · rw [hstep]
        exact ⟨none, .aborts haborts, .none⟩
      · rw [hstep]
        obtain ⟨last, hrun, hlast⟩ := ih hnext
        exact ⟨last, .cons hsame hrun, hlast⟩

end Refines

/-- An empty queue with the limit that a new FIFO has. -/
def GrowingQueue.start (nbElems elemSize : Nat) (autoGrow : Bool) : GrowingQueue α where
  toBoundedQueue := .empty nbElems
  autoGrow := autoGrow
  autoGrowLimit := max (1048576 / elemSize) 1

theorem avFifoAlloc2_refines (nbElems elemSize : Nat) (autoGrow : Bool) :
    (avFifoAlloc2 nbElems elemSize autoGrow : AVFifo α).Refines
      (.start nbElems elemSize autoGrow) := by
  refine ⟨rfl, rfl, rfl, ?_⟩
  by_cases hnone : nbElems = 0
  · exact .inr ⟨⟨hnone, rfl, rfl, rfl⟩, rfl⟩
  · exact .inl (avFifoAlloc2_holds (Nat.pos_of_ne_zero hnone) elemSize autoGrow)

/-- Every run of a new FIFO answers as the queue does, up to the end or a failed
assertion; in the end it counts the queue's elements and its room. -/
theorem fifo_refines_queue (nbElems elemSize : Nat) (autoGrow : Bool) (ops : List (FifoOp σ α)) :
    ∃ last : Option (GrowingQueue α),
      GrowingQueue.Run (.start nbElems elemSize autoGrow) ops
        (fifoRun (avFifoAlloc2 nbElems elemSize autoGrow) ops).1 last ∧
      Option.Rel (fun f q => f.elems = q.elems ∧ avFifoCanRead f = q.elems.length ∧
          avFifoCanRead f + avFifoCanWrite f = q.capacity)
        (fifoRun (avFifoAlloc2 nbElems elemSize autoGrow) ops).2 last := by
  obtain ⟨last, hrun, hlast⟩ := (avFifoAlloc2_refines nbElems elemSize autoGrow).run ops
  refine ⟨last, hrun, ?_⟩
  generalize (fifoRun (avFifoAlloc2 nbElems elemSize autoGrow) ops).2 = reached at hlast ⊢
  cases hlast with
  | none => exact .none
  | some h =>
      refine .some ⟨?_, h.canRead, ?_⟩
      · cases h.content with
        | inl hholds => exact hholds.elems
        | inr hblank => simp [AVFifo.elems, hblank.1.canRead, hblank.2]
      · rw [h.canRead, h.canWrite, BoundedQueue.length_add_room]

/-- Content that wraps around the end is kept when the buffer grows. -/
example : ((fifoRun (avFifoAlloc2 2 4 false) ([.write [1, 2] true, .read 1, .write [3] true,
    .grow2 1 true, .peek 1 1, .read 2] : List (FifoOp Unit Nat))).1.map FifoAnswer.elems) =
      [[], [some 1], [], [], [some 3], [some 2, some 3]] := by
  decide

end P2PFFmpeg.Util
