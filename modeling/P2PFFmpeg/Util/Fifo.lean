import P2PFFmpeg.Library.Ring
import P2PFFmpeg.Util.Error

namespace P2PFFmpeg.Util

open Library Library.Ring

def sizeMax : Nat := 18446744073709551615

/-- A ring buffer that grows; `none` is memory that nothing was written to. -/
structure AVFifo (α : Type) where
  buffer : Nat → Option α
  nbElems : Nat
  offsetR : Nat
  offsetW : Nat
  isEmpty : Bool
  autoGrow : Bool
  autoGrowLimit : Nat

variable {α : Type}

def avFifoAlloc2 (nbElems elemSize : Nat) (autoGrow : Bool) : AVFifo α where
  buffer _ := none
  nbElems := nbElems
  offsetR := 0
  offsetW := 0
  isEmpty := true
  autoGrow := autoGrow
  autoGrowLimit := max (1048576 / elemSize) 1

def avFifoCanRead (f : AVFifo α) : Nat :=
  if f.offsetW ≤ f.offsetR && !f.isEmpty then f.nbElems - f.offsetR + f.offsetW
  else f.offsetW - f.offsetR

def avFifoCanWrite (f : AVFifo α) : Nat := f.nbElems - avFifoCanRead f

def movedUp (f : AVFifo α) (copy : Nat) (i : Nat) : Option α :=
  if f.nbElems ≤ i ∧ i < f.nbElems + copy then f.buffer (i - f.nbElems) else f.buffer i

def avFifoGrow2 (f : AVFifo α) (inc : Nat) (allocated : Bool) : Int × AVFifo α :=
  if inc > sizeMax - f.nbElems then (-22, f)
  else if allocated = false then (-12, f)
  else if f.offsetW ≤ f.offsetR && !f.isEmpty then
    let copy := min inc f.offsetW
    if copy < f.offsetW then
      (0, { f with
        buffer := fun i =>
          if i < f.offsetW - copy then movedUp f copy (i + copy) else movedUp f copy i
        offsetW := f.offsetW - copy
        nbElems := f.nbElems + inc })
    else
      (0, { f with
        buffer := movedUp f copy
        offsetW := if copy = inc then 0 else f.nbElems + copy
        nbElems := f.nbElems + inc })
  else (0, { f with nbElems := f.nbElems + inc })

def fifoCheckSpace (f : AVFifo α) (toWrite : Nat) (allocated : Bool) : Int × AVFifo α :=
  let needGrow := toWrite - avFifoCanWrite f
  if needGrow = 0 then (0, f)
  else
    let canGrow := f.autoGrowLimit - f.nbElems
    if f.autoGrow && needGrow ≤ canGrow then
      avFifoGrow2 f (if needGrow < canGrow / 2 then needGrow * 2 else canGrow) allocated
    else (averrorEnospc, f)

def writeElems (nbElems : Nat) : List α → (Nat → Option α) × Nat → (Nat → Option α) × Nat
  | [], at_ => at_
  | x :: xs, (buf, offsetW) =>
      writeElems nbElems xs
        (Function.update buf offsetW (some x), if offsetW + 1 ≥ nbElems then 0 else offsetW + 1)

def avFifoWrite (f : AVFifo α) (xs : List α) (allocated : Bool) : Int × AVFifo α :=
  let checked := fifoCheckSpace f xs.length allocated
  if checked.1 < 0 then checked
  else
    let written := writeElems checked.2.nbElems xs (checked.2.buffer, checked.2.offsetW)
    (0, { checked.2 with
      buffer := written.1
      offsetW := written.2
      isEmpty := if xs = [] then checked.2.isEmpty else false })

def readElems (nbElems : Nat) (buf : Nat → Option α) : Nat → Nat → List (Option α)
  | _, 0 => []
  | offsetR, toRead + 1 =>
      buf offsetR :: readElems nbElems buf (if offsetR + 1 ≥ nbElems then 0 else offsetR + 1) toRead

def fifoPeekCommon (f : AVFifo α) (toRead offset : Nat) : Int × List (Option α) :=
  let canRead := avFifoCanRead f
  if offset > canRead ∨ toRead > canRead - offset then (-22, [])
  else
    let offsetR :=
      if f.offsetR ≥ f.nbElems - offset then f.offsetR - (f.nbElems - offset) else f.offsetR + offset
    (0, readElems f.nbElems f.buffer offsetR toRead)

def avFifoDrain2 (f : AVFifo α) (size : Nat) : AVFifo α :=
  { f with
    isEmpty := if avFifoCanRead f = size then true else f.isEmpty
    offsetR :=
      if f.offsetR ≥ f.nbElems - size then f.offsetR - (f.nbElems - size) else f.offsetR + size }

def avFifoRead (f : AVFifo α) (nbElems : Nat) : Int × List (Option α) × AVFifo α :=
  let peeked := fifoPeekCommon f nbElems 0
  (peeked.1, peeked.2, avFifoDrain2 f peeked.2.length)

structure AVFifo.Holds (f : AVFifo α) (xs : List α) : Prop where
  offsetR : f.offsetR < f.nbElems
  length : xs.length ≤ f.nbElems
  offsetW : f.offsetW = (f.offsetR + xs.length) % f.nbElems
  isEmpty : f.isEmpty = decide (xs.length = 0)
  content : window f.buffer f.nbElems f.offsetR xs.length = xs.map some

def AVFifo.elems (f : AVFifo α) : List α :=
  (window f.buffer f.nbElems f.offsetR (avFifoCanRead f)).filterMap id

section Holds

variable {f : AVFifo α} {xs : List α}

theorem avFifoAlloc2_holds {nbElems : Nat} (h : 0 < nbElems) (elemSize : Nat) (autoGrow : Bool) :
    (avFifoAlloc2 nbElems elemSize autoGrow : AVFifo α).Holds [] where
  offsetR := h
  length := Nat.zero_le _
  offsetW := (Nat.zero_mod nbElems).symm
  isEmpty := rfl
  content := rfl

theorem AVFifo.Holds.canRead (h : f.Holds xs) : avFifoCanRead f = xs.length := by
  have hr := h.offsetR
  have hlen := h.length
  have hw := h.offsetW
  rw [add_mod_of_lt hr hlen] at hw
  simp only [avFifoCanRead, h.isEmpty, hw]
  by_cases hnil : xs.length = 0
  · simp [hnil, hr]
  · by_cases hfits : f.offsetR + xs.length < f.nbElems
    · have hbefore : ¬ f.offsetR + xs.length ≤ f.offsetR := by omega
      simp only [hfits, if_true, hbefore, decide_false, Bool.false_and, Bool.false_eq_true, if_false]
      omega
    · have hwraps : f.offsetR + xs.length - f.nbElems ≤ f.offsetR := by omega
      simp only [hfits, if_false, hwraps, hnil, decide_true, decide_false, Bool.not_false,
        Bool.and_self, if_true]
      omega

theorem AVFifo.Holds.elems (h : f.Holds xs) : f.elems = xs := by
  rw [AVFifo.elems, h.canRead, h.content]
  simp [List.filterMap_map]

/-- The elements stay where they are, or are behind the old end, or have been
moved up to the start: the three places that a place of the old ring can have
in the larger one. -/
theorem grown_place {n inc r i : Nat} (hr : r < n) (hi : i < n) :
    (r + i < n ∧ (r + i) % n = r + i ∧ (r + i) % (n + inc) = r + i) ∨
      (n ≤ r + i ∧ r + i < n + inc ∧ (r + i) % n = r + i - n ∧ (r + i) % (n + inc) = r + i) ∨
      (n + inc ≤ r + i ∧ (r + i) % n = r + i - n ∧ (r + i) % (n + inc) = r + i - (n + inc)) := by
  rw [add_mod_of_lt hr (Nat.le_of_lt hi), @add_mod_of_lt (n + inc) r i (by omega) (by omega)]
  split <;> split <;> omega

/-- There is not room for all of the start behind the old end: the rest of it moves
to the start. -/
theorem AVFifo.Holds.grow_wrapped (h : f.Holds xs) {inc : Nat}
    (hend : f.offsetW + f.nbElems = f.offsetR + xs.length) (hcopy : inc < f.offsetW) :
    AVFifo.Holds { f with
      buffer := fun i => if i < f.offsetW - inc then movedUp f inc (i + inc) else movedUp f inc i
      offsetW := f.offsetW - inc
      nbElems := f.nbElems + inc } xs := by
  have hr := h.offsetR
  have hlen := h.length
  refine ⟨?_, ?_, ?_, h.isEmpty, ?_⟩
  · simp only
    omega
  · simp only
    omega
  · simp only
    rw [add_mod_of_lt (by omega) (by omega)]
    split <;> omega
  · rw [← h.content]
    apply window_congr
    intro i hi
    obtain ⟨_, hold, hnew⟩ | ⟨_, _, hold, hnew⟩ | ⟨_, hold, hnew⟩ :=
      @grown_place f.nbElems inc f.offsetR i hr (by omega)
    · simp only [hold, hnew]
      rw [if_neg (by omega), movedUp, if_neg (by omega)]
    · simp only [hold, hnew]
      rw [if_neg (by omega), movedUp, if_pos (by omega)]
    · simp only [hold, hnew]
      rw [if_pos (by omega), movedUp, if_neg (by omega)]
      congr 1
      omega

/-- All of the start moves behind the old end. -/
theorem AVFifo.Holds.grow_unwrapped (h : f.Holds xs) {inc : Nat}
    (hend : f.offsetW + f.nbElems = f.offsetR + xs.length) (hcopy : f.offsetW ≤ inc) :
    AVFifo.Holds { f with
      buffer := movedUp f f.offsetW
      offsetW := if f.offsetW = inc then 0 else f.nbElems + f.offsetW
      nbElems := f.nbElems + inc } xs := by
  have hr := h.offsetR
  have hlen := h.length
  refine ⟨?_, ?_, ?_, h.isEmpty, ?_⟩
  · simp only
    omega
  · simp only
    omega
  · simp only
    rw [add_mod_of_lt (by omega) (by omega)]
    split <;> split <;> omega
  · rw [← h.content]
    apply window_congr
    intro i hi
    obtain ⟨_, hold, hnew⟩ | ⟨_, _, hold, hnew⟩ | ⟨_, hold, hnew⟩ :=
      @grown_place f.nbElems inc f.offsetR i hr (by omega)
    · simp only [hold, hnew]
      rw [movedUp, if_neg (by omega)]
    · simp only [hold, hnew]
      rw [movedUp, if_pos (by omega)]
    · omega

theorem AVFifo.Holds.grow_behind (h : f.Holds xs) (inc : Nat)
    (hend : f.offsetW = f.offsetR + xs.length) :
    AVFifo.Holds { f with nbElems := f.nbElems + inc } xs := by
  have hr := h.offsetR
  have hlen := h.length
  have hw := h.offsetW
  rw [add_mod_of_lt hr hlen] at hw
  refine ⟨?_, ?_, ?_, h.isEmpty, ?_⟩
  · simp only
    omega
  · simp only
    omega
  · simp only
    rw [add_mod_of_lt (by omega) (by omega)]
    split at hw <;> split <;> omega
  · rw [← h.content]
    apply window_congr
    intro i hi
    obtain ⟨_, hold, hnew⟩ | ⟨_, _, hold, hnew⟩ | ⟨_, hold, hnew⟩ :=
      @grown_place f.nbElems inc f.offsetR i hr (by omega)
    · rw [hold, hnew]
    · split at hw <;> omega
    · split at hw <;> omega

theorem AVFifo.Holds.grow (h : f.Holds xs) (inc : Nat) {allocated : Bool}
    (hret : 0 ≤ (avFifoGrow2 f inc allocated).1) : (avFifoGrow2 f inc allocated).2.Holds xs ∧
      (avFifoGrow2 f inc allocated).2.nbElems = f.nbElems + inc := by
  have hr := h.offsetR
  have hlen := h.length
  have hw := h.offsetW
  rw [add_mod_of_lt hr hlen] at hw
  simp only [avFifoGrow2] at hret ⊢
  split at hret
  · cases hret
  · rename_i hsize
    rw [if_neg hsize]
    split at hret
    · cases hret
    · rename_i hallocated
      rw [if_neg hallocated]
      by_cases hwraps : (f.offsetW ≤ f.offsetR && !f.isEmpty) = true
      · rw [if_pos hwraps]
        simp only [h.isEmpty, Bool.and_eq_true, decide_eq_true_eq, Bool.not_eq_true',
          decide_eq_false_iff_not] at hwraps
        have hend : f.offsetW + f.nbElems = f.offsetR + xs.length := by
          split at hw <;> omega
        by_cases hcopy : min inc f.offsetW < f.offsetW
        · have hinc : min inc f.offsetW = inc := by omega
          rw [if_pos hcopy, hinc]
          exact ⟨h.grow_wrapped hend (hinc ▸ hcopy), rfl⟩
        · have hinc : min inc f.offsetW = f.offsetW := by omega
          rw [if_neg hcopy, hinc]
          exact ⟨h.grow_unwrapped hend (by omega), rfl⟩
      · rw [if_neg hwraps]
        simp only [h.isEmpty, Bool.and_eq_true, decide_eq_true_eq, Bool.not_eq_true',
          decide_eq_false_iff_not, not_and, Decidable.not_not] at hwraps
        have hend : f.offsetW = f.offsetR + xs.length := by
          split at hw <;> omega
        exact ⟨h.grow_behind inc hend, rfl⟩

theorem avFifoGrow2_keeps (f : AVFifo α) (inc : Nat) (allocated : Bool) :
    (avFifoGrow2 f inc allocated).2.autoGrowLimit = f.autoGrowLimit ∧
      ((avFifoGrow2 f inc allocated).1 < 0 → (avFifoGrow2 f inc allocated).2 = f) := by
  have hzero : ∀ g : AVFifo α, (0, g).1 < (0 : Int) → (0, g).2 = f := by
    intro g hneg
    exact absurd hneg (Int.lt_irrefl 0)
  simp only [avFifoGrow2]
  repeat' split
  all_goals first
    | exact ⟨rfl, fun _ => rfl⟩
    | exact ⟨rfl, hzero _⟩

theorem AVFifo.Holds.checkSpace (h : f.Holds xs) (hlimit : f.nbElems ≤ f.autoGrowLimit)
    (toWrite : Nat) (allocated : Bool) :
    ((fifoCheckSpace f toWrite allocated).1 < 0 ∧ (fifoCheckSpace f toWrite allocated).2 = f) ∨
      (0 ≤ (fifoCheckSpace f toWrite allocated).1 ∧
        (fifoCheckSpace f toWrite allocated).2.Holds xs ∧
        xs.length + toWrite ≤ (fifoCheckSpace f toWrite allocated).2.nbElems ∧
        (fifoCheckSpace f toWrite allocated).2.nbElems ≤ f.autoGrowLimit ∧
        (fifoCheckSpace f toWrite allocated).2.autoGrowLimit = f.autoGrowLimit) := by
  have hlen := h.length
  simp only [fifoCheckSpace, avFifoCanWrite, h.canRead]
  by_cases hroom : toWrite - (f.nbElems - xs.length) = 0
  · rw [if_pos hroom]
    exact .inr ⟨Int.le_refl 0, h, by simp only; omega, hlimit, rfl⟩
  · rw [if_neg hroom]
    by_cases hgrow : (f.autoGrow &&
        decide (toWrite - (f.nbElems - xs.length) ≤ f.autoGrowLimit - f.nbElems)) = true
    · rw [if_pos hgrow]
      rw [Bool.and_eq_true, decide_eq_true_eq] at hgrow
      obtain ⟨inc, hinc⟩ : ∃ inc, inc =
          if toWrite - (f.nbElems - xs.length) < (f.autoGrowLimit - f.nbElems) / 2 then
            (toWrite - (f.nbElems - xs.length)) * 2
          else f.autoGrowLimit - f.nbElems := ⟨_, rfl⟩
      rw [← hinc]
      have henough : toWrite - (f.nbElems - xs.length) ≤ inc ∧ inc ≤ f.autoGrowLimit - f.nbElems := by
        rw [hinc]
        split <;> omega
      obtain ⟨hkeptLimit, hkept⟩ := avFifoGrow2_keeps f inc allocated
      by_cases hret : (avFifoGrow2 f inc allocated).1 < 0
      · exact .inl ⟨hret, hkept hret⟩
      · obtain ⟨hholds, hnb⟩ := h.grow inc (Int.not_lt.mp hret)
        exact .inr ⟨Int.not_lt.mp hret, hholds, by omega, by omega, hkeptLimit⟩
    · rw [if_neg hgrow]
      exact .inl ⟨by simp only [averrorEnospc]; omega, rfl⟩

theorem next_place {n r : Nat} (hr : r < n) : (if r + 1 ≥ n then 0 else r + 1) = (r + 1) % n := by
  rw [add_mod_of_lt hr (by omega)]
  split <;> split <;> omega

theorem writeElems_spec {n r : Nat} (hr : r < n) (ys : List α) (buf : Nat → Option α) {k : Nat}
    (hk : k + ys.length ≤ n) : window (writeElems n ys (buf, (r + k) % n)).1 n r (k + ys.length) =
        window buf n r k ++ ys.map some ∧
      (writeElems n ys (buf, (r + k) % n)).2 = (r + (k + ys.length)) % n := by
  induction ys generalizing buf k with
  | nil => simp [writeElems]
  | cons y ys ih =>
      have hroom : k < n := by
        simp only [List.length_cons] at hk
        omega
      have hplace : (r + k) % n < n := Nat.mod_lt _ (by omega)
      obtain ⟨hwindow, hend⟩ := ih (Function.update buf ((r + k) % n) (some y)) (k := k + 1)
        (by simp only [List.length_cons] at hk; omega)
      have hsize : k + (y :: ys).length = k + 1 + ys.length := by
        simp only [List.length_cons]
        omega
      have hstart : ((r + k) % n + 1) % n = (r + (k + 1)) % n := by
        rw [Nat.mod_add_mod, Nat.add_assoc]
      rw [writeElems, next_place hplace, hstart, hsize, hwindow, hend, window_push buf hr hroom]
      simp

theorem AVFifo.Holds.written (h : f.Holds xs) {ys : List α} (hroom : xs.length + ys.length ≤ f.nbElems) :
    AVFifo.Holds { f with
      buffer := (writeElems f.nbElems ys (f.buffer, f.offsetW)).1
      offsetW := (writeElems f.nbElems ys (f.buffer, f.offsetW)).2
      isEmpty := if ys = [] then f.isEmpty else false } (xs ++ ys) := by
  have hwritten := writeElems_spec h.offsetR ys f.buffer hroom
  rw [← h.offsetW] at hwritten
  refine ⟨h.offsetR, ?_, ?_, ?_, ?_⟩
  · rw [List.length_append]
    exact hroom
  · rw [List.length_append]
    exact hwritten.2
  · cases ys with
    | nil => simpa using h.isEmpty
    | cons y ys => simp
  · rw [List.length_append, List.map_append, ← h.content]
    exact hwritten.1

theorem AVFifo.Holds.write (h : f.Holds xs) (hlimit : f.nbElems ≤ f.autoGrowLimit) (ys : List α)
    (allocated : Bool) : ((avFifoWrite f ys allocated).1 < 0 ∧ (avFifoWrite f ys allocated).2 = f) ∨
      (0 ≤ (avFifoWrite f ys allocated).1 ∧ (avFifoWrite f ys allocated).2.Holds (xs ++ ys) ∧
        (avFifoWrite f ys allocated).2.nbElems ≤ f.autoGrowLimit ∧
        (avFifoWrite f ys allocated).2.autoGrowLimit = f.autoGrowLimit) := by
  simp only [avFifoWrite]
  obtain ⟨hneg, hsame⟩ | ⟨hpos, hholds, hroom, hbound, hkept⟩ :=
    h.checkSpace hlimit ys.length allocated
  · rw [if_pos hneg]
    exact .inl ⟨hneg, hsame⟩
  · rw [if_neg (Int.not_lt.mpr hpos)]
    exact .inr ⟨Int.le_refl 0, hholds.written hroom, hbound, hkept⟩

theorem AVFifo.Holds.write_fits (h : f.Holds xs) {ys : List α}
    (hroom : xs.length + ys.length ≤ f.nbElems) (allocated : Bool) :
    (avFifoWrite f ys allocated).1 = 0 ∧ (avFifoWrite f ys allocated).2.Holds (xs ++ ys) := by
  have hspace : fifoCheckSpace f ys.length allocated = (0, f) := by
    simp only [fifoCheckSpace, avFifoCanWrite, h.canRead]
    rw [if_pos (by omega)]
  simp only [avFifoWrite, hspace, Int.lt_irrefl, if_false, true_and]
  exact h.written hroom

theorem readElems_eq {n r : Nat} (hr : r < n) (buf : Nat → Option α) (k : Nat) :
    readElems n buf r k = window buf n r k := by
  induction k generalizing r with
  | zero => rfl
  | succ k ih =>
      rw [readElems, next_place hr, window_cons buf hr, ih (Nat.mod_lt _ (by omega))]

theorem AVFifo.Holds.drain (h : f.Holds xs) {size : Nat} (hsize : size ≤ xs.length) :
    (avFifoDrain2 f size).Holds (xs.drop size) := by
  have hr := h.offsetR
  have hlen := h.length
  have hplace : (if f.offsetR ≥ f.nbElems - size then f.offsetR - (f.nbElems - size)
      else f.offsetR + size) = (f.offsetR + size) % f.nbElems := by
    rw [add_mod_of_lt hr (by omega)]
    split <;> split <;> omega
  refine ⟨?_, ?_, ?_, ?_, ?_⟩
  · rw [avFifoDrain2, hplace]
    exact Nat.mod_lt _ (by omega)
  · rw [List.length_drop]
    simp only [avFifoDrain2]
    omega
  · simp only [avFifoDrain2, hplace, h.offsetW, List.length_drop, Nat.mod_add_mod]
    congr 1
    omega
  · simp only [avFifoDrain2, h.canRead, h.isEmpty, List.length_drop]
    by_cases hall : xs.length = size
    · simp [hall]
    · have hmore : xs.length - size ≠ 0 := by omega
      have hsome : xs.length ≠ 0 := by omega
      simp [hall, hmore, hsome]
  · simp only [avFifoDrain2, hplace, List.length_drop]
    rw [window_drop f.buffer hr hsize, h.content, List.map_drop]

theorem AVFifo.Holds.peekAt (h : f.Holds xs) (toRead offset : Nat) : fifoPeekCommon f toRead offset =
      if offset > xs.length ∨ toRead > xs.length - offset then (-22, [])
      else (0, ((xs.drop offset).take toRead).map some) := by
  have hr := h.offsetR
  have hlen := h.length
  simp only [fifoPeekCommon, h.canRead]
  by_cases hfew : offset > xs.length ∨ toRead > xs.length - offset
  · rw [if_pos hfew, if_pos hfew]
  · have hplace : (if f.offsetR ≥ f.nbElems - offset then f.offsetR - (f.nbElems - offset)
        else f.offsetR + offset) = (f.offsetR + offset) % f.nbElems := by
      rw [add_mod_of_lt hr (by omega)]
      split <;> split <;> omega
    rw [if_neg hfew, if_neg hfew, hplace, readElems_eq (Nat.mod_lt _ (by omega)),
      window_take f.buffer f.nbElems _ (show toRead ≤ xs.length - offset by omega),
      window_drop f.buffer hr (by omega), h.content, List.map_take, List.map_drop]

theorem AVFifo.Holds.peek (h : f.Holds xs) (toRead : Nat) :
    (xs.length < toRead ∧ fifoPeekCommon f toRead 0 = (-22, [])) ∨
      (toRead ≤ xs.length ∧ fifoPeekCommon f toRead 0 = (0, (xs.take toRead).map some)) := by
  rw [h.peekAt]
  by_cases hfew : xs.length < toRead
  · rw [if_pos (.inr (by omega))]
    exact .inl ⟨hfew, rfl⟩
  · rw [if_neg (by omega)]
    exact .inr ⟨Nat.not_lt.mp hfew, rfl⟩

theorem AVFifo.Holds.read (h : f.Holds xs) (n : Nat) : (xs.length < n ∧ avFifoRead f n = (-22, [], f)) ∨
      (n ≤ xs.length ∧ avFifoRead f n = (0, (xs.take n).map some, avFifoDrain2 f n) ∧
        (avFifoDrain2 f n).Holds (xs.drop n)) := by
  have hr := h.offsetR
  obtain ⟨hfew, hpeek⟩ | ⟨henough, hpeek⟩ := h.peek n
  · refine .inl ⟨hfew, ?_⟩
    have hsame : avFifoDrain2 f 0 = f := by
      have hstart : (if f.offsetR ≥ f.nbElems - 0 then f.offsetR - (f.nbElems - 0)
          else f.offsetR + 0) = f.offsetR := by
        split <;> omega
      have hempty : (if avFifoCanRead f = 0 then true else f.isEmpty) = f.isEmpty := by
        rw [h.canRead, h.isEmpty]
        by_cases hnil : xs.length = 0 <;> simp [hnil]
      simp only [avFifoDrain2, hstart, hempty]
    simp only [avFifoRead, hpeek, List.length_nil, hsame]
  · refine .inr ⟨henough, ?_, h.drain henough⟩
    simp [avFifoRead, hpeek, Nat.min_eq_left henough]

end Holds

end P2PFFmpeg.Util
