import P2PFFmpeg.Demux.WrapReference

namespace P2PFFmpeg.Seek

open Util
open Demux.Wrap (AVFormatContext wrapTimestamp)

/-- What a demuxer answers for a position and a limit: where a frame is, and its
timestamp. -/
abbrev ReadTimestampFunc := Int → Int → Int × Option Int

def readTimestamp (s : AVFormatContext) (streamIndex : Int) (func : ReadTimestampFunc) :
    ReadTimestampFunc :=
  fun pos posLimit =>
    let (pos, ts) := func pos posLimit
    (pos, if streamIndex ≥ 0 then wrapTimestamp (s.streams streamIndex.toNat) ts else ts)

def findNearEnd (read : ReadTimestampFunc) : Nat → Int → Int → Option (Int × Option Int)
  | 0, _, _ => none
  | rounds + 1, step, posMax =>
      let limit := posMax
      let (posMax, tsMax) := read (max 0 (posMax - step)) limit
      if tsMax = none ∧ 2 * limit > step + step then findNearEnd read rounds (step + step) posMax
      else some (posMax, tsMax)

def walkToEnd (read : ReadTimestampFunc) (filesize : Int) : Nat → Int → Int → Option (Int × Int)
  | 0, _, _ => none
  | rounds + 1, posMax, tsMax =>
      match read (posMax + 1) int64Max with
      | (_, none) => some (posMax, tsMax)
      | (tmpPos, some tmpTs) =>
          if tmpPos ≤ posMax then none
          else if tmpPos ≥ filesize then some (tmpPos, tmpTs)
          else walkToEnd read filesize rounds tmpPos tmpTs

/-- The last position with its timestamp, or -1; nothing when an assertion fails or
the rounds run out. -/
def ffFindLastTs (read : ReadTimestampFunc) (filesize : Int) (rounds : Nat) :
    Option (Except Int (Int × Int)) := do
  match ← findNearEnd read rounds 1024 (filesize - 1) with
  | (_, none) => some (.error (-1))
  | (posMax, some tsMax) => do
      let last ← walkToEnd read filesize rounds posMax tsMax
      some (.ok last)

structure Bounds where
  posMin : Int
  posMax : Int
  posLimit : Int
  tsMin : Int
  tsMax : Int

/-- Where the next search would start; nothing for a division by zero. -/
def Bounds.guess (b : Bounds) (targetTs : Int) (noChange : Nat) : Option Int :=
  if noChange = 0 then
    if b.tsMax - b.tsMin = 0 then none
    else some (avRescale (targetTs - b.tsMin) (b.posMax - b.posMin) (b.tsMax - b.tsMin) +
      b.posMin - (b.posMax - b.posLimit))
  else if noChange = 1 then some ((b.posMin + b.posLimit) / 2)
  else some b.posMin

def Bounds.startPos (b : Bounds) (pos : Int) : Int :=
  if pos ≤ b.posMin then b.posMin + 1 else if pos > b.posLimit then b.posLimit else pos

/-- A frame found from `startPos` on becomes one of the two around the target, or
both. -/
def Bounds.narrow (b : Bounds) (targetTs startPos pos ts : Int) : Bounds :=
  let b := if targetTs ≤ ts then { b with posLimit := startPos - 1, posMax := pos, tsMax := ts } else b
  if targetTs ≥ ts then { b with posMin := pos, tsMin := ts } else b

def genSearchLoop (read : ReadTimestampFunc) (targetTs : Int) :
    Nat → Nat → Bounds → Option (Except Int Bounds)
  | 0, _, _ => none
  | rounds + 1, noChange, b =>
      if b.posMin < b.posLimit then
        if b.posLimit > b.posMax then none
        else do
          let startPos := b.startPos (← b.guess targetTs noChange)
          match read startPos int64Max with
          | (_, none) => some (.error (-1))
          | (pos, some ts) =>
              genSearchLoop read targetTs rounds (if pos = b.posMax then noChange + 1 else 0)
                (b.narrow targetTs startPos pos ts)
      else some (.ok b)

def Bounds.rounds (b : Bounds) : Nat := (b.posLimit - b.posMin).toNat + 1

/-- The position and the timestamp, or an error; nothing when an assertion fails,
when there is a division by zero or when the search does not end. -/
def ffGenSearch (read : ReadTimestampFunc) (dataOffset filesize : Int) (lastRounds : Nat)
    (targetTs posMin posMax posLimit : Int) (tsMin tsMax : Option Int) (flags : UInt32) :
    Option (Except Int (Int × Int)) :=
  let (posMin, tsMin) := match tsMin with
    | some ts => (posMin, some ts)
    | none => read dataOffset int64Max
  match tsMin with
  | none => some (.error (-1))
  | some tsMin =>
      if tsMin ≥ targetTs then some (.ok (posMin, tsMin))
      else do
        let last ← match tsMax with
          | some ts => some (.ok (posMax, ts, posLimit))
          | none => (ffFindLastTs read filesize lastRounds).map fun last =>
              last.map fun (pos, ts) => (pos, ts, pos)
        match last with
        | .error ret => some (.error ret)
        | .ok (posMax, tsMax, posLimit) =>
            if tsMax ≤ targetTs then some (.ok (posMax, tsMax))
            else if tsMin ≥ tsMax then none
            else do
              let b : Bounds := ⟨posMin, posMax, posLimit, tsMin, tsMax⟩
              match ← genSearchLoop read targetTs b.rounds 0 b with
              | .error ret => some (.error ret)
              | .ok b =>
                  if flags &&& avseekFlagBackward ≠ 0 then some (.ok (b.posMin, b.tsMin))
                  else some (.ok (b.posMax, b.tsMax))

def FramesIncrease (frames : List (Int × Int)) : Prop :=
  frames.Pairwise fun f g => f.1 < g.1 ∧ f.2 < g.2

def ReadsFrames (frames : List (Int × Int)) (read : ReadTimestampFunc) : Prop :=
  ∀ pos posLimit, match frames.find? fun f => decide (pos ≤ f.1) with
    | some f => read pos posLimit = (f.1, some f.2)
    | none => (read pos posLimit).2 = none

section Frames

variable {frames : List (Int × Int)} {f g : Int × Int} {read : ReadTimestampFunc}

theorem FramesIncrease.le_iff (h : FramesIncrease frames) (hf : f ∈ frames) (hg : g ∈ frames) :
    f.1 ≤ g.1 ↔ f.2 ≤ g.2 := by
  obtain ⟨i, hi, rfl⟩ := List.getElem_of_mem hf
  obtain ⟨j, hj, rfl⟩ := List.getElem_of_mem hg
  obtain hlt | rfl | hgt := Nat.lt_trichotomy i j
  · have hbefore := List.pairwise_iff_getElem.mp h i j hi hj hlt
    omega
  · exact ⟨fun _ => Int.le_refl _, fun _ => Int.le_refl _⟩
  · have hafter := List.pairwise_iff_getElem.mp h j i hj hi hgt
    omega

theorem ReadsFrames.found (h : ReadsFrames frames read) (hinc : FramesIncrease frames) {pos : Int}
    (posLimit : Int) (hf : f ∈ frames) (hpos : pos ≤ f.1) :
    ∃ g ∈ frames, read pos posLimit = (g.1, some g.2) ∧ pos ≤ g.1 ∧
      ∀ e ∈ frames, pos ≤ e.1 → g.1 ≤ e.1 := by
  have hread := h pos posLimit
  cases hfind : frames.find? fun f => decide (pos ≤ f.1) with
  | none =>
      have hnone := List.find?_eq_none.mp hfind f hf
      exact absurd (decide_eq_true hpos) hnone
  | some g =>
      rw [hfind] at hread
      obtain ⟨hg, before, after, rfl, hbefore⟩ := List.find?_eq_some_iff_append.mp hfind
      refine ⟨g, List.mem_append_right _ List.mem_cons_self, hread, of_decide_eq_true hg, ?_⟩
      intro e he hpe
      obtain he | he := List.mem_append.mp he
      · have hnot := hbefore e he
        rw [decide_eq_true hpe] at hnot
        cases hnot
      · obtain rfl | he := List.mem_cons.mp he
        · exact Int.le_refl _
        · have hsorted := (List.pairwise_append.mp hinc).2.1
          exact ((List.pairwise_cons.mp hsorted).1 e he).1.le

end Frames

section Search

variable {frames : List (Int × Int)} {read : ReadTimestampFunc} {b : Bounds} {targetTs : Int}

/-- The two frames are around the target, or both are the frame at the target; and
there is no frame between the limit and the upper one. -/
structure Bounds.Around (b : Bounds) (frames : List (Int × Int)) (targetTs : Int) : Prop where
  lower : (b.posMin, b.tsMin) ∈ frames
  upper : (b.posMax, b.tsMax) ∈ frames
  limit : b.posLimit ≤ b.posMax
  gap : ∀ f ∈ frames, b.posLimit < f.1 → b.posMax ≤ f.1
  target : b.tsMin < targetTs ∧ targetTs < b.tsMax ∨
    b.posMin = b.posMax ∧ b.tsMin = targetTs ∧ b.tsMax = targetTs

theorem Bounds.Around.strict (h : b.Around frames targetTs) (hlt : b.posMin < b.posLimit) :
    b.tsMin < targetTs ∧ targetTs < b.tsMax := by
  have hlimit := h.limit
  obtain hstrict | ⟨hsame, _⟩ := h.target
  · exact hstrict
  · omega

theorem Bounds.startPos_bounds (b : Bounds) (pos : Int) (hlt : b.posMin < b.posLimit) :
    b.posMin < b.startPos pos ∧ b.startPos pos ≤ b.posLimit := by
  rw [Bounds.startPos]
  split
  · omega
  · split <;> omega

theorem Bounds.guess_some (hlt : b.tsMin < b.tsMax) (targetTs : Int) (noChange : Nat) :
    ∃ pos, b.guess targetTs noChange = some pos := by
  rw [Bounds.guess]
  split
  · rw [if_neg (by omega)]
    exact ⟨_, rfl⟩
  · split <;> exact ⟨_, rfl⟩

theorem Bounds.Around.narrow (h : b.Around frames targetTs) {startPos : Int}
    (hstart : b.posMin < startPos ∧ startPos ≤ b.posLimit) {g : Int × Int}
    (hg : g ∈ frames) (hpos : startPos ≤ g.1) (hfirst : ∀ e ∈ frames, startPos ≤ e.1 → g.1 ≤ e.1) :
    (b.narrow targetTs startPos g.1 g.2).Around frames targetTs ∧
      (b.narrow targetTs startPos g.1 g.2).posLimit - (b.narrow targetTs startPos g.1 g.2).posMin <
        b.posLimit - b.posMin := by
  have hlimit := h.limit
  have hstrict := h.strict (by omega)
  have hgap : ∀ f ∈ frames, startPos - 1 < f.1 → g.1 ≤ f.1 := fun f hf hlt =>
    hfirst f hf (by omega)
  obtain hbelow | rfl | habove := lt_trichotomy g.2 targetTs
  · -- the frame is before the target: only the lower bound moves
    simp only [Bounds.narrow, if_neg (not_le.mpr hbelow), ge_iff_le, if_pos hbelow.le]
    refine ⟨⟨hg, h.upper, hlimit, h.gap, .inl ⟨hbelow, hstrict.2⟩⟩, ?_⟩
    omega
  · simp only [Bounds.narrow, ge_iff_le, if_pos (Int.le_refl g.2)]
    refine ⟨⟨hg, hg, ?_, hgap, .inr ⟨rfl, rfl, rfl⟩⟩, by omega⟩
    dsimp only
    omega
  · simp only [Bounds.narrow, ge_iff_le, if_pos habove.le, if_neg (not_le.mpr habove)]
    refine ⟨⟨h.lower, hg, ?_, hgap, .inl ⟨hstrict.1, habove⟩⟩, by omega⟩
    dsimp only
    omega

theorem genSearchLoop_around (hinc : FramesIncrease frames) (hread : ReadsFrames frames read)
    (rounds noChange : Nat) (h : b.Around frames targetTs)
    (hrounds : (b.posLimit - b.posMin).toNat < rounds) :
    ∃ b', genSearchLoop read targetTs rounds noChange b = some (.ok b') ∧
      b'.Around frames targetTs ∧ b'.posLimit ≤ b'.posMin := by
  induction rounds generalizing b noChange with
  | zero => omega
  | succ rounds ih =>
      by_cases hlt : b.posMin < b.posLimit
      · have hlimit := h.limit
        have hstrict := h.strict hlt
        obtain ⟨pos, hguess⟩ := Bounds.guess_some (hstrict.1.trans hstrict.2) targetTs noChange
        have hstart := b.startPos_bounds pos hlt
        obtain ⟨g, hg, hfound, hpos, hfirst⟩ :=
          @ReadsFrames.found _ _ _ hread hinc (b.startPos pos) int64Max h.upper (by dsimp only; omega)
        obtain ⟨haround, hless⟩ := h.narrow hstart hg hpos hfirst
        obtain ⟨b', hloop, hb'⟩ := ih (if g.1 = b.posMax then noChange + 1 else 0) haround (by omega)
        refine ⟨b', ?_, hb'⟩
        rw [genSearchLoop, if_pos hlt, if_neg (by omega)]
        simp only [hguess, Option.bind_eq_bind, Option.bind_some, hfound]
        exact hloop
      · refine ⟨b, ?_, h, by omega⟩
        rw [genSearchLoop, if_neg hlt]

/-- The last frame that is not behind the target. -/
def LastUpTo (frames : List (Int × Int)) (targetTs : Int) (f : Int × Int) : Prop :=
  f ∈ frames ∧ f.2 ≤ targetTs ∧ ∀ g ∈ frames, g.2 ≤ targetTs → g.1 ≤ f.1

/-- The first frame that is not before the target. -/
def FirstFrom (frames : List (Int × Int)) (targetTs : Int) (f : Int × Int) : Prop :=
  f ∈ frames ∧ targetTs ≤ f.2 ∧ ∀ g ∈ frames, targetTs ≤ g.2 → f.1 ≤ g.1

theorem Bounds.Around.last (h : b.Around frames targetTs) (hinc : FramesIncrease frames)
    (hdone : b.posLimit ≤ b.posMin) : LastUpTo frames targetTs (b.posMin, b.tsMin) := by
  refine ⟨h.lower, ?_, fun g hg hle => ?_⟩
  · obtain ⟨hlt, _⟩ | ⟨_, heq, _⟩ := h.target <;> dsimp only <;> omega
  · dsimp only
    obtain ⟨_, hlt⟩ | ⟨_, heq, _⟩ := h.target
    · by_contra hbehind
      have hafter := (hinc.le_iff h.upper hg).mp (h.gap g hg (by omega))
      dsimp only at hafter
      omega
    · exact (hinc.le_iff hg h.lower).mpr (by dsimp only; omega)

theorem Bounds.Around.first (h : b.Around frames targetTs) (hinc : FramesIncrease frames)
    (hdone : b.posLimit ≤ b.posMin) : FirstFrom frames targetTs (b.posMax, b.tsMax) := by
  refine ⟨h.upper, ?_, fun g hg hle => ?_⟩
  · obtain ⟨_, hlt⟩ | ⟨_, _, heq⟩ := h.target <;> dsimp only <;> omega
  · dsimp only
    obtain ⟨hlt, _⟩ | ⟨_, _, heq⟩ := h.target
    · refine h.gap g hg ?_
      by_contra hbefore
      have hlow := (hinc.le_iff hg h.lower).mp (by dsimp only; omega)
      dsimp only at hlow
      omega
    · exact (hinc.le_iff h.upper hg).mpr (by dsimp only; omega)

/-- From frames around the target, with no frame between the limit and the upper
one, the search ends with the frame at the target or the one on its side. -/
theorem ffGenSearch_exact (s : AVFormatContext) (streamIndex : Int) (func : ReadTimestampFunc)
    (hinc : FramesIncrease frames) (hread : ReadsFrames frames (readTimestamp s streamIndex func))
    {posMin posMax posLimit tsMin tsMax : Int} (hlower : (posMin, tsMin) ∈ frames)
    (hupper : (posMax, tsMax) ∈ frames) (htarget : tsMin < targetTs ∧ targetTs < tsMax)
    (hlimit : posMin ≤ posLimit ∧ posLimit ≤ posMax)
    (hgap : ∀ f ∈ frames, ¬(posLimit < f.1 ∧ f.1 < posMax)) (dataOffset filesize : Int)
    (lastRounds : Nat) (flags : UInt32) :
    ∃ f, ffGenSearch (readTimestamp s streamIndex func) dataOffset filesize lastRounds targetTs
        posMin posMax posLimit (some tsMin) (some tsMax) flags = some (.ok f) ∧
      if flags &&& avseekFlagBackward ≠ 0 then LastUpTo frames targetTs f
      else FirstFrom frames targetTs f := by
  set b : Bounds := ⟨posMin, posMax, posLimit, tsMin, tsMax⟩ with hb
  have haround : b.Around frames targetTs :=
    ⟨hlower, hupper, hlimit.2, fun f hf hlt => by
      have hnot := hgap f hf
      rw [hb] at hlt ⊢
      dsimp only at hlt ⊢
      omega, .inl htarget⟩
  obtain ⟨b', hloop, haround', hdone⟩ :=
    genSearchLoop_around hinc hread b.rounds 0 haround (Nat.lt_succ_self _)
  simp only [ffGenSearch]
  rw [if_neg (by omega)]
  simp only [Option.bind_eq_bind, Option.bind_some]
  rw [if_neg (by omega), if_neg (by omega), ← hb, hloop, Option.bind_some]
  dsimp only
  split
  · exact ⟨_, rfl, haround'.last hinc hdone⟩
  · exact ⟨_, rfl, haround'.first hinc hdone⟩

def readFrom (frames : List (Int × Int)) : ReadTimestampFunc := fun pos _ =>
  match frames.find? fun f => decide (pos ≤ f.1) with
  | some f => (f.1, some f.2)
  | none => (pos, none)

theorem readFrom_reads (s : AVFormatContext) (frames : List (Int × Int)) :
    ReadsFrames frames (readTimestamp s (-1) (readFrom frames)) := by
  intro pos posLimit
  rw [readTimestamp, readFrom]
  cases frames.find? fun f => decide (pos ≤ f.1) with
  | none | some f => rfl

theorem ffGenSearch_exact_three :
    ∃ f, ffGenSearch (readTimestamp Demux.Wrap.lone (-1) (readFrom [(0, 0), (50, 5), (100, 10)]))
        0 101 64 7 0 100 60 (some 0) (some 10) avseekFlagBackward = some (.ok f) ∧
      if avseekFlagBackward &&& avseekFlagBackward ≠ 0 then
        LastUpTo [(0, 0), (50, 5), (100, 10)] 7 f
      else FirstFrom [(0, 0), (50, 5), (100, 10)] 7 f :=
  ffGenSearch_exact Demux.Wrap.lone (-1) _ (by simp [FramesIncrease]) (readFrom_reads _ _) (by simp)
    (by simp) ⟨by decide, by decide⟩ ⟨by decide, by decide⟩ (by simp) 0 101 64 avseekFlagBackward

/-- A limit that is before another frame hides it from the search. -/
theorem frame_behind_limit_missed :
    FramesIncrease [(0, 0), (50, 5), (100, 10)] ∧
      ReadsFrames [(0, 0), (50, 5), (100, 10)]
        (readTimestamp Demux.Wrap.lone (-1) (readFrom [(0, 0), (50, 5), (100, 10)])) ∧
      ffGenSearch (readTimestamp Demux.Wrap.lone (-1) (readFrom [(0, 0), (50, 5), (100, 10)]))
        0 101 64 7 0 100 0 (some 0) (some 10) avseekFlagBackward = some (.ok (0, 0)) ∧
      ¬LastUpTo [(0, 0), (50, 5), (100, 10)] 7 (0, 0) := by
  refine ⟨by simp [FramesIncrease], readFrom_reads _ _, rfl, ?_⟩
  rintro ⟨_, _, hlast⟩
  have hafter : (50 : Int) ≤ 0 := hlast (50, 5) (by simp) (by decide)
  omega

end Search

end P2PFFmpeg.Seek
