import P2PFFmpeg.Library.HeapList
import P2PFFmpeg.Library.Transition
import P2PFFmpeg.Output.Muxer
import P2PFFmpeg.Util.Packet
import Mathlib.Tactic.Linarith

namespace P2PFFmpeg.Mux

open Util Library

open Output (AVMediaType AVCodecID tsValue)

structure MuxStream where
  timeBase : AVRational
  positive : timeBase.Positive
  isInt : timeBase.den ≤ int32Max
  codecType : AVMediaType
  codecId : AVCodecID

/-- The streams, those below `nbStreams`, and the options of the format context. -/
structure MuxOptions where
  nbStreams : Nat
  stream : Nat → MuxStream
  maxInterleaveDelta : Int
  audioPreload : Int
  shortest : Bool

def MuxOptions.nbInterleavedStreams (o : MuxOptions) : Nat :=
  (List.range o.nbStreams).countP fun i =>
    (o.stream i).codecType ≠ .attachment ∧ (o.stream i).codecId ≠ .smpte2038

def MuxOptions.streamOf (o : MuxOptions) (pkt : AVPacket) : MuxStream :=
  o.stream pkt.streamIndex.toNat

def MuxOptions.toTimeBaseQ (o : MuxOptions) (pkt : AVPacket) : Int :=
  avRescaleQ (tsValue pkt.dts) (o.streamOf pkt).timeBase avTimeBaseQ

def MuxOptions.preloadedComp (o : MuxOptions) (next pkt : AVPacket) : Int :=
  let st := o.streamOf pkt
  let st2 := o.streamOf next
  let preload := if st.codecType = .audio then o.audioPreload else 0
  let preload2 := if st2.codecType = .audio then o.audioPreload else 0
  let ts := o.toTimeBaseQ pkt - preload
  let ts2 := o.toTimeBaseQ next - preload2
  if ts = ts2 then
    -- in unsigned arithmetic of 64 bits, read as a signed number
    let ts := Int.bmod
      ((tsValue pkt.dts * st.timeBase.num * 1000000 - preload * st.timeBase.den) * st2.timeBase.den -
        (tsValue next.dts * st2.timeBase.num * 1000000 - preload2 * st2.timeBase.den) *
          st.timeBase.den) 18446744073709551616
    (if 0 > ts then 1 else 0) - (if 0 < ts then 1 else 0)
  else (if ts2 > ts then 1 else 0) - (if ts2 < ts then 1 else 0)

def MuxOptions.compDts (o : MuxOptions) (next pkt : AVPacket) : Int :=
  let st := o.streamOf pkt
  let st2 := o.streamOf next
  if o.audioPreload ≠ 0 ∧ decide (st.codecType = .audio) ≠ decide (st2.codecType = .audio) then
    o.preloadedComp next pkt
  else avCompareTs (tsValue next.dts) st2.timeBase (tsValue pkt.dts) st.timeBase

def interleaveCompareDts (o : MuxOptions) (next pkt : AVPacket) : Bool :=
  let comp := o.compDts next pkt
  if comp = 0 then pkt.streamIndex < next.streamIndex else comp > 0

/-- The packet buffer of the muxer with the hints of its streams: the entries
below `fresh` have been allocated, and `tail` points to the last one. -/
structure Interleaver where
  list : HeapList AVPacket
  tail : Option Ptr
  fresh : Ptr
  lastInPacketBuffer : Nat → Option Ptr
  shortestEnd : Int

def Interleaver.empty : Interleaver where
  list := ⟨fun _ => ⟨.blank, none⟩, none⟩
  tail := none
  fresh := 0
  lastInPacketBuffer _ := none
  shortestEnd := avNoptsValue

structure AddMemory where
  allocated : Bool
  refcounted : Int

/-- The loop of ff_interleave_add_packet: the first link from here on that is
NULL or points to a packet that is `later`. -/
def seekLink (l : HeapList AVPacket) (later : AVPacket → Bool) : Nat → Link → Option Link
  | 0, _ => none
  | rounds + 1, nextPoint =>
      match l.follow nextPoint with
      | none => some nextPoint
      | some p =>
          if later (l.heap p).item then some nextPoint else seekLink l later rounds (.next p)

def Interleaver.hintedLink (s : Interleaver) (i : Nat) : Link :=
  match s.lastInPacketBuffer i with
  | some p => .next p
  | none => .head

def Interleaver.nextPoint (s : Interleaver) (compare : AVPacket → AVPacket → Bool) (pkt : AVPacket) :
    Option Link :=
  let hinted := s.hintedLink pkt.streamIndex.toNat
  if (s.list.follow hinted).isSome then
    match s.tail with
    | none => none
    | some tail =>
        if compare (s.list.heap tail).item pkt then
          seekLink s.list (fun next => compare next pkt) (s.fresh + 1) hinted
        else some (.next tail)
  else some hinted

/-- `none` when a pointer is followed that is NULL, or a loop does not end. -/
def ffInterleaveAddPacket (s : Interleaver) (pkt : AVPacket) (compare : AVPacket → AVPacket → Bool)
    (memory : AddMemory) : Option (Int × Interleaver) :=
  if memory.allocated = false then some (averrorEnomem, s)
  else if memory.refcounted < 0 then some (memory.refcounted, s)
  else
    (s.nextPoint compare pkt).map fun nextPoint =>
      (0, { s with
        list := s.list.insertAt nextPoint s.fresh pkt
        tail := if (s.list.follow nextPoint).isNone then some s.fresh else s.tail
        fresh := s.fresh + 1
        lastInPacketBuffer :=
          Function.update s.lastInPacketBuffer pkt.streamIndex.toNat (some s.fresh) })

def Interleaver.unlinkHead (s : Interleaver) (p : Ptr) : Interleaver :=
  let top := s.list.heap p
  let i := top.item.streamIndex.toNat
  { s with
    list := { s.list with head := top.next }
    tail := if top.next.isNone then none else s.tail
    lastInPacketBuffer :=
      if s.lastInPacketBuffer i = some p then Function.update s.lastInPacketBuffer i none
      else s.lastInPacketBuffer }

def Interleaver.popHead (s : Interleaver) : Option (AVPacket × Interleaver) :=
  s.list.head.map fun p => ((s.list.heap p).item, s.unlinkHead p)

def Interleaver.streamCount (o : MuxOptions) (s : Interleaver) : Nat :=
  (List.range o.nbStreams).countP fun i => (s.lastInPacketBuffer i).isSome

def Interleaver.noninterleavedCount (o : MuxOptions) (s : Interleaver) : Nat :=
  (List.range o.nbStreams).countP fun i =>
    (s.lastInPacketBuffer i).isNone ∧ (o.stream i).codecType ≠ .attachment ∧
      (o.stream i).codecId = .other

def Interleaver.deltaDts (o : MuxOptions) (s : Interleaver) (topDts : Int) : Int :=
  (List.range o.nbStreams).foldl (fun delta i =>
    match s.lastInPacketBuffer i with
    | none => delta
    | some last =>
        if (o.stream i).codecType = .subtitle then delta
        else
          let lastDts :=
            avRescaleQ (tsValue (s.list.heap last).item.dts) (o.stream i).timeBase avTimeBaseQ
          max delta (lastDts - topDts)) int64Min

def Interleaver.forcesOutput (o : MuxOptions) (s : Interleaver) : Bool :=
  match s.list.head with
  | none => false
  | some p =>
      let top := (s.list.heap p).item
      o.maxInterleaveDelta > 0 && tsValue top.dts != avNoptsValue &&
        o.nbInterleavedStreams == s.streamCount o + s.noninterleavedCount o &&
        s.deltaDts o (o.toTimeBaseQ top) > o.maxInterleaveDelta

def Interleaver.setShortestEnd (o : MuxOptions) (s : Interleaver) (eof : Bool) : Interleaver :=
  match s.list.head with
  | none => s
  | some p =>
      if eof ∧ o.shortest ∧ s.shortestEnd = avNoptsValue then
        { s with shortestEnd := o.toTimeBaseQ (s.list.heap p).item }
      else s

def discardLoop (o : MuxOptions) : Nat → Interleaver → Option (List AVPacket × Interleaver)
  | 0, _ => none
  | rounds + 1, s =>
      match s.popHead with
      | none => some ([], s)
      | some (top, s') =>
          if s.shortestEnd + 1 ≥ o.toTimeBaseQ top then some ([], s)
          else (discardLoop o rounds s').map fun r => (top :: r.1, r.2)

/-- What ff_interleave_packet_per_dts returns, the packet that it takes out, and
those that it discards. -/
structure PerDts where
  ret : Int
  pkt : Option AVPacket
  discarded : List AVPacket
  state : Interleaver

def takePacket (o : MuxOptions) (s : Interleaver) (flush : Bool) : Option PerDts :=
  let streamCount := s.streamCount o
  let force := flush || o.nbInterleavedStreams == streamCount || s.forcesOutput o
  let s := s.setShortestEnd o flush
  let discarded :=
    if s.shortestEnd ≠ avNoptsValue then discardLoop o (s.fresh + 1) s else some ([], s)
  discarded.bind fun r =>
    if streamCount ≠ 0 ∧ force ∧ r.1 = [] then
      r.2.popHead.map fun top => ⟨1, some top.1, r.1, top.2⟩
    else some ⟨0, none, r.1, r.2⟩

/-- `pkt` is there when the caller has a packet. -/
def ffInterleavePacketPerDts (o : MuxOptions) (s : Interleaver) (pkt : Option AVPacket)
    (flush : Bool) (memory : AddMemory) : Option PerDts :=
  match pkt with
  | none => takePacket o s flush
  | some pkt =>
      (ffInterleaveAddPacket s pkt (interleaveCompareDts o) memory).bind fun added =>
        if added.1 < 0 then some ⟨added.1, none, [], added.2⟩ else takePacket o added.2 flush

/-- The packets that were added, those that have left the buffer, each with
whether it was returned, and whether a call has asked for a flush. -/
structure InterleaveHistory where
  added : List AVPacket
  left : List (AVPacket × Bool)
  flushed : Bool

inductive InterleaveLabel
  | add (pkt : AVPacket) (memory : AddMemory)
  | take (pkt : Option AVPacket) (flush : Bool) (memory : AddMemory)

def InterleaveLabel.pkt : InterleaveLabel → Option AVPacket
  | .add pkt _ => some pkt
  | .take pkt _ _ => pkt

def mayAdd (o : MuxOptions) (h : InterleaveHistory) (pkt : AVPacket) : Bool :=
  0 ≤ pkt.streamIndex && pkt.streamIndex.toNat < o.nbStreams &&
    int64Min ≤ tsValue pkt.dts && tsValue pkt.dts ≤ int64Max &&
    h.added.all fun p => p.streamIndex != pkt.streamIndex || tsValue p.dts ≤ tsValue pkt.dts

def InterleaveLabel.call (o : MuxOptions) (s : Interleaver) : InterleaveLabel → Option PerDts
  | .add pkt memory =>
      (ffInterleaveAddPacket s pkt (interleaveCompareDts o) memory).map fun added =>
        ⟨added.1, none, [], added.2⟩
  | .take pkt flush memory => ffInterleavePacketPerDts o s pkt flush memory

def InterleaveHistory.after (h : InterleaveHistory) (l : InterleaveLabel) (r : PerDts) :
    InterleaveHistory where
  added := if r.ret < 0 then h.added else h.added ++ l.pkt.toList
  left := h.left ++ r.discarded.map (·, false) ++ r.pkt.toList.map (·, true)
  flushed := h.flushed || match l with | .add _ _ => false | .take _ flush _ => flush

def interleaving (o : MuxOptions) :
    Transition.System (Interleaver × InterleaveHistory) InterleaveLabel where
  init s := s = (.empty, ⟨[], [], false⟩)
  next s l :=
    if l.pkt.all (mayAdd o s.2) then (l.call o s.1).map fun r => (r.state, s.2.after l r) else none

open Output (AVMediaType AVCodecID tsValue)

section Rescale

theorem avCompareTs_swap {tsA tsB : Int} {tbA tbB : AVRational} :
    (0 < avCompareTs tsA tbA tsB tbB → avCompareTs tsB tbB tsA tbA < 0) ∧
      (avCompareTs tsA tbA tsB tbB = 0 → avCompareTs tsB tbB tsA tbA = 0) := by
  simp only [avCompareTs]
  by_cases hsmall : (tsA.natAbs : Int) ≤ int32Max ∧ tbA.num * tbB.den ≤ int32Max ∧
      (tsB.natAbs : Int) ≤ int32Max ∧ tbB.num * tbA.den ≤ int32Max
  · have hsmall' : (tsB.natAbs : Int) ≤ int32Max ∧ tbB.num * tbA.den ≤ int32Max ∧
        (tsA.natAbs : Int) ≤ int32Max ∧ tbA.num * tbB.den ≤ int32Max :=
      ⟨hsmall.2.2.1, hsmall.2.2.2, hsmall.1, hsmall.2.1⟩
    simp only [if_pos hsmall, if_pos hsmall']
    constructor <;> split <;> split <;> omega
  · have hsmall' : ¬ ((tsB.natAbs : Int) ≤ int32Max ∧ tbB.num * tbA.den ≤ int32Max ∧
        (tsA.natAbs : Int) ≤ int32Max ∧ tbA.num * tbB.den ≤ int32Max) := fun h =>
      hsmall ⟨h.2.2.1, h.2.2.2, h.1, h.2.1⟩
    simp only [if_neg hsmall, if_neg hsmall']
    constructor <;> split <;> split <;> simp_all

theorem avRescale_near {a b c : Int} (hb : 0 ≤ b) (hc : 0 < c) (hmin : -int64Max ≤ a)
    (hrange : avRescale a b c ≠ int64Min) :
    2 * (avRescale a b c * c - a * b) ≤ c ∧ -c ≤ 2 * (avRescale a b c * c - a * b) := by
  have hgood : ¬ (c ≤ 0 ∨ b < 0) := by omega
  have hmax : max a (-int64Max) = a := max_eq_left hmin
  simp only [avRescale, if_neg hgood, hmax] at hrange ⊢
  have hbelow := Int.ediv_mul_le ((a.natAbs : Int) * b + c / 2) (ne_of_gt hc)
  have habove := Int.lt_ediv_add_one_mul_self ((a.natAbs : Int) * b + c / 2) hc
  generalize hq : ((a.natAbs : Int) * b + c / 2) / c = q at *
  split at hrange
  · exact absurd rfl hrange
  · next hfits =>
      rw [if_neg hfits]
      have hexpand : (q + 1) * c = q * c + c := by ring
      by_cases hneg : a < 0
      · have habs : (a.natAbs : Int) = -a := Int.ofNat_natAbs_of_nonpos hneg.le
        have hmul : -a * b = -(a * b) := by ring
        have hmul' : -q * c = -(q * c) := by ring
        rw [habs] at hbelow habove
        rw [if_pos hneg]
        omega
      · have habs : (a.natAbs : Int) = a := Int.natAbs_of_nonneg (not_lt.mp hneg)
        rw [habs] at hbelow habove
        rw [if_neg hneg]
        omega

end Rescale

section Compare

variable {o : MuxOptions} {a b : AVPacket}

def Told (o : MuxOptions) (pkt : AVPacket) : Prop :=
  -int64Max ≤ tsValue pkt.dts ∧ o.toTimeBaseQ pkt ≠ int64Min

theorem difference_small {den den2 n n2 d d2 r r2 p p2 : Int} (hden : 0 < den) (hden2 : 0 < den2)
    (hnear : 2 * (r * den - d * n) ≤ den ∧ -den ≤ 2 * (r * den - d * n))
    (hnear2 : 2 * (r2 * den2 - d2 * n2) ≤ den2 ∧ -den2 ≤ 2 * (r2 * den2 - d2 * n2)) (heq : r - p = r2 - p2) :
    (d * n - p * den) * den2 - (d2 * n2 - p2 * den2) * den ≤ den * den2 ∧
      -(den * den2) ≤ (d * n - p * den) * den2 - (d2 * n2 - p2 * den2) * den := by
  have hr2 : r2 = r - p + p2 := by omega
  subst hr2
  have h1 := mul_le_mul_of_nonneg_right hnear.1 hden2.le
  have h2 := mul_le_mul_of_nonneg_right hnear.2 hden2.le
  have h3 := mul_le_mul_of_nonneg_right hnear2.1 hden.le
  have h4 := mul_le_mul_of_nonneg_right hnear2.2 hden.le
  constructor <;> nlinarith

def preloadOf (o : MuxOptions) (pkt : AVPacket) : Int :=
  if (o.streamOf pkt).codecType = .audio then o.audioPreload else 0

def exactOf (o : MuxOptions) (pkt : AVPacket) : Int :=
  tsValue pkt.dts * (o.streamOf pkt).timeBase.num * 1000000 -
    preloadOf o pkt * (o.streamOf pkt).timeBase.den

theorem toTimeBaseQ_near (h : Told o a) : 2 * (o.toTimeBaseQ a * (o.streamOf a).timeBase.den -
        tsValue a.dts * ((o.streamOf a).timeBase.num * 1000000)) ≤ (o.streamOf a).timeBase.den ∧
      -(o.streamOf a).timeBase.den ≤ 2 * (o.toTimeBaseQ a * (o.streamOf a).timeBase.den -
        tsValue a.dts * ((o.streamOf a).timeBase.num * 1000000)) := by
  obtain ⟨hnum, hden⟩ := (o.streamOf a).positive
  obtain ⟨hmin, hrange⟩ := h
  have hnear := @avRescale_near (tsValue a.dts) ((o.streamOf a).timeBase.num * 1000000)
    (1 * (o.streamOf a).timeBase.den) (by omega) (by omega) hmin hrange
  rw [Int.one_mul] at hnear
  rw [MuxOptions.toTimeBaseQ, avRescaleQ]
  simp only [avTimeBaseQ, Int.one_mul]
  exact hnear

theorem difference_exact (ha : Told o a) (hb : Told o b)
    (heq : o.toTimeBaseQ b - preloadOf o b = o.toTimeBaseQ a - preloadOf o a) :
    Int.bmod (exactOf o b * (o.streamOf a).timeBase.den - exactOf o a * (o.streamOf b).timeBase.den)
        18446744073709551616 =
      exactOf o b * (o.streamOf a).timeBase.den - exactOf o a * (o.streamOf b).timeBase.den := by
  have hdenA := (o.streamOf a).positive.2
  have hdenB := (o.streamOf b).positive.2
  obtain ⟨hupper, hlower⟩ := difference_small hdenB hdenA (toTimeBaseQ_near hb) (toTimeBaseQ_near ha) heq
  have hprod : (o.streamOf b).timeBase.den * (o.streamOf a).timeBase.den ≤ int32Max * int32Max :=
    mul_le_mul (o.streamOf b).isInt (o.streamOf a).isInt hdenA.le (by decide)
  have hint : int32Max * int32Max = 4611686014132420609 := rfl
  rw [← mul_assoc, ← mul_assoc] at hupper hlower
  apply Int.bmod_eq_of_le_mul_two
  · simp only [exactOf]
    omega
  · simp only [exactOf]
    omega

theorem preloadedComp_eq (o : MuxOptions) (next pkt : AVPacket) : o.preloadedComp next pkt =
    if o.toTimeBaseQ pkt - preloadOf o pkt = o.toTimeBaseQ next - preloadOf o next then
      let ts := Int.bmod (exactOf o pkt * (o.streamOf next).timeBase.den -
        exactOf o next * (o.streamOf pkt).timeBase.den) 18446744073709551616
      (if 0 > ts then 1 else 0) - (if 0 < ts then 1 else 0)
    else
      (if o.toTimeBaseQ next - preloadOf o next > o.toTimeBaseQ pkt - preloadOf o pkt then 1 else 0) -
        (if o.toTimeBaseQ next - preloadOf o next < o.toTimeBaseQ pkt - preloadOf o pkt then 1 else 0) :=
  rfl

theorem preloadedComp_swap (ha : Told o a) (hb : Told o b) : o.preloadedComp b a = -o.preloadedComp a b := by
  rw [preloadedComp_eq, preloadedComp_eq]
  by_cases heq : o.toTimeBaseQ b - preloadOf o b = o.toTimeBaseQ a - preloadOf o a
  · rw [if_pos heq, if_pos heq.symm]
    simp only [difference_exact ha hb heq, difference_exact hb ha heq.symm]
    split <;> split <;> split <;> split <;> omega
  · rw [if_neg heq, if_neg fun h => heq h.symm]
    split <;> split <;> omega

theorem interleaveCompareDts_asymm (htold : o.audioPreload = 0 ∨ Told o a ∧ Told o b)
    (h : interleaveCompareDts o a b = true) : interleaveCompareDts o b a = false := by
  have hswap : (0 < o.compDts a b → o.compDts b a < 0) ∧ (o.compDts a b = 0 → o.compDts b a = 0) := by
    simp only [MuxOptions.compDts]
    by_cases hpreload : o.audioPreload ≠ 0 ∧
        decide ((o.streamOf b).codecType = .audio) ≠ decide ((o.streamOf a).codecType = .audio)
    · obtain ⟨ha, hb⟩ := htold.resolve_left hpreload.1
      have hneg := preloadedComp_swap ha hb
      rw [if_pos hpreload, if_pos ⟨hpreload.1, hpreload.2.symm⟩, hneg]
      omega
    · rw [if_neg hpreload, if_neg fun hand => hpreload ⟨hand.1, hand.2.symm⟩]
      exact avCompareTs_swap
  simp only [interleaveCompareDts] at h ⊢
  by_cases hzero : o.compDts a b = 0
  · rw [if_pos hzero] at h
    rw [if_pos (hswap.2 hzero)]
    simp only [decide_eq_true_eq, decide_eq_false_iff_not] at h ⊢
    omega
  · rw [if_neg hzero] at h
    have hpos : 0 < o.compDts a b := by simpa using h
    have hneg := hswap.1 hpos
    rw [if_neg (by omega)]
    simp only [decide_eq_false_iff_not]
    omega

theorem le_avRescaleDown_self {n c : Int} (hc : 0 < c) (hn : n ≤ int64Max) : n ≤ avRescaleDown n c c := by
  have hgood : ¬ (c ≤ 0 ∨ c < 0) := by omega
  have hcap : ((max n (-int64Max)).natAbs : Int) ≤ int64Max := by
    rcases max_cases n (-int64Max) with ⟨hmax, hle⟩ | ⟨hmax, hlt⟩
    · rw [hmax]
      omega
    · rw [hmax]
      decide
  simp only [avRescaleDown, if_neg hgood]
  by_cases hneg : n < 0
  · have hround : (((max n (-int64Max)).natAbs : Int) * c + (c - 1)) / c =
        ((max n (-int64Max)).natAbs : Int) := by
      rw [Int.mul_comm, Int.add_comm, Int.add_mul_ediv_left _ _ hc.ne', Int.ediv_eq_zero_of_lt (by omega)
        (by omega), Int.zero_add]
    rw [if_pos hneg, hround, if_neg (not_lt.mpr hcap), if_pos hneg]
    have hle := le_max_left n (-int64Max)
    have hneg' : max n (-int64Max) < 0 := max_lt hneg (by decide)
    omega
  · have hmax : max n (-int64Max) = n := max_eq_left (le_trans (by decide) (not_lt.mp hneg))
    rw [hmax] at hcap ⊢
    rw [if_neg hneg, Int.mul_ediv_cancel _ hc.ne', if_neg (not_lt.mpr hcap), if_neg hneg]
    omega

theorem avCompareTs_same {tsA tsB : Int} {tb : AVRational} (htb : tb.Positive) (hmax : tsB ≤ int64Max)
    (hle : tsA ≤ tsB) : avCompareTs tsA tb tsB tb ≤ 0 := by
  have hpos : 0 < tb.num * tb.den := mul_pos htb.1 htb.2
  simp only [avCompareTs]
  split
  · have hmul := mul_le_mul_of_nonneg_right hle hpos.le
    split <;> split <;> omega
  · have hself := le_avRescaleDown_self hpos hmax
    split
    · decide
    · rw [if_neg (by omega)]

theorem interleaveCompareDts_same (hsame : a.streamIndex = b.streamIndex)
    (hmax : tsValue b.dts ≤ int64Max) (hle : tsValue a.dts ≤ tsValue b.dts) :
    interleaveCompareDts o a b = false := by
  have hstream : o.streamOf a = o.streamOf b := by rw [MuxOptions.streamOf, hsame, MuxOptions.streamOf]
  have hcomp : o.compDts a b ≤ 0 := by
    simp only [MuxOptions.compDts, hstream, ne_eq, not_true, and_false, if_false]
    exact avCompareTs_same (o.streamOf b).positive hmax hle
  simp only [interleaveCompareDts, hsame]
  split
  · simp
  · simpa using hcomp

end Compare

end P2PFFmpeg.Mux
