import P2PFFmpeg.Util.Error
import Mathlib.Data.List.Basic
import Mathlib.Algebra.Order.Field.Rat
import Mathlib.Algebra.Order.Ring.Int
import Mathlib.Data.Int.Cast.Lemmas
import Mathlib.Algebra.Order.Ring.Cast
import Mathlib.Tactic.Ring

namespace P2PFFmpeg.Util

def byteAt (buf : List UInt8) (i : Nat) : UInt8 := buf.getD i 0

theorem byteAt_drop (buf : List UInt8) (n i : Nat) : byteAt (buf.drop n) i = byteAt buf (n + i) := by
  rw [byteAt, byteAt, List.getD_eq_getElem?_getD, List.getD_eq_getElem?_getD, List.getElem?_drop]

def avRb16 (buf : List UInt8) (i : Nat) : UInt16 :=
  (byteAt buf i).toUInt16 * 256 + (byteAt buf (i + 1)).toUInt16

def avRb32 (buf : List UInt8) (i : Nat) : UInt32 :=
  (avRb16 buf i).toUInt32 * 65536 + (avRb16 buf (i + 2)).toUInt32

def avRb64 (buf : List UInt8) (i : Nat) : UInt64 :=
  (avRb32 buf i).toUInt64 * 4294967296 + (avRb32 buf (i + 4)).toUInt64

structure AVRational where
  num : Int
  den : Int
deriving DecidableEq, Repr

/-- `a * b / c` rounded to the nearest integer, halves away from zero; the
smallest number stands for a result out of range or a bad argument. -/
def avRescale (a b c : Int) : Int :=
  if c ≤ 0 ∨ b < 0 then int64Min
  else
    let nearest := ((max a (-int64Max)).natAbs * b + c / 2) / c
    if nearest > int64Max then int64Min
    else if a < 0 then -nearest
    else nearest

def avRescaleQ (a : Int) (bq cq : AVRational) : Int :=
  avRescale a (bq.num * cq.den) (cq.num * bq.den)

def avTimeBaseQ : AVRational := ⟨1, 1000000⟩

/-- A packet; `none` is `AV_NOPTS_VALUE`, and the two flags are
`AV_PKT_FLAG_KEY` and `AV_PKT_FLAG_CORRUPT`. -/
structure AVPacket where
  pts : Option Int
  dts : Option Int
  data : List UInt8
  streamIndex : Int
  key : Bool
  corrupt : Bool
  duration : Int
deriving DecidableEq, Repr

/-- What `av_init_packet` and `av_packet_unref` leave in a packet. -/
def AVPacket.blank : AVPacket where
  pts := none
  dts := none
  data := []
  streamIndex := 0
  key := false
  corrupt := false
  duration := 0

def avPacketRescaleTs (pkt : AVPacket) (src dst : AVRational) : AVPacket :=
  { pkt with
    pts := pkt.pts.map fun t => avRescaleQ t src dst
    dts := pkt.dts.map fun t => avRescaleQ t src dst
    duration := if pkt.duration > 0 then avRescaleQ pkt.duration src dst else pkt.duration }

/-- `AV_NOPTS_VALUE`. -/
def avNoptsValue : Int := int64Min

/-- av_rescale_rnd with `AV_ROUND_DOWN`: `a * b / c` rounded towards minus
infinity; the smallest number stands for a result out of range. -/
def avRescaleDown (a b c : Int) : Int :=
  if c ≤ 0 ∨ b < 0 then int64Min
  else
    let magnitude := (max a (-int64Max)).natAbs
    let rounded := if a < 0 then (magnitude * b + (c - 1)) / c else magnitude * b / c
    if rounded > int64Max then int64Min
    else if a < 0 then -rounded
    else rounded

def avCompareTs (tsA : Int) (tbA : AVRational) (tsB : Int) (tbB : AVRational) : Int :=
  let a := tbA.num * tbB.den
  let b := tbB.num * tbA.den
  if (tsA.natAbs : Int) ≤ int32Max ∧ a ≤ int32Max ∧ (tsB.natAbs : Int) ≤ int32Max ∧ b ≤ int32Max then
    (if tsA * a > tsB * b then 1 else 0) - (if tsA * a < tsB * b then 1 else 0)
  else if avRescaleDown tsA a b < tsB then -1
  else if avRescaleDown tsB b a < tsA then 1
  else 0

def AVRational.Positive (tb : AVRational) : Prop := 0 < tb.num ∧ 0 < tb.den

/-- The time of a timestamp. -/
def timeOf (ts : Int) (tb : AVRational) : ℚ := ts * tb.num / tb.den

/-- A timestamp can be told in another time base. -/
def Fits (ts : Int) (tb tb' : AVRational) : Prop :=
  (ts.natAbs : Int) * (tb.num * tb'.den) ≤ int64Max * (tb'.num * tb.den)

instance (ts : Int) (tb tb' : AVRational) : Decidable (Fits ts tb tb') :=
  inferInstanceAs (Decidable (_ ≤ _))

section Exact

variable {tsA tsB : Int} {tbA tbB : AVRational}

theorem timeOf_lt (ha : tbA.Positive) (hb : tbB.Positive) :
    timeOf tsA tbA < timeOf tsB tbB ↔ tsA * (tbA.num * tbB.den) < tsB * (tbB.num * tbA.den) := by
  have hda : (0 : ℚ) < tbA.den := Int.cast_pos.mpr ha.2
  have hdb : (0 : ℚ) < tbB.den := Int.cast_pos.mpr hb.2
  rw [timeOf, timeOf, div_lt_div_iff₀ hda hdb, ← @Int.cast_lt ℚ]
  push_cast
  rw [mul_assoc, mul_assoc]

/-- Rounding down does not change a comparison with an integer, when the result
is in range. -/
theorem avRescaleDown_lt {a b c n : Int} (hb : 0 ≤ b) (hc : 0 < c)
    (hfits : (a.natAbs : Int) * b ≤ int64Max * c) (hmin : -int64Max ≤ a) :
    avRescaleDown a b c < n ↔ a * b < n * c := by
  have hmax : max a (-int64Max) = a := max_eq_left hmin
  have hgood : ¬ (c ≤ 0 ∨ b < 0) := by omega
  simp only [avRescaleDown, hmax]
  rw [if_neg hgood]
  by_cases hneg : a < 0
  · have habs : (a.natAbs : Int) = -a := Int.ofNat_natAbs_of_nonpos hneg.le
    rw [habs] at hfits ⊢
    have hround : (-a * b + (c - 1)) / c ≤ int64Max := by
      apply Int.lt_add_one_iff.mp
      rw [Int.ediv_lt_iff_lt_mul hc]
      have hexpand : (int64Max + 1) * c = int64Max * c + c := by ring
      omega
    simp only [if_pos hneg]
    rw [if_neg (not_lt.mpr hround), neg_lt, Int.lt_iff_add_one_le, Int.le_ediv_iff_mul_le hc]
    have hexpand : (-n + 1) * c = -(n * c) + c := by ring
    have hneg' : -a * b = -(a * b) := by ring
    omega
  · have habs : (a.natAbs : Int) = a := Int.natAbs_of_nonneg (not_lt.mp hneg)
    rw [habs] at hfits ⊢
    have hround : a * b / c ≤ int64Max := Int.ediv_le_of_le_mul hc hfits
    simp only [if_neg hneg]
    rw [if_neg (not_lt.mpr hround), Int.ediv_lt_iff_lt_mul hc]

/-- The comparison is exact for timestamps that can be told in each other's time
bases. -/
theorem avCompareTs_exact (ha : tbA.Positive) (hb : tbB.Positive)
    (hfitsA : Fits tsA tbA tbB) (hfitsB : Fits tsB tbB tbA) (hminA : -int64Max ≤ tsA)
    (hminB : -int64Max ≤ tsB) : (avCompareTs tsA tbA tsB tbB < 0 ↔ timeOf tsA tbA < timeOf tsB tbB) ∧
      (avCompareTs tsA tbA tsB tbB ≤ 0 ↔ timeOf tsA tbA ≤ timeOf tsB tbB) := by
  have hposA : 0 < tbA.num * tbB.den := mul_pos ha.1 hb.2
  have hposB : 0 < tbB.num * tbA.den := mul_pos hb.1 ha.2
  rw [timeOf_lt ha hb, ← @not_lt ℚ, timeOf_lt hb ha]
  simp only [avCompareTs]
  split
  · split <;> split <;> omega
  · have hltA := @avRescaleDown_lt tsA _ _ tsB hposA.le hposB hfitsA hminA
    have hltB := @avRescaleDown_lt tsB _ _ tsA hposB.le hposA hfitsB hminB
    rw [← hltA, ← hltB]
    split
    · next hbefore =>
        have hnot := hltA.mp hbefore
        have hafter : ¬ avRescaleDown tsB (tbB.num * tbA.den) (tbA.num * tbB.den) < tsA := by
          rw [hltB]
          omega
        simp [hbefore, hafter]
    · split <;> simp_all

end Exact

end P2PFFmpeg.Util
