import P2PFFmpeg.Payload.Packetizer
import P2PFFmpeg.Rtp.Headers
import P2PFFmpeg.Util.Error

/-!
The handler of aggregation packets with every read, every write and every sum
checked.
-/

namespace P2PFFmpeg.Payload

open Util
open Rtp (readU8 readRb16 readRange readRb16_eq readRange_eq readU8_eq)

/-- A sum of two ints; nothing when it overflows. -/
def intSum (x y : Int) : Option Int := if x + y ≤ int32Max then some (x + y) else none

def storedInt (x : Int) : Int := x.bmod 4294967296

theorem storedInt_add (x y : Int) : storedInt (storedInt x + y) = storedInt (x + y) :=
  @Int.bmod_add_bmod x 4294967296 y

/-- `av_new_packet`, with the padding of 64 bytes, and whether there is memory. -/
def avNewPacket (memory : Bool) (size : Int) : Except Int AVPacket :=
  if size < 0 ∨ size ≥ int32Max - 64 then .error averrorEinval
  else if memory = false then .error averrorEnomem
  else .ok { AVPacket.blank with data := List.replicate size.toNat 0 }

/-- What goes from one unit to the next; the bytes written are the ones up to `dst`. -/
structure Aggregate where
  totalLength : Int
  dst : List UInt8
  nalCounters : Option (Nat → Int)

def countNal (counters : Nat → Int) (k : Nat) : Nat → Int :=
  fun i => if i = k then counters i + 1 else counters i

/-- A unit is counted, or copied; nothing for a read or a write outside. -/
def takeUnit (pass : Nat) (buf : List UInt8) (nalMask : UInt32) (src : Int) (nalSize : Nat)
    (st : Aggregate) : Option Aggregate :=
  if pass = 0 then
    some { st with totalLength := storedInt (st.totalLength + (4 + nalSize)) }
  else if st.dst.length + (4 + nalSize : Int) > st.totalLength then none
  else do
    let unit ← readRange buf src nalSize
    let nalCounters ← match st.nalCounters with
      | none => some none
      | some counters =>
          (readU8 buf src).map fun b => some (countNal counters (b.toUInt32 &&& nalMask).toNat)
    some { st with dst := st.dst ++ startSequence ++ unit, nalCounters := nalCounters }

def aggregatePass (pass : Nat) (buf : List UInt8) (skipBetween : Int) (nalMask : UInt32) :
    Nat → Int → Int → Aggregate → Option (Int × Aggregate)
  | 0, _, _, _ => none
  | rounds + 1, src, srcLen, st =>
      if srcLen > 2 then do
        let nalSize := (← readRb16 buf src).toNat
        let src := src + 2
        let srcLen := srcLen - 2
        if nalSize ≤ srcLen then do
          let st ← takeUnit pass buf nalMask src nalSize st
          let handled ← intSum nalSize skipBetween
          aggregatePass pass buf skipBetween nalMask rounds (src + handled) (srcLen - handled) st
        else some (averrorInvaliddata, st)
      else some (0, st)

def copyAggregated (memory : Bool) (pkt : AVPacket) (buf : List UInt8) (len : Int)
    (skipBetween : Int) (nalMask : UInt32) (first : Int × Aggregate) :
    Option (Int × AVPacket × Option (Nat → Int)) :=
  if first.1 < 0 then some (first.1, pkt, first.2.nalCounters)
  else match avNewPacket memory first.2.totalLength with
    | .error ret => some (ret, pkt, first.2.nalCounters)
    | .ok pkt =>
        (aggregatePass 1 buf skipBetween nalMask (len.toNat + 1) 0 len first.2).map fun second =>
          (second.1, { pkt with data := second.2.dst ++ pkt.data.drop second.2.dst.length },
            second.2.nalCounters)

/-- The returned value, the packet and the counters; nothing for a read outside of
the input, a write outside of the packet or an overflow. -/
def handleAggregatedChecked (memory : Bool) (pkt : AVPacket) (buf : List UInt8) (len : Int)
    (skipBetween : Int) (nalCounters : Option (Nat → Int)) (nalMask : UInt32) :
    Option (Int × AVPacket × Option (Nat → Int)) :=
  (aggregatePass 0 buf skipBetween nalMask (len.toNat + 1) 0 len ⟨0, [], nalCounters⟩).bind
    (copyAggregated memory pkt buf len skipBetween nalMask)

section Passes

variable {skip rounds o : Nat} {buf : List UInt8} {srcLen : Int} {mask : UInt32} {st : Aggregate}
  {us : List (List UInt8)}

theorem aggregatedUnits_end (h : buf.length ≤ o + 2) : aggregatedUnits skip (buf.drop o) = some [] := by
  rw [aggregatedUnits, dif_neg (by rw [List.length_drop]; omega)]

theorem aggregatedUnits_step (hlong : o + 2 < buf.length) {n : Nat} (hn : (avRb16 buf o).toNat = n) :
    aggregatedUnits skip (buf.drop o) =
      if o + 2 + n ≤ buf.length then
        (aggregatedUnits skip (buf.drop (o + 2 + (n + skip)))).map ((buf.drop (o + 2)).take n :: ·)
      else none := by
  rw [aggregatedUnits, dif_pos (by rw [List.length_drop]; omega)]
  simp only [Rtp.avRb16_drop, Nat.add_zero, hn, List.drop_drop, List.length_drop]
  by_cases hfits : o + 2 + n ≤ buf.length
  · rw [if_pos hfits, if_pos (by omega)]
  · rw [if_neg hfits, if_neg (by omega)]

theorem length_receivedUnits_cons (u : List UInt8) :
    (receivedUnits (u :: us)).length = 4 + u.length + (receivedUnits us).length := by
  rw [receivedUnits_cons, List.length_append, List.length_append]
  rfl

theorem length_receivedUnits_le (hrounds : buf.length - o < rounds)
    (h : aggregatedUnits skip (buf.drop o) = some us) : (receivedUnits us).length ≤ 2 * (buf.length - o) := by
  induction rounds generalizing o us with
  | zero => omega
  | succ rounds ih =>
      by_cases hlong : o + 2 < buf.length
      · rw [aggregatedUnits_step hlong rfl] at h
        split at h
        · next hfits =>
            obtain ⟨vs, hvs, rfl⟩ := Option.map_eq_some_iff.mp h
            have hrest := ih (by omega) hvs
            rw [length_receivedUnits_cons, List.length_take, List.length_drop]
            omega
        · cases h
      · rw [aggregatedUnits_end (by omega)] at h
        obtain rfl := Option.some.inj h
        exact Nat.zero_le _

/-- The first pass counts the bytes of the output, or finds the unit that is too
long. -/
theorem aggregatePass_count (hskip : (skip : Int) + 65535 ≤ int32Max)
    (hrounds : buf.length - o < rounds) (hsrcLen : srcLen = (buf.length : Int) - o) (total : Nat)
    (counters : Option (Nat → Int)) :
    match aggregatedUnits skip (buf.drop o) with
    | none => ∃ st', aggregatePass 0 buf skip mask rounds o srcLen
        ⟨storedInt total, [], counters⟩ = some (averrorInvaliddata, st') ∧
        st'.nalCounters = counters
    | some us => aggregatePass 0 buf skip mask rounds o srcLen
        ⟨storedInt total, [], counters⟩ =
          some (0, ⟨storedInt (total + (receivedUnits us).length : Nat), [], counters⟩) := by
  induction rounds generalizing o srcLen total with
  | zero => omega
  | succ rounds ih =>
      by_cases hlong : o + 2 < buf.length
      · obtain ⟨n, hn⟩ : ∃ n, (avRb16 buf o).toNat = n := ⟨_, rfl⟩
        have hsmall : n ≤ 65535 := by
          have hlt := (avRb16 buf o).toNat_lt
          omega
        have hread : readRb16 buf (o : Int) = some (avRb16 buf o) := readRb16_eq rfl (by omega)
        rw [aggregatePass, if_pos (by omega), aggregatedUnits_step hlong hn]
        simp only [hread, Option.bind_eq_bind, Option.bind_some, hn]
        by_cases hfits : o + 2 + n ≤ buf.length
        · have hsum : intSum n skip = some ((n + skip : Nat) : Int) := by
            rw [intSum, if_pos (by omega), Nat.cast_add]
          have hstep := @ih (o + 2 + (n + skip)) (srcLen - 2 - ((n + skip : Nat) : Int)) (by omega)
            (by omega) (total + (4 + n))
          rw [if_pos hfits, if_pos (by omega)]
          have hsrc : (o : Int) + 2 + ((n + skip : Nat) : Int) = ((o + 2 + (n + skip) : Nat) : Int) := by
            omega
          have htotal : (total : Int) + (4 + (n : Int)) = ((total + (4 + n) : Nat) : Int) := by
            omega
          have htake : takeUnit 0 buf mask ((o : Int) + 2) n
              ⟨storedInt total, [], counters⟩ =
                some ⟨storedInt (total + (4 + n) : Nat), [], counters⟩ := by
            rw [takeUnit, if_pos rfl, storedInt_add, htotal]
          simp only [htake, hsum, Option.bind_some, hsrc]
          cases hunits : aggregatedUnits skip (buf.drop (o + 2 + (n + skip))) with
          | none =>
              rw [hunits] at hstep
              exact hstep
          | some us =>
              rw [hunits] at hstep
              dsimp only [Option.map_some]
              rw [hstep, length_receivedUnits_cons, List.length_take, List.length_drop]
              congr 5
              omega
        · rw [if_neg hfits, if_neg (by omega)]
          exact ⟨_, rfl, rfl⟩
      · rw [aggregatedUnits_end (by omega), aggregatePass, if_neg (by omega)]
        rfl

theorem aggregatePass_copy (hskip : (skip : Int) + 65535 ≤ int32Max)
    (hrounds : buf.length - o < rounds) (hsrcLen : srcLen = (buf.length : Int) - o)
    (hunits : aggregatedUnits skip (buf.drop o) = some us)
    (hroom : (st.dst.length + (receivedUnits us).length : Nat) ≤ st.totalLength) :
    ∃ counters, aggregatePass 1 buf skip mask rounds o srcLen st =
      some (0, ⟨st.totalLength, st.dst ++ receivedUnits us, counters⟩) := by
  induction rounds generalizing o srcLen st us with
  | zero => omega
  | succ rounds ih =>
      by_cases hlong : o + 2 < buf.length
      · obtain ⟨n, hn⟩ : ∃ n, (avRb16 buf o).toNat = n := ⟨_, rfl⟩
        have hsmall : n ≤ 65535 := by
          have hlt := (avRb16 buf o).toNat_lt
          omega
        rw [aggregatedUnits_step hlong hn] at hunits
        split at hunits
        · next hfits =>
            obtain ⟨vs, hvs, rfl⟩ := Option.map_eq_some_iff.mp hunits
            have hunit : ((buf.drop (o + 2)).take n).length = n := by
              rw [List.length_take, List.length_drop]
              omega
            rw [length_receivedUnits_cons, hunit] at hroom
            have hsum : intSum n skip = some ((n + skip : Nat) : Int) := by
              rw [intSum, if_pos (by omega), Nat.cast_add]
            have hsrc : (o : Int) + 2 = ((o + 2 : Nat) : Int) := by omega
            have hsrc' : (((o + 2 : Nat) : Int)) + ((n + skip : Nat) : Int) =
                ((o + 2 + (n + skip) : Nat) : Int) := by omega
            have htake : ∃ counters, takeUnit 1 buf mask ((o + 2 : Nat) : Int) n st =
                some ⟨st.totalLength, st.dst ++ startSequence ++ (buf.drop (o + 2)).take n, counters⟩ := by
              rw [takeUnit, if_neg (by decide), if_neg (by omega), readRange_eq (by omega)]
              cases st.nalCounters with
              | none => exact ⟨none, rfl⟩
              | some counters =>
                  -- the byte behind an empty unit is in the input as well
                  rw [readU8_eq rfl (by omega)]
                  exact ⟨_, rfl⟩
            obtain ⟨counters, htake⟩ := htake
            obtain ⟨counters', hrest⟩ := @ih (o + 2 + (n + skip))
              (srcLen - 2 - ((n + skip : Nat) : Int))
              ⟨st.totalLength, st.dst ++ startSequence ++ (buf.drop (o + 2)).take n, counters⟩ vs
              (by omega) (by omega) hvs (by
                simp only [List.length_append, hunit, startSequence, List.length_cons, List.length_nil]
                omega)
            refine ⟨counters', ?_⟩
            have hread : readRb16 buf (o : Int) = some (avRb16 buf o) := readRb16_eq rfl (by omega)
            rw [aggregatePass, if_pos (by omega)]
            simp only [hread, Option.bind_eq_bind, Option.bind_some, hn]
            rw [if_pos (by omega), hsrc, htake, Option.bind_some, hsum, Option.bind_some, hsrc', hrest]
            simp only [receivedUnits_cons, List.append_assoc]
        · cases hunits
      · rw [aggregatedUnits_end (by omega)] at hunits
        obtain rfl := Option.some.inj hunits
        rw [aggregatePass, if_neg (by omega)]
        exact ⟨st.nalCounters, by rw [receivedUnits_nil, List.append_nil]⟩

end Passes

section Handler

variable {memory : Bool} {pkt : AVPacket} {buf : List UInt8} {skip : Nat} {us : List (List UInt8)}

theorem storedInt_small {x : Int} (h : 0 ≤ x ∧ x ≤ int32Max) : storedInt x = x := by
  simp only [int32Max] at h
  exact Int.bmod_eq_of_le (by omega) (by omega)

/-- A size that does not fit into an int is refused as the negative number it
becomes. -/
theorem avNewPacket_stored {n : Nat} (hn : n < 4294967296) :
    avNewPacket memory (storedInt n) = avNewPacket memory n := by
  by_cases hfits : (n : Int) ≤ int32Max
  · rw [storedInt_small ⟨Int.natCast_nonneg n, hfits⟩]
  · simp only [int32Max] at hfits
    have hnegative : storedInt n < 0 := by
      rw [storedInt, Int.bmod_def, if_neg (by omega)]
      omega
    rw [avNewPacket, avNewPacket, if_pos (.inl hnegative), if_pos]
    simp only [int32Max]
    omega

theorem handleAggregated_bad (hskip : (skip : Int) + 65535 ≤ int32Max)
    (h : aggregatedUnits skip buf = none) (counters : Option (Nat → Int)) (mask : UInt32) :
    handleAggregatedChecked memory pkt buf buf.length skip counters mask =
      some (averrorInvaliddata, pkt, counters) := by
  have hcount := @aggregatePass_count skip (buf.length + 1) 0 buf buf.length mask hskip (by omega)
    (by omega) 0 counters
  rw [List.drop_zero, h] at hcount
  obtain ⟨st, hpass, hcounters⟩ := hcount
  have hpass' : aggregatePass 0 buf skip mask ((buf.length : Int).toNat + 1) 0 buf.length
      ⟨0, [], counters⟩ = some (averrorInvaliddata, st) := hpass
  rw [handleAggregatedChecked, hpass', Option.bind_some, copyAggregated,
    if_pos (by decide : averrorInvaliddata < 0), hcounters]

theorem aggregatePass_first (hskip : (skip : Int) + 65535 ≤ int32Max)
    (h : aggregatedUnits skip buf = some us) (counters : Option (Nat → Int)) (mask : UInt32) :
    aggregatePass 0 buf skip mask ((buf.length : Int).toNat + 1) 0 buf.length ⟨0, [], counters⟩ =
      some (0, ⟨storedInt (receivedUnits us).length, [], counters⟩) := by
  have hcount := @aggregatePass_count skip (buf.length + 1) 0 buf buf.length mask hskip (by omega)
    (by omega) 0 counters
  rw [List.drop_zero, h] at hcount
  have hzero : storedInt ((0 : Nat) : Int) = 0 := storedInt_small ⟨Int.le_refl _, by decide⟩
  simp only [Nat.zero_add] at hcount
  rw [hzero] at hcount
  rw [Int.toNat_natCast]
  exact hcount

theorem length_units_lt (hbuf : (buf.length : Int) ≤ int32Max)
    (h : aggregatedUnits skip buf = some us) : (receivedUnits us).length < 4294967296 := by
  have hlength := @length_receivedUnits_le skip (buf.length + 1) 0 buf us (by omega) h
  simp only [int32Max] at hbuf
  omega

section Copy

variable {len total : Int} {counters : Option (Nat → Int)} {mask : UInt32}

theorem copyAggregated_refused {ret : Int} (hnew : avNewPacket memory total = .error ret) :
    copyAggregated memory pkt buf len skip mask (0, ⟨total, [], counters⟩) =
      some (ret, pkt, counters) := by
  rw [copyAggregated, if_neg (lt_irrefl 0), hnew]

theorem copyAggregated_copied {new : AVPacket} {second : Int × Aggregate}
    (hnew : avNewPacket memory total = .ok new)
    (hsecond : aggregatePass 1 buf skip mask (len.toNat + 1) 0 len ⟨total, [], counters⟩ =
      some second) :
    copyAggregated memory pkt buf len skip mask (0, ⟨total, [], counters⟩) =
      some (second.1, { new with data := second.2.dst ++ new.data.drop second.2.dst.length },
        second.2.nalCounters) := by
  rw [copyAggregated, if_neg (lt_irrefl 0), hnew]
  dsimp only
  rw [hsecond, Option.map_some]

end Copy

theorem handleAggregated_refused (hbuf : (buf.length : Int) ≤ int32Max)
    (hskip : (skip : Int) + 65535 ≤ int32Max) (h : aggregatedUnits skip buf = some us) {ret : Int}
    (hrefused : avNewPacket memory (receivedUnits us).length = .error ret)
    (counters : Option (Nat → Int)) (mask : UInt32) :
    handleAggregatedChecked memory pkt buf buf.length skip counters mask =
      some (ret, pkt, counters) := by
  have hnew := (avNewPacket_stored (length_units_lt hbuf h)).trans hrefused
  rw [handleAggregatedChecked, aggregatePass_first hskip h, Option.bind_some,
    copyAggregated_refused hnew]

theorem avNewPacket_fits {n : Nat} (hn : (n : Int) < int32Max - 64) : avNewPacket true n =
    .ok { AVPacket.blank with data := List.replicate n 0 } := by
  rw [avNewPacket, if_neg (by omega), if_neg (by decide), Int.toNat_natCast]

theorem avNewPacket_error {n : Nat} (h : ¬(memory = true ∧ (n : Int) < int32Max - 64)) :
    ∃ ret, avNewPacket memory n = .error ret ∧ ret < 0 := by
  rw [avNewPacket]
  split
  · exact ⟨averrorEinval, rfl, by decide⟩
  · next hsize =>
      rw [if_pos (by cases memory <;> first | rfl | exact absurd ⟨rfl, by omega⟩ h)]
      exact ⟨averrorEnomem, rfl, by decide⟩

theorem handleAggregated_copied (hbuf : (buf.length : Int) ≤ int32Max)
    (hskip : (skip : Int) + 65535 ≤ int32Max) (h : aggregatedUnits skip buf = some us)
    (hfits : ((receivedUnits us).length : Int) < int32Max - 64) (counters : Option (Nat → Int))
    (mask : UInt32) : ∃ counters', aggregatePass 1 buf skip mask ((buf.length : Int).toNat + 1) 0 buf.length
        ⟨storedInt (receivedUnits us).length, [], counters⟩ =
          some (0, ⟨(receivedUnits us).length, receivedUnits us, counters'⟩) ∧
      handleAggregatedChecked true pkt buf buf.length skip counters mask =
        some (0, { AVPacket.blank with data := receivedUnits us }, counters') := by
  have hstored : storedInt (receivedUnits us).length = (receivedUnits us).length :=
    storedInt_small ⟨Int.natCast_nonneg _, by omega⟩
  obtain ⟨counters', hcopy⟩ := @aggregatePass_copy skip (buf.length + 1) 0 buf buf.length mask
    ⟨(receivedUnits us).length, [], counters⟩ us hskip (by omega) (by omega) h (by simp)
  have hcopy' : aggregatePass 1 buf skip mask ((buf.length : Int).toNat + 1) 0 buf.length
      ⟨storedInt (receivedUnits us).length, [], counters⟩ =
        some (0, ⟨(receivedUnits us).length, receivedUnits us, counters'⟩) := by
    rw [hstored]
    exact hcopy
  refine ⟨counters', hcopy', ?_⟩
  have hnew := (avNewPacket_stored (length_units_lt hbuf h)).trans (avNewPacket_fits hfits)
  rw [handleAggregatedChecked, aggregatePass_first hskip h, Option.bind_some,
    copyAggregated_copied hnew hcopy', List.drop_eq_nil_of_le (by rw [List.length_replicate]), List.append_nil]

/-- The handler as the round trips use it, which leaves out the counters and the
largest size of a packet. -/
theorem handleAggregated_unchecked (hbuf : (buf.length : Int) ≤ int32Max)
    (hskip : (skip : Int) + 65535 ≤ int32Max)
    (hfits : ∀ us, aggregatedUnits skip buf = some us → ((receivedUnits us).length : Int) < int32Max - 64)
    (counters : Option (Nat → Int)) (mask : UInt32) :
    (handleAggregatedChecked memory pkt buf buf.length skip counters mask).map
        (fun r => (r.1, r.2.1)) =
      some (ffH264HandleAggregatedPacket memory pkt buf skip) := by
  cases h : aggregatedUnits skip buf with
  | none =>
      rw [handleAggregated_bad hskip h, Option.map_some, ffH264HandleAggregatedPacket,
        countAggregate_units, h]
      rfl
  | some us =>
      rw [ffH264HandleAggregatedPacket_units memory pkt h]
      cases memory with
      | true =>
          obtain ⟨counters', -, hrun⟩ :=
            @handleAggregated_copied pkt buf skip us hbuf hskip h (hfits us h) counters mask
          rw [hrun]
          rfl
      | false =>
          have hrefused : avNewPacket false (receivedUnits us).length = .error averrorEnomem := by
            have hsize := hfits us h
            rw [avNewPacket, if_neg (by omega), if_pos rfl]
          rw [handleAggregated_refused hbuf hskip h hrefused]
          rfl

/-- What the handler makes of any bytes: it refuses a unit that is too long, an output
that is too long for a packet, and missing memory; otherwise the second pass
writes the bytes that the first one has counted, and these are the units behind
start codes. -/
theorem handleAggregated_exact (memory : Bool) (pkt : AVPacket) (hbuf : (buf.length : Int) ≤ int32Max)
    (hskip : (skip : Int) + 65535 ≤ int32Max) (counters : Option (Nat → Int)) (mask : UInt32) :
    ∃ ret pkt' counters', handleAggregatedChecked memory pkt buf buf.length skip counters mask =
        some (ret, pkt', counters') ∧
      match aggregatedUnits skip buf with
      | none => ret = averrorInvaliddata ∧ pkt' = pkt
      | some us =>
          if memory = true ∧ ((receivedUnits us).length : Int) < int32Max - 64 then
            ret = 0 ∧ pkt' = { AVPacket.blank with data := receivedUnits us } ∧
              ∃ st st', aggregatePass 0 buf skip mask ((buf.length : Int).toNat + 1) 0 buf.length
                  ⟨0, [], counters⟩ = some (0, st) ∧
                aggregatePass 1 buf skip mask ((buf.length : Int).toNat + 1) 0 buf.length st =
                  some (0, st') ∧
                (st'.dst.length : Int) = st.totalLength ∧ st'.dst = pkt'.data
          else ret < 0 ∧ pkt' = pkt := by
  cases h : aggregatedUnits skip buf with
  | none => exact ⟨_, _, _, handleAggregated_bad hskip h counters mask, rfl, rfl⟩
  | some us =>
      dsimp only
      by_cases hfits : memory = true ∧ ((receivedUnits us).length : Int) < int32Max - 64
      · simp only [if_pos hfits]
        obtain ⟨rfl, hlength⟩ := hfits
        obtain ⟨counters', hcopy, hrun⟩ :=
          @handleAggregated_copied pkt buf skip us hbuf hskip h hlength counters mask
        have hstored : storedInt (receivedUnits us).length = (receivedUnits us).length :=
          storedInt_small ⟨Int.natCast_nonneg _, by omega⟩
        refine ⟨_, _, _, hrun, rfl, rfl, _, _, aggregatePass_first hskip h counters mask, hcopy,
          ?_, rfl⟩
        dsimp only
        exact hstored.symm
      · simp only [if_neg hfits]
        obtain ⟨ret, hrefused, hret⟩ := avNewPacket_error hfits
        exact ⟨_, _, _, handleAggregated_refused hbuf hskip h hrefused counters mask, hret, rfl⟩

/-- Two units, each with a byte to skip behind it. -/
theorem handleAggregated_exact_two :
    ∃ ret pkt' counters', handleAggregatedChecked true .blank [0, 2, 7, 8, 99, 0, 1, 9, 99]
        ([0, 2, 7, 8, 99, 0, 1, 9, 99] : List UInt8).length (1 : Nat) none 0 =
          some (ret, pkt', counters') ∧
      match aggregatedUnits 1 [0, 2, 7, 8, 99, 0, 1, 9, 99] with
      | none => ret = averrorInvaliddata ∧ pkt' = .blank
      | some us =>
          if true = true ∧ ((receivedUnits us).length : Int) < int32Max - 64 then
            ret = 0 ∧ pkt' = { AVPacket.blank with data := receivedUnits us } ∧
              ∃ st st', aggregatePass 0 [0, 2, 7, 8, 99, 0, 1, 9, 99] (1 : Nat) 0
                  ((([0, 2, 7, 8, 99, 0, 1, 9, 99] : List UInt8).length : Int).toNat + 1) 0
                  ([0, 2, 7, 8, 99, 0, 1, 9, 99] : List UInt8).length ⟨0, [], none⟩ = some (0, st) ∧
                aggregatePass 1 [0, 2, 7, 8, 99, 0, 1, 9, 99] (1 : Nat) 0
                  ((([0, 2, 7, 8, 99, 0, 1, 9, 99] : List UInt8).length : Int).toNat + 1) 0
                  ([0, 2, 7, 8, 99, 0, 1, 9, 99] : List UInt8).length st = some (0, st') ∧
                (st'.dst.length : Int) = st.totalLength ∧ st'.dst = pkt'.data
          else ret < 0 ∧ pkt' = .blank :=
  handleAggregated_exact true .blank (by decide) (by decide) none 0

theorem aggregatedUnits_zeros (k : Nat) :
    aggregatedUnits 0 (List.replicate (2 * k + 1) 0) = some (List.replicate k []) := by
  induction k with
  | zero => exact @aggregatedUnits_end 0 0 [0] (by decide)
  | succ k ih =>
      have hzeros : List.replicate (2 * (k + 1) + 1) (0 : UInt8) =
          0 :: 0 :: List.replicate (2 * k + 1) 0 := rfl
      have hempty : (avRb16 (0 :: 0 :: List.replicate (2 * k + 1) 0) 0).toNat = 0 := by
        simp [avRb16, byteAt]
      have hstep := @aggregatedUnits_step 0 0 (0 :: 0 :: List.replicate (2 * k + 1) 0)
        (by simp only [List.length_cons, List.length_replicate]; omega) 0 hempty
      rw [if_pos (by simp only [List.length_cons]; omega)] at hstep
      simp only [List.drop_zero, Nat.zero_add, Nat.add_zero, List.drop_succ_cons, List.take_zero,
        ih, Option.map_some] at hstep
      rw [hzeros, hstep]
      rfl

theorem length_receivedUnits_empty (k : Nat) : (receivedUnits (List.replicate k [])).length = 4 * k := by
  induction k with
  | zero => rfl
  | succ k ih =>
      rw [List.replicate_succ, length_receivedUnits_cons, ih, List.length_nil]
      omega

theorem zeros_refused {k : Nat} (hk : ((2 * k + 1 : Nat) : Int) ≤ int32Max)
    (hlong : ((4 * k : Nat) : Int) ≥ int32Max - 64) (counters : Option (Nat → Int)) (mask : UInt32) :
    handleAggregatedChecked true pkt (List.replicate (2 * k + 1) 0)
      (List.replicate (2 * k + 1) (0 : UInt8)).length (0 : Nat) counters mask =
        some (averrorEinval, pkt, counters) := by
  have hskip : ((0 : Nat) : Int) + 65535 ≤ int32Max := by decide
  have hrefused : ((4 * k : Nat) : Int) < 0 ∨ ((4 * k : Nat) : Int) ≥ int32Max - 64 := .inr hlong
  have hlength : ((List.replicate (2 * k + 1) (0 : UInt8)).length : Int) ≤ int32Max := by
    rw [List.length_replicate]
    exact hk
  apply handleAggregated_refused hlength hskip (aggregatedUnits_zeros k)
  rw [length_receivedUnits_empty, avNewPacket, if_pos hrefused]

/-- A gigabyte of zeros is refused, although no unit is too long. -/
theorem gigabyte_of_zeros_refused :
    aggregatedUnits 0 (List.replicate (2 * 536870900 + 1) 0) =
        some (List.replicate 536870900 []) ∧
      handleAggregatedChecked true .blank (List.replicate (2 * 536870900 + 1) 0)
        (List.replicate (2 * 536870900 + 1) (0 : UInt8)).length (0 : Nat) none 0 =
          some (averrorEinval, .blank, none) :=
  ⟨aggregatedUnits_zeros 536870900,
    zeros_refused (by simp only [int32Max]; omega) (by simp only [int32Max]; omega) none 0⟩

end Handler

end P2PFFmpeg.Payload
