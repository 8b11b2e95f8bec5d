import P2PFFmpeg.Annexb.Stream
import P2PFFmpeg.Bsf.ListFilter

namespace P2PFFmpeg.Annexb

open Library.ByteFile Library.Transition Util

/-- `buf` says whether the data are reference-counted. They come with the bytes behind them; `none` is `NULL`. -/
structure AVPacket where
  buf : Bool
  data : Option (List UInt8 × List UInt8)
  sideDataElems : Nat

def AVPacket.isEmpty (pkt : AVPacket) : Bool := pkt.data.isNone && pkt.sideDataElems == 0

/-- `none` is a packet that is too large. -/
def avPacketMakeRefcounted (pkt : AVPacket) : Option AVPacket :=
  let bytes := (pkt.data.map Prod.fst).getD []
  if pkt.buf then some pkt
  else if bytes.length ≥ intMax - avInputBufferPaddingSize then none
  else some { pkt with buf := true, data := some (bytes, List.replicate avInputBufferPaddingSize 0) }

def avBsfSendPacket {π : Type} (bsfi : Bsf.FFBSFContext π AVPacket) (pkt : AVPacket) :
    Int × Bsf.FFBSFContext π AVPacket :=
  if pkt.isEmpty then Bsf.avBsfSendPacket bsfi none
  else
    match avPacketMakeRefcounted pkt with
    | some pkt => Bsf.avBsfSendPacket bsfi (some pkt)
    | none =>
        -- a queue that does not take the packet says so before anything is allocated
        let (ret, _) := Bsf.avBsfSendPacket bsfi (some pkt)
        (if ret = 0 then averrorEinval else ret, bsfi)

/-- Data that are reference-counted have the padding behind them. -/
def AVPacket.Padded (pkt : AVPacket) : Prop :=
  ∃ data padding, pkt.data = some (data, padding) ∧ padding.length = avInputBufferPaddingSize

-- The filter takes its packet by ff_bsf_get_packet, which allocates a new one for the queue's place and
-- otherwise hands over what ff_bsf_get_packet_ref does.
theorem padded_of_sent {π : Type} {bsfi bsfi' bsfi'' : Bsf.FFBSFContext π AVPacket} {pkt sent : AVPacket}
    (hpkt : pkt.buf = true → pkt.Padded) (hsend : avBsfSendPacket bsfi pkt = (0, bsfi'))
    (hget : Bsf.ffBsfGetPacketRef bsfi' = (.packet sent, bsfi'')) : sent.Padded := by
  unfold Bsf.ffBsfGetPacketRef at hget
  split at hget
  · cases hget
  next hmore =>
  split at hget
  · cases hget
  next queued hqueued =>
  cases hget
  unfold avBsfSendPacket at hsend
  split at hsend
  · cases hsend
    exact absurd rfl hmore
  split at hsend
  · next refcounted hrefcounted =>
      unfold Bsf.avBsfSendPacket at hsend
      dsimp only at hsend
      split at hsend
      · cases hsend
      split at hsend
      · cases hsend
      cases hsend
      cases hqueued
      unfold avPacketMakeRefcounted at hrefcounted
      dsimp only at hrefcounted
      split at hrefcounted
      · next hbuf =>
          cases hrefcounted
          exact hpkt hbuf
      split at hrefcounted
      · cases hrefcounted
      · cases hrefcounted
        exact ⟨_, _, rfl, List.length_replicate⟩
  · have hret := congrArg Prod.fst hsend
    dsimp only at hret
    split at hret
    · cases hret
    · next hrefused => exact absurd hret hrefused

/-- What the label `pps` reads lies inside of the memory. -/
def LabelInside (mem : List UInt8) (c : Conversion) : Prop :=
  c.unitNb = 0 ∧ c.spsDone = false → c.pos + 1 ≤ mem.length

def Conversion.behindUnit (c : Conversion) (mem : List UInt8) (unitSize : Nat) : Conversion :=
  { c with
    unitNb := c.unitNb - 1
    out := c.out ++ [0, 0, 0, 1] ++ (mem.drop (c.pos + 2)).take unitSize
    pos := c.pos + 2 + unitSize }

/-- What the loop over the units reads lies inside of the memory, and what it writes inside of the
output, whose size is an `int` with the padding; the loop ends. -/
def ConversionInside (mem : List UInt8) (size : Nat) : Nat → Conversion → Prop
  | 0, _ => False
  | fuel + 1, c =>
      let unitSize := (avRb16 mem c.pos).toNat
      let next := c.behindUnit mem unitSize
      c.unitNb = 0 ∨ c.pos + 2 ≤ mem.length ∧ c.out.length + 4 + unitSize ≤ intMax - avInputBufferPaddingSize ∧
        ((size : Int) - (c.pos + 2 : Nat) < unitSize + (if c.spsDone then 0 else 1) ∨
          next.pos ≤ mem.length ∧ LabelInside mem next ∧ ConversionInside mem size fuel (ppsLabel mem next))

def ExtradataInside (extradata padding : List UInt8) : Prop :=
  let mem := extradata ++ padding
  let start : Conversion := ⟨6, (byteAt mem 5 &&& 0x1f).toNat, false, [], 0⟩
  6 ≤ mem.length ∧ LabelInside mem start ∧
    ConversionInside mem extradata.length conversionFuel (if start.unitNb = 0 then ppsLabel mem start else start)

/-- What the loop of the filter reads lies inside of the memory: the length, the unit and the byte
behind its first one. The loop ends. -/
def LoopInside (lengthSize : Nat) (mem : List UInt8) (size : Nat) : Nat → Nat → Prop
  | 0, _ => False
  | fuel + 1, buf =>
      let nalSize : Nat := Payload.bigEndian ((mem.drop buf).take lengthSize) % 2 ^ 32
      let next := buf + lengthSize
      next ≤ mem.length ∧ ((nalSize : Int) > (size : Int) - next ∨
        (nalSize ≠ 0 → next + nalSize ≤ mem.length ∧ next + 2 ≤ mem.length) ∧
          (next + nalSize < size → LoopInside lengthSize mem size fuel (next + nalSize)))

variable {mem extradata padding : List UInt8} {size fuel buf lengthSize : Nat} {c : Conversion}

theorem conversion_inside (hmem : mem.length = size + avInputBufferPaddingSize) (hpos : c.pos ≤ size)
    (hfuel : c.unread < fuel) (hout : c.out.length + c.unread * 65539 ≤ 287 * 65539) :
    ConversionInside mem size fuel c := by
  induction fuel generalizing c with
  | zero => omega
  | succ fuel ih =>
      rw [avInputBufferPaddingSize] at hmem
      have hunit := (avRb16 mem c.pos).toNat_lt
      simp only [ConversionInside]
      generalize (avRb16 mem c.pos).toNat = unitSize at hunit
      by_cases hlast : c.unitNb = 0
      · exact .inl hlast
      have hread : c.unread = c.unitNb + if c.spsDone then 0 else 256 := rfl
      have hlimit : intMax - avInputBufferPaddingSize = 2147483583 := rfl
      refine .inr ⟨by omega, by omega, ?_⟩
      by_cases htruncated : (size : Int) - (c.pos + 2 : Nat) < unitSize + (if c.spsDone then 0 else 1)
      · exact .inl htruncated
      refine .inr ⟨by simp only [Conversion.behindUnit]; split at htruncated <;> omega, ?_, ?_⟩
      · rintro -
        simp only [Conversion.behindUnit]
        split at htruncated <;> omega
      · have hlabel := ppsLabel_unread mem (c.behindUnit mem unitSize)
        have hnext : (c.behindUnit mem unitSize).unread = c.unitNb - 1 + if c.spsDone then 0 else 256 := rfl
        have hpos' : (ppsLabel mem (c.behindUnit mem unitSize)).pos ≤ size := by
          unfold ppsLabel
          split
          · next hfires =>
              rw [show c.spsDone = false from hfires.2] at htruncated
              simp only [Bool.false_eq_true, if_false, Conversion.behindUnit] at htruncated ⊢
              omega
          · simp only [Conversion.behindUnit]
            split at htruncated <;> omega
        have hgrown : (ppsLabel mem (c.behindUnit mem unitSize)).out.length ≤ c.out.length + 65539 := by
          have hout' : (ppsLabel mem (c.behindUnit mem unitSize)).out = (c.behindUnit mem unitSize).out := by
            unfold ppsLabel
            split <;> rfl
          rw [hout']
          simp [Conversion.behindUnit]
          omega
        exact ih hpos' (by omega) (by omega)

theorem extradata_inside (hsize : 7 ≤ extradata.length) (hpad : padding.length = avInputBufferPaddingSize) :
    ExtradataInside extradata padding := by
  have hmem : (extradata ++ padding).length = extradata.length + avInputBufferPaddingSize := by
    rw [List.length_append, hpad]
  have hcount : (byteAt (extradata ++ padding) 5 &&& 0x1f).toNat ≤ 31 := by
    rw [UInt8.toNat_and]
    exact Nat.and_le_right
  simp only [ExtradataInside]
  generalize (byteAt (extradata ++ padding) 5 &&& 0x1f).toNat = count at hcount
  have hstart : Conversion.unread ⟨6, count, false, [], 0⟩ = count + 256 := rfl
  have hlabel := ppsLabel_unread (extradata ++ padding) ⟨6, count, false, [], 0⟩
  refine ⟨by omega, fun _ => by simp only; omega, ?_⟩
  split
  · next hnone =>
      have hfired : ppsLabel (extradata ++ padding) ⟨6, count, false, [], 0⟩ =
          ⟨7, (byteAt (extradata ++ padding) 6).toNat, true, [], 0⟩ := if_pos ⟨hnone, rfl⟩
      rw [hfired] at hlabel ⊢
      refine conversion_inside hmem hsize ?_ ?_
      · exact Nat.lt_of_le_of_lt hlabel (by rw [hstart, conversionFuel]; omega)
      · simp only [List.length_nil]
        omega
  · refine conversion_inside hmem (by simp only; omega) ?_ ?_
    · rw [hstart, conversionFuel]
      omega
    · simp only [List.length_nil, hstart]
      omega

theorem loop_inside (hn : 1 ≤ lengthSize) (hn4 : lengthSize ≤ 4)
    (hmem : mem.length = size + avInputBufferPaddingSize) (hbuf : buf ≤ size) (hfuel : size - buf < fuel) :
    LoopInside lengthSize mem size fuel buf := by
  induction fuel generalizing buf with
  | zero => omega
  | succ fuel ih =>
      rw [avInputBufferPaddingSize] at hmem
      simp only [LoopInside]
      generalize Payload.bigEndian ((mem.drop buf).take lengthSize) % 2 ^ 32 = nalSize
      refine ⟨by omega, ?_⟩
      by_cases hlong : (nalSize : Int) > (size : Int) - (buf + lengthSize : Nat)
      · exact .inl hlong
      · refine .inr ⟨fun _ => ⟨by omega, by omega⟩, fun hmore => ih (by omega) (by omega)⟩

/-- The initialisation reads the start code of the extradata before it converts them. -/
def InitInside (extradata padding : List UInt8) : Prop :=
  (3 ≤ extradata.length → 3 ≤ (extradata ++ padding).length) ∧ (4 ≤ extradata.length → 4 ≤ (extradata ++ padding).length) ∧
    (7 ≤ extradata.length → ExtradataInside extradata padding)

theorem ConversionInside.returns (h : ConversionInside mem size fuel c) : convertUnits mem size fuel c ≠ none := by
  induction fuel generalizing c with
  | zero => exact h.elim
  | succ fuel ih =>
      simp only [convertUnits]
      by_cases hend : c.unitNb = 0
      · rw [if_pos hend]
        exact Option.some_ne_none _
      rw [if_neg hend]
      obtain ⟨-, -, hcut | ⟨-, -, hrest⟩⟩ := h.resolve_left hend
      · rw [if_pos hcut]
        exact Option.some_ne_none _
      · generalize ((avRb16 mem c.pos).toNat + if c.spsDone = true then 0 else 1 : Int) = needed
        split
        · exact Option.some_ne_none _
        · exact ih hrest

theorem InitInside.returns (h : InitInside extradata padding) :
    ∃ r, h264Mp4toannexbInit extradata padding = some r := by
  rw [← Option.ne_none_iff_exists']
  simp only [h264Mp4toannexbInit]
  split
  · exact Option.some_ne_none _
  split
  · next hsize =>
      rw [ne_eq, Option.map_eq_none_iff]
      simp only [h264ExtradataToAnnexb, Option.map_eq_none_iff]
      exact (h.2.2 hsize).2.2.returns
  · exact Option.some_ne_none _

end P2PFFmpeg.Annexb
