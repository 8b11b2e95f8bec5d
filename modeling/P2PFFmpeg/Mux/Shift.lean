import P2PFFmpeg.Util.Rescale

namespace P2PFFmpeg.Mux

open Util Library.Rounding

structure FFStream where
  timeBase : AVRational
  lowestTsAllowed : Int
  muxTsOffset : Int

inductive AvoidNegativeTsStatus
  | disabled
  | unknown
  | known
deriving DecidableEq, Repr

/-- `AVFMT_AVOID_NEG_TS_MAKE_ZERO`. -/
def avfmtAvoidNegTsMakeZero : Int := 2

structure FFFormatContext where
  streams : List FFStream
  outputTsOffset : Int
  avoidNegativeTs : Int
  avoidNegativeTsStatus : AvoidNegativeTsStatus
  avoidNegativeTsUsePts : Bool
  packetBuffer : List AVPacket

def FFFormatContext.streamOf (s : FFFormatContext) (pkt : AVPacket) : Option FFStream :=
  s.streams[pkt.streamIndex.toNat]?

def avRescaleQRnd (a : Int) (bq cq : AVRational) (rnd : UInt32) : Option Int :=
  avRescaleRnd a (bq.num * cq.den) (cq.num * bq.den) rnd

/-- A timestamp moved on; nothing when the sum overflows. -/
def addTs (offset : Int) : Option Int → Option (Option Int)
  | none => some none
  | some ts => (int64 (ts + offset)).map fun sum => if sum = avNoptsValue then none else some sum

def addOffset (offset : Int) (pkt : AVPacket) : Option AVPacket := do
  let dts ← addTs offset pkt.dts
  let pts ← addTs offset pkt.pts
  some { pkt with dts := dts, pts := pts }

/-- output_ts_offset in the time base of a stream. -/
def FFFormatContext.outputOffset (s : FFFormatContext) (st : FFStream) : Int :=
  if s.outputTsOffset ≠ 0 then avRescaleQ s.outputTsOffset avTimeBaseQ st.timeBase else 0

def FFFormatContext.tsUsed (s : FFFormatContext) (pkt : AVPacket) : Option Int :=
  if s.avoidNegativeTsUsePts then pkt.pts else pkt.dts

def lowestQueued (s : FFFormatContext) : List AVPacket → Int × AVRational → Option (Int × AVRational)
  | [], lowest => some lowest
  | pkt :: queue, (ts, tb) => do
      let st ← s.streamOf pkt
      match s.tsUsed pkt with
      | none => lowestQueued s queue (ts, tb)
      | some cmpTs => do
          let cmpTs ← int64 (cmpTs - st.lowestTsAllowed)
          let cmpTs ← int64 (cmpTs + s.outputOffset st)
          if avCompareTs cmpTs st.timeBase ts tb < 0 then lowestQueued s queue (cmpTs, st.timeBase)
          else lowestQueued s queue (ts, tb)

def setOffsets (ts : Int) (tb : AVRational) : List FFStream → Option (List FFStream)
  | [] => some []
  | st :: sts => do
      let opposite ← int64 (-ts)
      let offset ← avRescaleQRnd opposite tb st.timeBase avRoundUp
      let rest ← setOffsets ts tb sts
      some ({ st with muxTsOffset := offset } :: rest)

def fixOffsets (s : FFFormatContext) (st : FFStream) (ts : Int) : Option FFFormatContext := do
  let ts ← int64 (ts - st.lowestTsAllowed)
  let lowest ← lowestQueued s s.packetBuffer (ts, st.timeBase)
  if lowest.1 < 0 ∨ (lowest.1 > 0 ∧ s.avoidNegativeTs = avfmtAvoidNegTsMakeZero) then do
    let streams ← setOffsets lowest.1 lowest.2 s.streams
    some { s with streams := streams, avoidNegativeTsStatus := .known }
  else some { s with avoidNegativeTsStatus := .known }

def shiftPacket (s : FFFormatContext) (pkt : AVPacket) : Option (FFFormatContext × AVPacket) := do
  let st ← s.streamOf pkt
  let shifted ← addOffset st.muxTsOffset pkt
  some (s, shifted)

/-- Nothing when a sum overflows; what is left out are the warnings. -/
def handleAvoidNegativeTs (s : FFFormatContext) (pkt : AVPacket) :
    Option (FFFormatContext × AVPacket) :=
  match s.avoidNegativeTsStatus with
  | .disabled => some (s, pkt)
  | .known => shiftPacket s pkt
  | .unknown =>
      match s.tsUsed pkt with
      | none => some (s, pkt)
      | some ts => do
          let st ← s.streamOf pkt
          let s ← fixOffsets s st ts
          shiftPacket s pkt

/-- The packet as write_packet hands it to the format. -/
def writePacket (s : FFFormatContext) (pkt : AVPacket) : Option (FFFormatContext × AVPacket) := do
  let st ← s.streamOf pkt
  let pkt ← addOffset (s.outputOffset st) pkt
  handleAvoidNegativeTs s pkt

def writePackets : FFFormatContext → List (AVPacket × List AVPacket) → Option (List AVPacket)
  | _, [] => some []
  | s, (pkt, queue) :: calls => do
      let (s, written) ← writePacket { s with packetBuffer := queue } pkt
      let rest ← writePackets s calls
      some (written :: rest)

structure TimeBase (tb : AVRational) : Prop where
  positive : tb.Positive
  num : tb.num ≤ int32Max
  den : tb.den ≤ int32Max

def shiftUp (ts : Int) (tb tb' : AVRational) : Int :=
  ⌈(((-ts : Int) : ℚ) * ((tb.num * tb'.den : Int) : ℚ)) / ((tb'.num * tb.den : Int) : ℚ)⌉

section Shift

variable {ts : Int} {tb tb' : AVRational}

theorem timeOf_add (a b : Int) (tb : AVRational) : timeOf (a + b) tb = timeOf a tb + timeOf b tb := by
  simp only [timeOf, Int.cast_add]
  ring

theorem timeOf_nonneg_iff (htb : tb.Positive) : 0 ≤ timeOf ts tb ↔ 0 ≤ ts := by
  have hnum : (0 : ℚ) < tb.num := Int.cast_pos.mpr htb.1
  have hden : (0 : ℚ) < tb.den := Int.cast_pos.mpr htb.2
  rw [timeOf, le_div_iff₀ hden, zero_mul, mul_nonneg_iff_of_pos_right hnum, Int.cast_nonneg_iff]

theorem tick_pos (htb : tb.Positive) : 0 < timeOf 1 tb := by
  have hnum : (0 : ℚ) < tb.num := Int.cast_pos.mpr htb.1
  have hden : (0 : ℚ) < tb.den := Int.cast_pos.mpr htb.2
  rw [timeOf, Int.cast_one, one_mul]
  exact div_pos hnum hden

theorem timeOf_shiftUp (htb : tb.Positive) (htb' : tb'.Positive) :
    -timeOf ts tb ≤ timeOf (shiftUp ts tb tb') tb' ∧
      timeOf (shiftUp ts tb tb') tb' < -timeOf ts tb + timeOf 1 tb' := by
  have hnum : (0 : ℚ) < tb'.num := Int.cast_pos.mpr htb'.1
  have hden : (0 : ℚ) < tb'.den := Int.cast_pos.mpr htb'.2
  have hden' : (0 : ℚ) < tb.den := Int.cast_pos.mpr htb.2
  have hexact : (((-ts : Int) : ℚ) * ((tb.num * tb'.den : Int) : ℚ)) /
      ((tb'.num * tb.den : Int) : ℚ) * tb'.num / tb'.den = -timeOf ts tb := by
    rw [timeOf]
    push_cast
    field_simp
  have htick : timeOf 1 tb' = tb'.num / tb'.den := by rw [timeOf, Int.cast_one, one_mul]
  rw [← hexact, htick, shiftUp, timeOf]
  generalize (((-ts : Int) : ℚ) * ((tb.num * tb'.den : Int) : ℚ)) /
    ((tb'.num * tb.den : Int) : ℚ) = x
  have hle := Int.le_ceil x
  have hlt := Int.ceil_lt_add_one x
  constructor
  · exact div_le_div_of_nonneg_right (mul_le_mul_of_nonneg_right hle hnum.le) hden.le
  · rw [← add_div, div_lt_div_iff_of_pos_right hden]
    nlinarith

theorem shiftUp_self (htb : tb.Positive) : shiftUp ts tb tb = -ts := by
  have hne : ((tb.num * tb.den : Int) : ℚ) ≠ 0 :=
    Int.cast_ne_zero.mpr (mul_pos htb.1 htb.2).ne'
  rw [shiftUp, mul_div_assoc, div_self hne, mul_one, Int.ceil_intCast]

theorem TimeBase.factor (htb : TimeBase tb) (htb' : TimeBase tb') :
    0 < tb.num * tb'.den ∧ tb.num * tb'.den ≤ int64Max := by
  refine ⟨mul_pos htb.positive.1 htb'.positive.2, ?_⟩
  have hproduct : tb.num * tb'.den ≤ int32Max * int32Max :=
    mul_le_mul htb.num htb'.den htb'.positive.2.le (by decide)
  exact hproduct.trans (by decide)

theorem avRescaleQRnd_up (htb : TimeBase tb) (htb' : TimeBase tb') (hfits : Fits ts tb tb')
    (hts : -int64Max ≤ ts ∧ ts ≤ int64Max) :
    avRescaleQRnd (-ts) tb tb' avRoundUp = some (shiftUp ts tb tb') := by
  obtain ⟨hb, hbmax⟩ := htb.factor htb'
  obtain ⟨hc, hcmax⟩ := htb'.factor htb
  have hrange : int64Min < -ts ∧ -ts ≤ int64Max := by
    simp only [int64Min, int64Max] at hts ⊢
    omega
  have hrounds := @avRescaleRnd_rounds (-ts) (tb.num * tb'.den) (tb'.num * tb.den) .up false
    hrange ⟨hb.le, hbmax⟩ ⟨hc, hcmax⟩ (by simp)
  refine hrounds.trans (congrArg some ?_)
  have hq : ((tb'.num * tb.den : Int) : ℚ) > 0 := Int.cast_pos.mpr hc
  -- the quotient is a number of 64 bits, as the timestamp fits
  have habs : |((-ts : Int) : ℚ) * ((tb.num * tb'.den : Int) : ℚ)| ≤
      (int64Max : ℚ) * ((tb'.num * tb.den : Int) : ℚ) := by
    rw [← Int.cast_mul, ← Int.cast_mul, ← Int.cast_abs, Int.cast_le, abs_mul, abs_neg,
      abs_of_pos hb, Int.abs_eq_natAbs]
    exact hfits
  obtain ⟨hlow, hhigh⟩ := abs_le.mp habs
  have hceil : -int64Max ≤ shiftUp ts tb tb' ∧ shiftUp ts tb tb' ≤ int64Max := by
    constructor
    · have hreal : ((-int64Max : Int) : ℚ) ≤ (((-ts : Int) : ℚ) * ((tb.num * tb'.den : Int) : ℚ)) /
          ((tb'.num * tb.den : Int) : ℚ) := by
        rw [le_div_iff₀ hq, Int.cast_neg, neg_mul]
        exact hlow
      exact Int.cast_le.mp (hreal.trans (Int.le_ceil _))
    · rw [shiftUp, Int.ceil_le, div_le_iff₀ hq]
      exact hhigh
  have hin : int64Min ≤ shiftUp ts tb tb' ∧ shiftUp ts tb tb' ≤ int64Max := by
    refine ⟨le_trans ?_ hceil.1, hceil.2⟩
    decide
  exact if_pos hin

end Shift

def IsTs (x : Int) : Prop := int64Min < x ∧ x ≤ int64Max

def moved (offset : Int) (pkt : AVPacket) : AVPacket :=
  { pkt with dts := pkt.dts.map (· + offset), pts := pkt.pts.map (· + offset) }

def Room (offset shift : Int) (pkt : AVPacket) : Prop :=
  ∀ t, pkt.dts = some t ∨ pkt.pts = some t → IsTs t ∧ IsTs (t + offset) ∧ IsTs (t + offset + shift)

section Packets

variable {s : FFFormatContext} {st : FFStream} {pkt : AVPacket} {offset : Int}

theorem IsTs.int64 {x : Int} (h : IsTs x) : Util.int64 x = some x := int64_some h.1.le h.2

theorem addTs_room {ts : Option Int} (h : ∀ t, ts = some t → IsTs (t + offset)) :
    addTs offset ts = some (ts.map (· + offset)) := by
  cases ts with
  | none => rfl
  | some t =>
      have hsum := h t rfl
      have hvalue : t + offset ≠ avNoptsValue := hsum.1.ne'
      simp only [addTs, hsum.int64, Option.map_some, if_neg hvalue]

theorem addOffset_room (h : ∀ t, pkt.dts = some t ∨ pkt.pts = some t → IsTs (t + offset)) :
    addOffset offset pkt = some (moved offset pkt) := by
  simp only [addOffset, addTs_room fun t ht => h t (.inl ht), addTs_room fun t ht => h t (.inr ht)]
  rfl

theorem moved_moved (a b : Int) (pkt : AVPacket) : moved b (moved a pkt) = moved (a + b) pkt := by
  simp only [moved, Option.map_map, Function.comp_def, Int.add_assoc]

theorem shiftPacket_room (hst : s.streamOf pkt = some st) (hroom : Room offset st.muxTsOffset pkt) :
    shiftPacket s (moved offset pkt) = some (s, moved (offset + st.muxTsOffset) pkt) := by
  have hst' : s.streamOf (moved offset pkt) = some st := hst
  have hshift : addOffset st.muxTsOffset (moved offset pkt) =
      some (moved (offset + st.muxTsOffset) pkt) := by
    rw [← moved_moved]
    refine addOffset_room fun t ht => ?_
    simp only [moved, Option.map_eq_some_iff] at ht
    obtain ⟨u, hu, rfl⟩ | ⟨u, hu, rfl⟩ := ht
    · exact (hroom u (.inl hu)).2.2
    · exact (hroom u (.inr hu)).2.2
  simp only [shiftPacket, hst', hshift, Option.bind_eq_bind, Option.bind_some]

theorem writePacket_known (hstatus : s.avoidNegativeTsStatus = .known)
    (hst : s.streamOf pkt = some st) (hroom : Room (s.outputOffset st) st.muxTsOffset pkt) :
    writePacket s pkt = some (s, moved (s.outputOffset st + st.muxTsOffset) pkt) := by
  have hoffset := addOffset_room fun t ht => (hroom t ht).2.1
  simp only [writePacket, hst, hoffset, handleAvoidNegativeTs, hstatus, Option.bind_eq_bind,
    Option.bind_some]
  exact shiftPacket_room hst hroom

end Packets

structure Entry (s : FFFormatContext) (pkt : AVPacket) (e : FFStream × Int) : Prop where
  stream : s.streamOf pkt = some e.1
  dts : ∃ d, pkt.dts = some d ∧ d + s.outputOffset e.1 = e.2

/-- A muxer that avoids negative dts, before its first packet. -/
structure Ready (s : FFFormatContext) : Prop where
  status : s.avoidNegativeTsStatus = .unknown
  mode : s.avoidNegativeTsUsePts = false
  timeBase : ∀ st ∈ s.streams, TimeBase st.timeBase
  lowest : ∀ st ∈ s.streams, st.lowestTsAllowed = 0
  unshifted : ∀ st ∈ s.streams, st.muxTsOffset = 0

def FFFormatContext.shiftOf (s : FFFormatContext) (first : FFStream × Int) (st : FFStream) : Int :=
  if first.2 < 0 ∨ (first.2 > 0 ∧ s.avoidNegativeTs = avfmtAvoidNegTsMakeZero) then
    shiftUp first.2 first.1.timeBase st.timeBase
  else 0

def FFFormatContext.fixed (s : FFFormatContext) (first : FFStream × Int) : FFFormatContext :=
  { s with
    streams := s.streams.map fun st => { st with muxTsOffset := s.shiftOf first st }
    avoidNegativeTsStatus := .known }

section First

variable {s : FFFormatContext} {pkt : AVPacket} {first e : FFStream × Int} {queue : List AVPacket}

theorem Entry.mem {s : FFFormatContext} (h : Entry s pkt e) : e.1 ∈ s.streams :=
  List.mem_of_getElem? h.stream

structure Later (s : FFFormatContext) (first e : FFStream × Int) (pkt : AVPacket) : Prop where
  entry : Entry s pkt e
  room : Room (s.outputOffset e.1) (s.shiftOf first e.1) pkt
  order : timeOf first.2 first.1.timeBase ≤ timeOf e.2 e.1.timeBase
  fits : Fits e.2 e.1.timeBase first.1.timeBase

theorem IsTs.bounds {x : Int} (h : IsTs x) : -int64Max ≤ x ∧ x ≤ int64Max := by
  simp only [IsTs, int64Min, int64Max] at h ⊢
  omega

theorem Entry.isTs {shift : Int} (h : Entry s pkt e) (hroom : Room (s.outputOffset e.1) shift pkt) :
    IsTs e.2 := by
  obtain ⟨d, hd, heq⟩ := h.dts
  rw [← heq]
  exact (hroom d (.inl hd)).2.1

theorem lowestQueued_first (hready : Ready s) (hfirst : first.1 ∈ s.streams) (hts : IsTs first.2)
    (hfits : ∀ st ∈ s.streams, Fits first.2 first.1.timeBase st.timeBase)
    (hqueue : ∀ q ∈ queue, ∃ e, Later s first e q) :
    lowestQueued s queue (first.2, first.1.timeBase) = some (first.2, first.1.timeBase) := by
  induction queue with
  | nil => rfl
  | cons q queue ih =>
      obtain ⟨e, hentry, hroom, horder, hback⟩ := hqueue q List.mem_cons_self
      have hmem := hentry.mem
      have hisTs := hentry.isTs hroom
      obtain ⟨d, hd, heq⟩ := hentry.dts
      have hbefore := (hroom d (.inl hd)).1
      have hused : s.tsUsed q = some d := by rw [FFFormatContext.tsUsed, hready.mode]; exact hd
      have hexact := avCompareTs_exact (hready.timeBase e.1 hmem).positive
        (hready.timeBase first.1 hfirst).positive hback (hfits e.1 hmem) hisTs.bounds.1 hts.bounds.1
      have hnot : ¬ avCompareTs e.2 e.1.timeBase first.2 first.1.timeBase < 0 := by
        rw [hexact.1]
        exact not_lt.mpr horder
      simp only [lowestQueued, hentry.stream, hused, hready.lowest e.1 hmem, Int.sub_zero,
        hbefore.int64, heq, hisTs.int64, Option.bind_eq_bind, Option.bind_some, if_neg hnot]
      exact ih fun q' hq' => hqueue q' (List.mem_cons_of_mem q hq')

theorem setOffsets_eq {ts : Int} {tb : AVRational} (htb : TimeBase tb) (hts : IsTs ts)
    {sts : List FFStream} (hsts : ∀ st ∈ sts, TimeBase st.timeBase ∧ Fits ts tb st.timeBase) :
    setOffsets ts tb sts =
      some (sts.map fun st => { st with muxTsOffset := shiftUp ts tb st.timeBase }) := by
  have hopposite : Util.int64 (-ts) = some (-ts) := by
    have hbounds := hts.bounds
    apply int64_some
    · simp only [int64Min, int64Max] at hbounds ⊢
      omega
    · omega
  induction sts with
  | nil => rfl
  | cons st sts ih =>
      obtain ⟨htb', hfits⟩ := hsts st List.mem_cons_self
      have hrest := ih fun st' hst' => hsts st' (List.mem_cons_of_mem st hst')
      simp only [setOffsets, hopposite, avRescaleQRnd_up htb htb' hfits hts.bounds, hrest,
        Option.bind_eq_bind, Option.bind_some, List.map_cons]

theorem fixOffsets_first (hready : Ready s) (hfirst : first.1 ∈ s.streams) (hts : IsTs first.2)
    (hfits : ∀ st ∈ s.streams, Fits first.2 first.1.timeBase st.timeBase)
    (hqueue : ∀ q ∈ s.packetBuffer, ∃ e, Later s first e q) :
    fixOffsets s first.1 first.2 = some (s.fixed first) := by
  simp only [fixOffsets, hready.lowest first.1 hfirst, Int.sub_zero, hts.int64,
    lowestQueued_first hready hfirst hts hfits hqueue, Option.bind_eq_bind, Option.bind_some]
  by_cases hshift : first.2 < 0 ∨ (first.2 > 0 ∧ s.avoidNegativeTs = avfmtAvoidNegTsMakeZero)
  · rw [if_pos hshift, setOffsets_eq (hready.timeBase first.1 hfirst) hts
      fun st hst => ⟨hready.timeBase st hst, hfits st hst⟩]
    simp only [FFFormatContext.fixed, FFFormatContext.shiftOf, if_pos hshift, Option.bind_some]
  · have hsame : (s.streams.map fun st => { st with muxTsOffset := 0 }) = s.streams := by
      refine (List.map_congr_left fun st hst => ?_).trans (List.map_id s.streams)
      rw [← hready.unshifted st hst]
      rfl
    simp only [FFFormatContext.fixed, FFFormatContext.shiftOf, if_neg hshift, hsame]

theorem streamOf_fixed (h : s.streamOf pkt = some e.1) :
    (s.fixed first).streamOf pkt = some { e.1 with muxTsOffset := s.shiftOf first e.1 } := by
  simp only [FFFormatContext.streamOf, FFFormatContext.fixed, List.getElem?_map] at h ⊢
  rw [h]
  rfl

theorem writePacket_first (hready : Ready s) (hentry : Entry s pkt first)
    (hroom : Room (s.outputOffset first.1) (s.shiftOf first first.1) pkt)
    (hfits : ∀ st ∈ s.streams, Fits first.2 first.1.timeBase st.timeBase)
    (hqueue : ∀ q ∈ s.packetBuffer, ∃ e, Later s first e q) : writePacket s pkt = some (s.fixed first,
      moved (s.outputOffset first.1 + s.shiftOf first first.1) pkt) := by
  have hoffset := addOffset_room fun t ht => (hroom t ht).2.1
  obtain ⟨d, hd, heq⟩ := hentry.dts
  have hused : s.tsUsed (moved (s.outputOffset first.1) pkt) = some first.2 := by
    rw [FFFormatContext.tsUsed, hready.mode, ← heq]
    simp only [moved, hd, Option.map_some, Bool.false_eq_true, if_false]
  have hst : s.streamOf (moved (s.outputOffset first.1) pkt) = some first.1 := hentry.stream
  have hfixed := fixOffsets_first hready hentry.mem (hentry.isTs hroom) hfits hqueue
  simp only [writePacket, hentry.stream, hoffset, handleAvoidNegativeTs, hready.status, hused, hst,
    hfixed, Option.bind_eq_bind, Option.bind_some]
  exact shiftPacket_room (streamOf_fixed hentry.stream) hroom

end First

def FFFormatContext.writtenFor (s : FFFormatContext) (first e : FFStream × Int) (pkt : AVPacket) :
    AVPacket := moved (s.outputOffset e.1 + s.shiftOf first e.1) pkt

section Run

variable {s t : FFFormatContext} {first : FFStream × Int} {es : List (FFStream × Int)}
  {calls : List (AVPacket × List AVPacket)}

theorem writePackets_fixed (hstatus : t.avoidNegativeTsStatus = .known)
    (hstreams : t.streams = (s.fixed first).streams) (hoffset : t.outputTsOffset = s.outputTsOffset)
    (hcalls : List.Forall₂ (fun call e => Entry s call.1 e ∧
      Room (s.outputOffset e.1) (s.shiftOf first e.1) call.1) calls es) : writePackets t calls =
      some (List.zipWith (fun call e => s.writtenFor first e call.1) calls es) := by
  induction hcalls generalizing t with
  | nil => rfl
  | @cons call e calls es hcall _ ih =>
      obtain ⟨pkt, queue⟩ := call
      obtain ⟨hentry, hroom⟩ := hcall
      have hst : { t with packetBuffer := queue }.streamOf pkt =
          some { e.1 with muxTsOffset := s.shiftOf first e.1 } := by
        have hfixed := @streamOf_fixed s pkt first e hentry.stream
        rw [FFFormatContext.streamOf] at hfixed ⊢
        rw [← hfixed]
        exact congrArg (·[pkt.streamIndex.toNat]?) hstreams
      have hout : { t with packetBuffer := queue }.outputOffset
          { e.1 with muxTsOffset := s.shiftOf first e.1 } = s.outputOffset e.1 := by
        simp only [FFFormatContext.outputOffset, hoffset]
      have hwrite := @writePacket_known { t with packetBuffer := queue }
        { e.1 with muxTsOffset := s.shiftOf first e.1 } pkt hstatus hst (hout.symm ▸ hroom)
      rw [hout] at hwrite
      have hrest := @ih { t with packetBuffer := queue } hstatus hstreams hoffset
      simp only [writePackets, hwrite, hrest, Option.bind_eq_bind, Option.bind_some,
        List.zipWith_cons_cons, FFFormatContext.writtenFor]

theorem writePackets_ready {pkt : AVPacket} {queue : List AVPacket} (hready : Ready s)
    (hentry : Entry s pkt first) (hroom : Room (s.outputOffset first.1) (s.shiftOf first first.1) pkt)
    (hfits : ∀ st ∈ s.streams, Fits first.2 first.1.timeBase st.timeBase)
    (hqueue : ∀ q ∈ queue, ∃ e, Later s first e q) (hcalls : List.Forall₂ (fun call e => Entry s call.1 e ∧
      Room (s.outputOffset e.1) (s.shiftOf first e.1) call.1) calls es) :
    writePackets s ((pkt, queue) :: calls) = some (s.writtenFor first first pkt ::
      List.zipWith (fun call e => s.writtenFor first e call.1) calls es) := by
  have hready' : Ready { s with packetBuffer := queue } :=
    ⟨hready.status, hready.mode, hready.timeBase, hready.lowest, hready.unshifted⟩
  have hqueue' : ∀ q ∈ queue, ∃ e, Later { s with packetBuffer := queue } first e q := by
    intro q hq
    obtain ⟨e, hentry, hroom, horder, hback⟩ := hqueue q hq
    exact ⟨e, ⟨hentry.stream, hentry.dts⟩, hroom, horder, hback⟩
  have hwrite := @writePacket_first { s with packetBuffer := queue } pkt first hready'
    ⟨hentry.stream, hentry.dts⟩ hroom hfits hqueue'
  have hrest := @writePackets_fixed s (FFFormatContext.fixed { s with packetBuffer := queue } first)
    first es calls rfl rfl rfl hcalls
  simp only [writePackets, hwrite, hrest, Option.bind_eq_bind, Option.bind_some]
  rfl

/-- The shift takes the first timestamp to zero, or stays behind by less than a
tick; or there is none, as that timestamp is not negative. -/
theorem shiftOf_time (hfirst : TimeBase first.1.timeBase) {st : FFStream} (hst : TimeBase st.timeBase) :
    (-timeOf first.2 first.1.timeBase ≤ timeOf (s.shiftOf first st) st.timeBase ∧
      timeOf (s.shiftOf first st) st.timeBase <
        -timeOf first.2 first.1.timeBase + timeOf 1 st.timeBase) ∧
        (first.2 < 0 ∨ (first.2 > 0 ∧ s.avoidNegativeTs = avfmtAvoidNegTsMakeZero)) ∨
      s.shiftOf first st = 0 ∧
        ¬ (first.2 < 0 ∨ (first.2 > 0 ∧ s.avoidNegativeTs = avfmtAvoidNegTsMakeZero)) := by
  rw [FFFormatContext.shiftOf]
  split
  · next hshift => exact .inl ⟨timeOf_shiftUp hfirst.positive hst.positive, hshift⟩
  · next hnot => exact .inr ⟨rfl, hnot⟩

theorem written_nonneg (hfirst : TimeBase first.1.timeBase) {e : FFStream × Int} (he : TimeBase e.1.timeBase)
    (horder : timeOf first.2 first.1.timeBase ≤ timeOf e.2 e.1.timeBase) : 0 ≤ e.2 + s.shiftOf first e.1 := by
  rw [← timeOf_nonneg_iff he.positive, timeOf_add]
  obtain ⟨⟨hlow, _⟩, _⟩ | ⟨hzero, hnot⟩ := @shiftOf_time s first hfirst e.1 he
  · linarith
  · have hnonneg : 0 ≤ timeOf first.2 first.1.timeBase := by
      rw [timeOf_nonneg_iff hfirst.positive]
      omega
    have hnothing : timeOf 0 e.1.timeBase = 0 := by rw [timeOf, Int.cast_zero, zero_mul, zero_div]
    rw [hzero, hnothing]
    linarith

theorem shifts_close (hfirst : TimeBase first.1.timeBase) {a b : FFStream}
    (ha : TimeBase a.timeBase) (hb : TimeBase b.timeBase) :
    |timeOf (s.shiftOf first a) a.timeBase - timeOf (s.shiftOf first b) b.timeBase| <
      timeOf 1 a.timeBase + timeOf 1 b.timeBase := by
  have htickA := tick_pos ha.positive
  have htickB := tick_pos hb.positive
  have hnothing : ∀ tb : AVRational, timeOf 0 tb = 0 := fun tb => by
    rw [timeOf, Int.cast_zero, zero_mul, zero_div]
  obtain ⟨⟨hlowA, hhighA⟩, hshift⟩ | ⟨hzeroA, hnot⟩ := @shiftOf_time s first hfirst a ha
  · obtain ⟨⟨hlowB, hhighB⟩, _⟩ | ⟨_, hnot⟩ := @shiftOf_time s first hfirst b hb
    · rw [abs_lt]
      constructor <;> linarith
    · exact absurd hshift hnot
  · obtain ⟨_, hshift⟩ | ⟨hzeroB, _⟩ := @shiftOf_time s first hfirst b hb
    · exact absurd hshift hnot
    · rw [hzeroA, hzeroB, hnothing, hnothing, sub_zero, abs_zero]
      linarith

theorem exists_related {A B : Type} {R : A → B → Prop} {as : List A} {bs : List B}
    (h : List.Forall₂ R as bs) {a : A} (ha : a ∈ as) : ∃ b ∈ bs, R a b := by
  induction h with
  | nil => simp at ha
  | @cons a' b as bs hfirst _ ih =>
      obtain rfl | ha := List.mem_cons.mp ha
      · exact ⟨b, List.mem_cons_self, hfirst⟩
      · obtain ⟨b', hb', hlater⟩ := ih ha
        exact ⟨b', List.mem_cons_of_mem b hb', hlater⟩

theorem writtenFor_dts {pkt : AVPacket} {e : FFStream × Int} (h : Entry s pkt e) :
    (s.writtenFor first e pkt).dts = some (e.2 + s.shiftOf first e.1) := by
  obtain ⟨d, hd, heq⟩ := h.dts
  simp only [FFFormatContext.writtenFor, moved, hd, Option.map_some, ← heq, Int.add_assoc]

theorem written_dts (hcalls : List.Forall₂ (fun call e => Entry s call.1 e ∧
      Room (s.outputOffset e.1) (s.shiftOf first e.1) call.1) calls es) :
    (List.zipWith (fun call e => s.writtenFor first e call.1) calls es).map AVPacket.dts =
      es.map fun e => some (e.2 + s.shiftOf first e.1) := by
  induction hcalls with
  | nil => rfl
  | @cons call e calls es hcall _ ih =>
      rw [List.zipWith_cons_cons, List.map_cons, List.map_cons, writtenFor_dts hcall.1, ih]

def SameGap (pkt written : AVPacket) : Prop :=
  ∀ d, pkt.dts = some d → ∃ d', written.dts = some d' ∧ written.pts = pkt.pts.map (· + (d' - d))

theorem moved_gap (offset : Int) (pkt : AVPacket) : SameGap pkt (moved offset pkt) := by
  intro d hd
  refine ⟨d + offset, by simp only [moved, hd, Option.map_some], ?_⟩
  have hgap : d + offset - d = offset := by omega
  rw [hgap]
  rfl

theorem written_gap (hcalls : List.Forall₂ (fun call e => Entry s call.1 e ∧
      Room (s.outputOffset e.1) (s.shiftOf first e.1) call.1) calls es) :
    List.Forall₂ (fun call written => SameGap call.1 written) calls
      (List.zipWith (fun call e => s.writtenFor first e call.1) calls es) := by
  induction hcalls with
  | nil => exact .nil
  | cons _ _ ih => exact .cons (moved_gap _ _) ih

/-- Packets in the order of their dts, with output_ts_offset added, are written with
no negative dts, each pts as far from its dts as before, the times between them
changed by less than a tick of both time bases, and the first one at zero if that is
asked for. -/
theorem shifted_together {pkt : AVPacket} {queue : List AVPacket} (hready : Ready s)
    (hcalls : List.Forall₂ (fun call e => Entry s call.1 e ∧
      Room (s.outputOffset e.1) (s.shiftOf first e.1) call.1) ((pkt, queue) :: calls) (first :: es))
    (horder : (first :: es).Pairwise fun e e' =>
      timeOf e.2 e.1.timeBase ≤ timeOf e'.2 e'.1.timeBase)
    (hqueue : ∀ q ∈ queue, q ∈ calls.map Prod.fst)
    (hfits : ∀ e ∈ first :: es, ∀ st ∈ s.streams, Fits e.2 e.1.timeBase st.timeBase) :
    ∃ written ws, writePackets s ((pkt, queue) :: calls) = some written ∧
      written.map AVPacket.dts = ws.map some ∧ (∀ w ∈ ws, 0 ≤ w) ∧
      List.Forall₂ (fun call written => SameGap call.1 written) ((pkt, queue) :: calls) written ∧
      (∀ x ∈ (first :: es).zip ws, ∀ y ∈ (first :: es).zip ws,
        |timeOf x.2 x.1.1.timeBase - timeOf y.2 y.1.1.timeBase -
            (timeOf x.1.2 x.1.1.timeBase - timeOf y.1.2 y.1.1.timeBase)| <
          timeOf 1 x.1.1.timeBase + timeOf 1 y.1.1.timeBase) ∧
      (s.avoidNegativeTs = avfmtAvoidNegTsMakeZero → ws.head? = some 0) := by
  have hbefore := (List.pairwise_cons.mp horder).1
  obtain ⟨⟨hentry, hroom⟩, hrest⟩ := List.forall₂_cons.mp hcalls
  have hfirst := hready.timeBase first.1 hentry.mem
  have hbase : ∀ e ∈ first :: es, TimeBase e.1.timeBase ∧
      timeOf first.2 first.1.timeBase ≤ timeOf e.2 e.1.timeBase := by
    intro e he
    obtain ⟨call, _, hcall⟩ := exists_related hcalls.flip he
    refine ⟨hready.timeBase e.1 hcall.1.mem, ?_⟩
    obtain rfl | he := List.mem_cons.mp he
    · exact le_rfl
    · exact hbefore e he
  have hlater : ∀ q ∈ queue, ∃ e, Later s first e q := by
    intro q hq
    obtain ⟨call, hcall, rfl⟩ := List.mem_map.mp (hqueue q hq)
    obtain ⟨e, he, hentry', hroom'⟩ := exists_related hrest hcall
    have hmem := List.mem_cons_of_mem first he
    exact ⟨e, hentry', hroom', hbefore e he, hfits e hmem first.1 hentry.mem⟩
  have hwrite := writePackets_ready hready hentry hroom (hfits first List.mem_cons_self) hlater hrest
  have hwritten : ∀ x ∈ (first :: es).zip ((first :: es).map fun e => e.2 + s.shiftOf first e.1),
      x.1 ∈ first :: es ∧ x.2 = x.1.2 + s.shiftOf first x.1.1 := by
    intro x hx
    rw [← List.map_prod_left_eq_zip] at hx
    obtain ⟨e, he, rfl⟩ := List.mem_map.mp hx
    exact ⟨he, rfl⟩
  refine ⟨_, (first :: es).map fun e => e.2 + s.shiftOf first e.1, hwrite, ?_, ?_, ?_, ?_, ?_⟩
  · rw [List.map_cons, writtenFor_dts hentry, written_dts hrest, List.map_map]
    rfl
  · intro w hw
    obtain ⟨e, he, rfl⟩ := List.mem_map.mp hw
    exact written_nonneg hfirst (hbase e he).1 (hbase e he).2
  · exact .cons (moved_gap _ _) (written_gap hrest)
  · intro x hx y hy
    obtain ⟨hx, hxw⟩ := hwritten x hx
    obtain ⟨hy, hyw⟩ := hwritten y hy
    have hclose := @shifts_close s first hfirst x.1.1 y.1.1 (hbase x.1 hx).1 (hbase y.1 hy).1
    have hdifference : timeOf x.2 x.1.1.timeBase - timeOf y.2 y.1.1.timeBase -
        (timeOf x.1.2 x.1.1.timeBase - timeOf y.1.2 y.1.1.timeBase) =
          timeOf (s.shiftOf first x.1.1) x.1.1.timeBase -
            timeOf (s.shiftOf first y.1.1) y.1.1.timeBase := by
      rw [hxw, hyw, timeOf_add, timeOf_add]
      ring
    rw [hdifference]
    exact hclose
  · intro hzero
    have hsum : first.2 + s.shiftOf first first.1 = 0 := by
      by_cases hshift : first.2 < 0 ∨ (first.2 > 0 ∧ s.avoidNegativeTs = avfmtAvoidNegTsMakeZero)
      · rw [FFFormatContext.shiftOf, if_pos hshift, shiftUp_self hfirst.positive]
        omega
      · rw [FFFormatContext.shiftOf, if_neg hshift]
        omega
    rw [List.map_cons, List.head?_cons, hsum]

end Run

instance (tb : AVRational) : Decidable (TimeBase tb) :=
  decidable_of_iff ((0 < tb.num ∧ 0 < tb.den) ∧ tb.num ≤ int32Max ∧ tb.den ≤ int32Max)
    ⟨fun ⟨hpositive, hnum, hden⟩ => ⟨hpositive, hnum, hden⟩,
      fun h => ⟨h.positive, h.num, h.den⟩⟩

instance (x : Int) : Decidable (IsTs x) := inferInstanceAs (Decidable (_ ∧ _))

instance (offset shift : Int) (pkt : AVPacket) : Decidable (Room offset shift pkt) :=
  decidable_of_iff
    (∀ t ∈ pkt.dts.toList ++ pkt.pts.toList,
      IsTs t ∧ IsTs (t + offset) ∧ IsTs (t + offset + shift))
    (by simp only [Room, List.mem_append, Option.mem_toList])

def shiftedPair (a b : AVRational) (outputTsOffset avoidNegativeTs : Int) : FFFormatContext :=
  ⟨[⟨a, 0, 0⟩, ⟨b, 0, 0⟩], outputTsOffset, avoidNegativeTs, .unknown, false, []⟩

theorem shiftedPair_ready {a b : AVRational} (ha : TimeBase a) (hb : TimeBase b)
    (outputTsOffset avoidNegativeTs : Int) : Ready (shiftedPair a b outputTsOffset avoidNegativeTs) := by
  refine ⟨rfl, rfl, ?_, ?_, ?_⟩
  · simp [shiftedPair, ha, hb]
  · simp [shiftedPair]
  · simp [shiftedPair]

def dtsPacket (streamIndex dts : Int) : AVPacket :=
  ⟨some (dts + 2), some dts, [], streamIndex, true, false, 0⟩

/-- Half a second before zero in milliseconds, and a later frame that is in the queue. -/
theorem shifted_together_half : ∃ written, ∃ ws : List Int,
    writePackets (shiftedPair ⟨1, 1000⟩ ⟨1, 30⟩ 0 2)
      [(dtsPacket 0 (-500), [dtsPacket 1 (-14)]), (dtsPacket 1 (-14), [])] = some written ∧
    written.map AVPacket.dts = ws.map some ∧ (∀ w ∈ ws, 0 ≤ w) ∧ ws.head? = some 0 := by
  have hready : Ready (shiftedPair ⟨1, 1000⟩ ⟨1, 30⟩ 0 2) :=
    shiftedPair_ready (by decide) (by decide) 0 2
  have hfirst : Entry (shiftedPair ⟨1, 1000⟩ ⟨1, 30⟩ 0 2) (dtsPacket 0 (-500))
      (⟨⟨1, 1000⟩, 0, 0⟩, -500) := ⟨rfl, -500, rfl, by decide⟩
  have hsecond : Entry (shiftedPair ⟨1, 1000⟩ ⟨1, 30⟩ 0 2) (dtsPacket 1 (-14))
      (⟨⟨1, 30⟩, 0, 0⟩, -14) := ⟨rfl, -14, rfl, by decide⟩
  obtain ⟨written, ws, hwrite, hdts, hnonneg, _, _, hzero⟩ :=
    @shifted_together (shiftedPair ⟨1, 1000⟩ ⟨1, 30⟩ 0 2) (⟨⟨1, 1000⟩, 0, 0⟩, -500)
      [(⟨⟨1, 30⟩, 0, 0⟩, -14)] [(dtsPacket 1 (-14), [])] (dtsPacket 0 (-500)) [dtsPacket 1 (-14)]
      hready (.cons ⟨hfirst, by decide +kernel⟩ (.cons ⟨hsecond, by decide +kernel⟩ .nil))
      (.cons (by decide +kernel) (.cons (by simp) .nil)) (by simp)
      (by simp only [shiftedPair]; decide)
  exact ⟨written, ws, hwrite, hdts, hnonneg, hzero rfl⟩

/-- A first packet that the rounded offset takes to zero, and one of the same time
that it does not. -/
theorem rounded_offset_leaves_negative :
    Ready (shiftedPair ⟨1, 1⟩ ⟨1, 1000⟩ 600000 1) ∧
    timeOf (-1) ⟨1, 1⟩ ≤ timeOf (-1000) ⟨1, 1000⟩ ∧
    (writePackets (shiftedPair ⟨1, 1⟩ ⟨1, 1000⟩ 600000 1)
      [(dtsPacket 0 (-1), []), (dtsPacket 1 (-1000), [])]).map (·.map AVPacket.dts) =
        some [some 0, some (-400)] :=
  ⟨shiftedPair_ready (by decide) (by decide) 600000 1, by decide +kernel, by decide +kernel⟩

end P2PFFmpeg.Mux
