import P2PFFmpeg.Payload.AccessUnit
import P2PFFmpeg.Rtp.Context
import P2PFFmpeg.Util.Error

/-!
A pointer into the access unit is the bytes from it to the end. A function gives
`none` where the source copies a negative number of bytes or loops for ever.
-/

namespace P2PFFmpeg.Payload

open Util

inductive AVCodecID
  | h264
  | hevc
deriving DecidableEq, Repr

structure RtpPacket where
  marker : Bool
  payloadType : UInt8
  seq : UInt16
  timestamp : UInt32
  ssrc : UInt32
  payload : List UInt8
deriving DecidableEq, Repr

/-- The parts of the muxer that the packetizer uses. `buf` holds the bytes from
`buf` to `buf_ptr`, `sent` what was written to the output. -/
structure RTPMuxContext where
  codecId : AVCodecID
  payloadType : UInt8
  ssrc : UInt32
  seq : UInt16
  timestamp : UInt32
  curTimestamp : UInt32
  maxPayloadSize : Nat
  packetCount : UInt32
  octetCount : UInt32
  buf : List UInt8
  nalLengthSize : Nat
  bufferedNals : Nat
  mode0 : Bool
  sent : List RtpPacket
deriving DecidableEq, Repr

def ffRtpSendData (s : RTPMuxContext) (buf1 : List UInt8) (len : Int) (m : Bool) : RTPMuxContext :=
  { s with
    seq := s.seq + 1
    octetCount := s.octetCount + UInt32.ofInt len
    packetCount := s.packetCount + 1
    sent := s.sent ++ [{
      marker := m
      payloadType := s.payloadType &&& 0x7F
      seq := s.seq
      timestamp := s.timestamp
      ssrc := s.ssrc
      payload := buf1.take len.toNat }] }

def flushBuffered (s : RTPMuxContext) (last : Bool) : RTPMuxContext :=
  let sent :=
    if s.buf = [] then s
    else if s.bufferedNals = 1 then
      match s.codecId with
      | .h264 => ffRtpSendData s (s.buf.drop 3) (s.buf.length - 3) last
      | .hevc => ffRtpSendData s (s.buf.drop 4) (s.buf.length - 4) last
    else ffRtpSendData s s.buf s.buf.length last
  { sent with buf := [], bufferedNals := 0 }

def aggregateHeader : AVCodecID → List UInt8
  | .h264 => [24]
  | .hevc => [(48 : UInt8) <<< 1, 1]

def fragmentHeader (codec : AVCodecID) (buf : List UInt8) : List UInt8 × UInt8 :=
  match codec with
  | .h264 => ([28 ||| byteAt buf 0 &&& 0x60], byteAt buf 0 &&& 0x1F ||| 0x80)
  | .hevc => ([(49 : UInt8) <<< 1, 1], (byteAt buf 0 >>> 1) &&& 0x3F ||| 0x80)

def sendFragments (s : RTPMuxContext) (head : List UInt8) (fuHeader : UInt8) (buf : List UInt8)
    (last : Bool) : Option RTPMuxContext :=
  let headerSize := head.length + 1
  if buf.length + headerSize > s.maxPayloadSize then
    if s.maxPayloadSize ≤ headerSize then none
    else
      sendFragments
        (ffRtpSendData s (head ++ fuHeader :: buf.take (s.maxPayloadSize - headerSize))
          s.maxPayloadSize false)
        head (fuHeader &&& 0x7F) (buf.drop (s.maxPayloadSize - headerSize)) last
  else
    some (ffRtpSendData s (head ++ (fuHeader ||| 0x40) :: buf) (buf.length + headerSize) last)
termination_by buf.length
decreasing_by
  simp only [List.length_drop]
  omega

def sendWhole (s : RTPMuxContext) (buf : List UInt8) (size : Int) (last : Bool) :
    Option RTPMuxContext :=
  let headerSize := (aggregateHeader s.codecId).length
  let skipAggregate := s.codecId = .h264 && s.mode0
  let s := if s.buf.length + 2 + size > s.maxPayloadSize then flushBuffered s false else s
  if s.buf.length + 2 + headerSize + size ≤ s.maxPayloadSize ∧ ¬skipAggregate then
    if size < 0 then none
    else some { s with
      buf := (if s.buf = [] then aggregateHeader s.codecId else s.buf) ++ beBytes 2 size.toNat ++
        buf.take size.toNat
      bufferedNals := s.bufferedNals + 1 }
  else some (ffRtpSendData (flushBuffered s false) buf size last)

def sendFragmented (s : RTPMuxContext) (buf : List UInt8) (size : Int) (last : Bool) :
    Option RTPMuxContext :=
  let s := flushBuffered s false
  if s.codecId = .h264 ∧ s.mode0 then some s
  else
    let unit := buf.take size.toNat
    let (head, fuHeader) := fragmentHeader s.codecId unit
    sendFragments s head fuHeader (unit.drop head.length) last

def nalSend (s : RTPMuxContext) (buf : List UInt8) (size : Int) (last : Bool) :
    Option RTPMuxContext :=
  if size ≤ s.maxPayloadSize then sendWhole s buf size last else sendFragmented s buf size last

/-- `while (!*(r++));` -/
def skipStartCode : List UInt8 → List UInt8
  | [] => []
  | b :: rest => if b = 0 then skipStartCode rest else rest

theorem length_skipStartCode (r : List UInt8) (h : r ≠ []) : (skipStartCode r).length < r.length := by
  induction r with
  | nil => exact absurd rfl h
  | cons b rest ih =>
      unfold skipStartCode
      split
      · cases rest with
        | nil => exact Nat.zero_lt_one
        | cons c rest => exact Nat.lt_succ_of_lt (ih (by simp))
      · exact Nat.lt_succ_self _

def unitEnd (r : List UInt8) (n : Nat) : Nat := (ffAvcMp4FindStartcode r n).getD r.length

theorem unitEnd_pos {r : List UInt8} {n : Nat} (hr : r ≠ []) (hn : n ≠ 0) : 0 < unitEnd r n := by
  unfold unitEnd ffAvcMp4FindStartcode
  split
  · exact List.length_pos_iff.mpr hr
  · dsimp only
    split
    · exact List.length_pos_iff.mpr hr
    · exact Nat.lt_of_lt_of_le (Nat.pos_of_ne_zero hn) (Nat.le_add_right _ _)

/-- The loop over the units; `addr` is the address of `r`. -/
def sendUnits (s : RTPMuxContext) (addr : Nat) (r : List UInt8) : Option RTPMuxContext :=
  if _h : r = [] then some s
  else if _hn : s.nalLengthSize ≠ 0 then
    let r1 := unitEnd r s.nalLengthSize
    (nalSend s (r.drop s.nalLengthSize) (r1 - s.nalLengthSize) (r1 = r.length)).bind fun s =>
      sendUnits s (addr + r1) (r.drop r1)
  else
    let unit := skipStartCode r
    let start := addr + (r.length - unit.length)
    let r1 := ffAvcFindStartcode start unit
    (nalSend s unit r1 (r1 = unit.length)).bind fun s =>
      sendUnits s (start + r1) (unit.drop r1)
termination_by r.length
decreasing_by
  · have := unitEnd_pos _h _hn
    have := List.length_pos_iff.mpr _h
    simp only [List.length_drop]
    omega
  · have := length_skipStartCode r _h
    simp only [List.length_drop]
    omega

def ffRtpSendH264Hevc (s : RTPMuxContext) (addr : Nat) (buf1 : List UInt8) : Option RTPMuxContext :=
  let s := { s with timestamp := s.curTimestamp, buf := [] }
  let start :=
    if s.nalLengthSize ≠ 0 then
      if (ffAvcMp4FindStartcode buf1 s.nalLengthSize).isSome then 0 else buf1.length
    else ffAvcFindStartcode addr buf1
  (sendUnits s (addr + start) (buf1.drop start)).map fun s => flushBuffered s true

open Rtp (AVStream)

def startSequence : List UInt8 := [0, 0, 0, 1]

/-- `av_new_packet` on an empty packet: the data is filled in by the caller. -/
def newPacket (avNewPacket : Bool) (pkt : AVPacket) (data : List UInt8) : Int × AVPacket :=
  if avNewPacket then (0, { AVPacket.blank with data := data }) else (averrorEnomem, pkt)

def countAggregate (skipBetween : Nat) (src : List UInt8) (totalLength : Nat) : Option Nat :=
  if _h : src.length > 2 then
    let nalSize := (avRb16 src 0).toNat
    let rest := src.drop 2
    if nalSize ≤ rest.length then
      countAggregate skipBetween (rest.drop (nalSize + skipBetween))
        (totalLength + startSequence.length + nalSize)
    else none
  else some totalLength
termination_by src.length
decreasing_by
  simp only [List.length_drop]
  omega

def copyAggregate (skipBetween : Nat) (src dst : List UInt8) : Option (List UInt8) :=
  if _h : src.length > 2 then
    let nalSize := (avRb16 src 0).toNat
    let rest := src.drop 2
    if nalSize ≤ rest.length then
      copyAggregate skipBetween (rest.drop (nalSize + skipBetween))
        (dst ++ startSequence ++ rest.take nalSize)
    else none
  else some dst
termination_by src.length
decreasing_by
  simp only [List.length_drop]
  omega

/-- The packet has room for the bytes counted; what the second pass does not
fill stays zero. -/
def ffH264HandleAggregatedPacket (avNewPacket : Bool) (pkt : AVPacket) (buf : List UInt8)
    (skipBetween : Nat) : Int × AVPacket :=
  match countAggregate skipBetween buf 0 with
  | none => (averrorInvaliddata, pkt)
  | some totalLength =>
      let (ret, pkt) := newPacket avNewPacket pkt (List.replicate totalLength 0)
      if ret < 0 then (ret, pkt)
      else match copyAggregate skipBetween buf [] with
        | none => (averrorInvaliddata, pkt)
        | some dst => (0, { pkt with data := dst ++ pkt.data.drop dst.length })

def ffH264HandleFragPacket (avNewPacket : Bool) (pkt : AVPacket) (buf : List UInt8)
    (startBit : Bool) (nalHeader : List UInt8) : Int × AVPacket :=
  newPacket avNewPacket pkt ((if startBit then startSequence ++ nalHeader else []) ++ buf)

def h264HandlePacketFuA (avNewPacket : Bool) (pkt : AVPacket) (buf : List UInt8) : Int × AVPacket :=
  if buf.length < 3 then (averrorInvaliddata, pkt)
  else
    let fuIndicator := byteAt buf 0
    let fuHeader := byteAt buf 1
    let nalType := fuHeader &&& 0x1F
    let nal := fuIndicator &&& 0xE0 ||| nalType
    ffH264HandleFragPacket avNewPacket pkt (buf.drop 2) (fuHeader >>> 7 ≠ 0) [nal]

/-- The empty payload is refused before the packet is touched. -/
def h264HandlePacket (avNewPacket : Bool) (st : AVStream) (pkt : AVPacket) (buf : List UInt8) :
    Int × AVPacket :=
  if buf = [] then (averrorInvaliddata, pkt)
  else
    let type := byteAt buf 0 &&& 0x1F
    let (result, pkt) :=
      if type ≤ 23 then newPacket avNewPacket pkt (startSequence ++ buf)
      else if type = 24 then ffH264HandleAggregatedPacket avNewPacket pkt (buf.drop 1) 0
      else if type = 28 then h264HandlePacketFuA avNewPacket pkt buf
      else if type = 25 ∨ type = 26 ∨ type = 27 ∨ type = 29 then (averrorPatchwelcome, pkt)
      else (averrorInvaliddata, pkt)
    if type ≤ 23 ∧ result < 0 then (result, pkt)
    else (result, { pkt with streamIndex := st.index })

/-- What a handler makes of a payload; `none` when it refuses it. -/
def output (handler : AVPacket → List UInt8 → Int × AVPacket) (payload : List UInt8) :
    Option (List UInt8) :=
  let (ret, pkt) := handler .blank payload
  if ret < 0 then none else some pkt.data

def depacketize (handler : AVPacket → List UInt8 → Int × AVPacket) :
    List (List UInt8) → Option (List UInt8)
  | [] => some []
  | payload :: rest =>
      (output handler payload).bind fun out => (depacketize handler rest).map (out ++ ·)

def receivedUnits (units : List (List UInt8)) : List UInt8 :=
  units.flatMap fun u => startSequence ++ u

@[simp] theorem receivedUnits_nil : receivedUnits [] = [] := rfl

@[simp] theorem receivedUnits_cons (u : List UInt8) (units : List (List UInt8)) :
    receivedUnits (u :: units) = startSequence ++ u ++ receivedUnits units := by
  simp [receivedUnits]

@[simp] theorem receivedUnits_append (us vs : List (List UInt8)) :
    receivedUnits (us ++ vs) = receivedUnits us ++ receivedUnits vs := by
  simp [receivedUnits]

theorem depacketize_append (handler : AVPacket → List UInt8 → Int × AVPacket)
    (ps qs : List (List UInt8)) : depacketize handler (ps ++ qs) =
      (depacketize handler ps).bind fun xs => (depacketize handler qs).map (xs ++ ·) := by
  induction ps with
  | nil =>
      rw [List.nil_append, depacketize, Option.bind_some]
      simp only [List.nil_append, Option.map_id']
  | cons p ps ih =>
      rw [List.cons_append, depacketize, depacketize, ih]
      cases output handler p with
      | none => rfl
      | some x =>
          cases depacketize handler ps with
          | none => rfl
          | some xs =>
              cases depacketize handler qs with
              | none => rfl
              | some ys => simp

theorem depacketize_singleton {handler : AVPacket → List UInt8 → Int × AVPacket}
    {payload xs : List UInt8} (h : output handler payload = some xs) :
    depacketize handler [payload] = some xs := by
  simp [depacketize, h]

/-- The units of an aggregation packet: a length of 16 bits, the unit and some bytes
to be skipped, until at most 2 bytes are left. -/
def aggregatedUnits (skip : Nat) (buf : List UInt8) : Option (List (List UInt8)) :=
  if _h : buf.length > 2 then
    let size := (avRb16 buf 0).toNat
    let rest := buf.drop 2
    if size ≤ rest.length then
      (aggregatedUnits skip (rest.drop (size + skip))).map (rest.take size :: ·)
    else none
  else some []
termination_by buf.length
decreasing_by
  simp only [List.length_drop]
  omega

def aggregated (units : List (List UInt8)) : List UInt8 := withLengths 2 units

theorem length_aggregated (units : List (List UInt8)) :
    (aggregated units).length = (units.map fun u => 2 + u.length).sum := by
  simp [aggregated, withLengths, List.length_flatMap, length_beBytes]

def Aggregable (u : List UInt8) : Prop := 0 < u.length ∧ u.length < 65536

variable {units : List (List UInt8)}

theorem countAggregate_units (skip : Nat) (src : List UInt8) (n : Nat) : countAggregate skip src n =
    (aggregatedUnits skip src).map fun us => n + (receivedUnits us).length := by
  induction src, n using countAggregate.induct skip with
  | case1 src n hlong size rest hfits ih =>
      rw [countAggregate, aggregatedUnits, dif_pos hlong, dif_pos hlong]
      dsimp only
      rw [if_pos hfits, if_pos hfits, ih, Option.map_map]
      congr 1
      funext us
      have htake : (rest.take size).length = size := List.length_take_of_le hfits
      change n + startSequence.length + size + (receivedUnits us).length =
        n + (receivedUnits (rest.take size :: us)).length
      rw [receivedUnits_cons, List.length_append, List.length_append, htake]
      omega
  | case2 src n hlong size rest hfits =>
      rw [countAggregate, aggregatedUnits, dif_pos hlong, dif_pos hlong]
      dsimp only
      rw [if_neg hfits, if_neg hfits, Option.map_none]
  | case3 src n hshort =>
      rw [countAggregate, aggregatedUnits, dif_neg hshort, dif_neg hshort]
      rfl

theorem copyAggregate_units (skip : Nat) (src dst : List UInt8) : copyAggregate skip src dst =
    (aggregatedUnits skip src).map (dst ++ receivedUnits ·) := by
  induction src, dst using copyAggregate.induct skip with
  | case1 src dst hlong size rest hfits ih =>
      rw [copyAggregate, aggregatedUnits, dif_pos hlong, dif_pos hlong]
      dsimp only
      rw [if_pos hfits, if_pos hfits, ih, Option.map_map]
      congr 1
      funext us
      change dst ++ startSequence ++ rest.take size ++ receivedUnits us =
        dst ++ receivedUnits (rest.take size :: us)
      rw [receivedUnits_cons]
      simp only [List.append_assoc]
  | case2 src dst hlong size rest hfits =>
      rw [copyAggregate, aggregatedUnits, dif_pos hlong, dif_pos hlong]
      dsimp only
      rw [if_neg hfits, if_neg hfits, Option.map_none]
  | case3 src dst hshort =>
      rw [copyAggregate, aggregatedUnits, dif_neg hshort, dif_neg hshort, Option.map_some,
        receivedUnits_nil, List.append_nil]

theorem ffH264HandleAggregatedPacket_units {skip : Nat} {buf : List UInt8} (memory : Bool)
    (pkt : AVPacket) {us : List (List UInt8)} (h : aggregatedUnits skip buf = some us) :
    ffH264HandleAggregatedPacket memory pkt buf skip =
      if memory then (0, { AVPacket.blank with data := receivedUnits us }) else (averrorEnomem, pkt) := by
  unfold ffH264HandleAggregatedPacket
  rw [countAggregate_units, copyAggregate_units, h]
  cases memory with
  | true => simp [newPacket]
  | false => rfl

theorem aggregatedUnits_aggregated (h : ∀ u ∈ units, Aggregable u) :
    aggregatedUnits 0 (aggregated units) = some units := by
  induction units with
  | nil => rw [aggregatedUnits, dif_neg (by simp [aggregated])]
  | cons u units ih =>
      have hu := h u (by simp)
      have hsplit : aggregated (u :: units) = beBytes 2 u.length ++ (u ++ aggregated units) := by
        simp [aggregated]
      rw [hsplit, aggregatedUnits, dif_pos (by simp [length_beBytes]; have := hu.1; omega)]
      have hdrop : (beBytes 2 u.length ++ (u ++ aggregated units)).drop 2 = u ++ aggregated units :=
        List.drop_left' (length_beBytes _ _)
      simp only [avRb16_beBytes hu.2, hdrop]
      rw [if_pos (by simp), Nat.add_zero, List.drop_left, List.take_left,
        ih fun v hv => h v (by simp [hv]), Option.map_some]

theorem handleAggregated_eq (h : ∀ u ∈ units, Aggregable u) (pkt : AVPacket) :
    ffH264HandleAggregatedPacket true pkt (aggregated units) 0 =
      (0, { AVPacket.blank with data := receivedUnits units }) := by
  rw [ffH264HandleAggregatedPacket_units true pkt (aggregatedUnits_aggregated h), if_pos rfl]

/-- A unit of a type that the payload format leaves to the codec. -/
structure H264Nal extends Nal where
  single : 1 ≤ byteAt bytes 0 &&& 0x1F ∧ byteAt bytes 0 &&& 0x1F ≤ 23
  forbidden : byteAt bytes 0 &&& 0x80 = 0

theorem forall_byte {p : UInt8 → Prop} (h : ∀ n : Fin 256, p (UInt8.ofNat n)) (b : UInt8) : p b := by
  have hb := h ⟨b.toNat, b.toNat_lt⟩
  rwa [UInt8.ofNat_toNat] at hb

theorem h264_whole (st : AVStream) (u : H264Nal) :
    output (h264HandlePacket true st) u.bytes = some (startSequence ++ u.bytes) := by
  have hle : byteAt u.bytes 0 &&& 0x1F ≤ 23 := u.single.2
  simp [output, h264HandlePacket, u.nonempty, hle, newPacket]

theorem h264_aggregate (st : AVStream) (h : ∀ u ∈ units, Aggregable u) :
    output (h264HandlePacket true st) (24 :: aggregated units) = some (receivedUnits units) := by
  have htype : byteAt (24 :: aggregated units) 0 &&& 0x1F = 24 := by
    change (24 : UInt8) &&& 0x1F = 24
    decide
  simp [output, h264HandlePacket, htype, handleAggregated_eq h]

theorem h264_fragment (st : AVStream) {indicator header : UInt8} {data : List UInt8}
    (hind : indicator &&& 0x1F = 28) (hdata : data ≠ []) :
    output (h264HandlePacket true st) (indicator :: header :: data) =
      some ((if header >>> 7 ≠ 0 then
        startSequence ++ [indicator &&& 0xE0 ||| header &&& 0x1F] else []) ++ data) := by
  have htype : byteAt (indicator :: header :: data) 0 &&& 0x1F = 28 := hind
  have hpos := List.length_pos_iff.mpr hdata
  have hlen : ¬(indicator :: header :: data).length < 3 := by
    simp only [List.length_cons]
    omega
  have hfu : h264HandlePacketFuA true .blank (indicator :: header :: data) =
      (0, { AVPacket.blank with data := (if header >>> 7 ≠ 0 then
        startSequence ++ [indicator &&& 0xE0 ||| header &&& 0x1F] else []) ++ data }) := by
    rw [h264HandlePacketFuA, if_neg hlen]
    simp [ffH264HandleFragPacket, newPacket, byteAt]
  simp [output, h264HandlePacket, htype, hfu]

end P2PFFmpeg.Payload
