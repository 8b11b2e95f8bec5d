import P2PFFmpeg.Payload.RoundTrip
import P2PFFmpeg.Util.Error

/-!
The muxer with any of its simple packetizers, and what they store in its buffer.
A function gives `none` where the source copies a negative number of bytes, divides
by zero or loops for ever.
-/

namespace P2PFFmpeg.Payload

open Util

/-- A store of some bytes into `s->buf`. -/
structure Store where
  offset : Nat
  length : Nat
deriving DecidableEq, Repr

structure Muxer extends RTPMuxContext where
  stores : List Store
deriving DecidableEq, Repr

/-- The packetizers, with the size of a sample in bits where there is one. -/
inductive Packetizer
  | samples (sampleSizeBits : Nat)
  | mpegaudio
  | raw
  | mpegtsRaw
  | h264Hevc
deriving DecidableEq, Repr

def int32 (x : Int) : Int := (Int32.ofInt x).toInt

def tsPacketSize : Nat := 188

def Muxer.sendData (s : Muxer) (buf1 : List UInt8) (len : Int) (m : Bool) : Muxer :=
  { s with toRTPMuxContext := ffRtpSendData s.toRTPMuxContext buf1 len m }

def Muxer.append (s : Muxer) (chunk : List UInt8) : Muxer :=
  { s with
    buf := s.buf ++ chunk
    stores := s.stores ++ [⟨s.buf.length, chunk.length⟩] }

def samplesLoop (s : Muxer) (sampleSizeBits maxPacketSize n : Nat) (buf1 : List UInt8) :
    Option Muxer :=
  if _h : buf1 = [] then some s
  else
    let len := min maxPacketSize buf1.length
    if _hlen : len = 0 then none
    else
      let s := { s with
        buf := buf1.take len
        stores := s.stores ++ [Store.mk 0 len]
        timestamp := s.curTimestamp + UInt32.ofInt ((int32 (n * 8)).tdiv sampleSizeBits) }
      samplesLoop (s.sendData s.buf s.buf.length false) sampleSizeBits maxPacketSize
        (n + s.buf.length) (buf1.drop len)
termination_by buf1.length
decreasing_by
  have := List.length_pos_iff.mpr _h
  simp only [List.length_drop]
  omega

def rtpSendSamples (s : Muxer) (buf1 : List UInt8) (sampleSizeBits : Nat) : Option (Int × Muxer) :=
  let alignedSamplesSize := sampleSizeBits / Nat.gcd sampleSizeBits 8
  if alignedSamplesSize = 0 then none
  else
    let maxPacketSize := s.maxPayloadSize / alignedSamplesSize * alignedSamplesSize
    if sampleSizeBits % 8 = 0 ∧ (int32 (8 * buf1.length)).tmod sampleSizeBits ≠ 0 then
      some (averrorEinval, s)
    else (samplesLoop s sampleSizeBits maxPacketSize 0 buf1).map fun s => (0, s)

/-- The loop over the fragments of a packet. The four bytes of the header stay in the
buffer, in front of `buf_ptr`. -/
def audioFragments (s : Muxer) (count : Nat) (buf1 : List UInt8) : Option Muxer :=
  if _h : buf1 = [] then some s
  else if _hlen : s.maxPayloadSize ≤ 4 then none
  else
    let len := min (s.maxPayloadSize - 4) buf1.length
    let header := [0, 0, UInt8.ofNat (count / 256), UInt8.ofNat count]
    let s := { s with buf := header, stores := s.stores ++ [Store.mk 0 4, Store.mk 4 len] }
    audioFragments (s.sendData (header ++ buf1.take len) (len + 4) false) (count + len)
      (buf1.drop len)
termination_by buf1.length
decreasing_by
  have := List.length_pos_iff.mpr _h
  simp only [List.length_drop]
  omega

def audioFlush (s : Muxer) (size : Nat) : Muxer :=
  let len := s.buf.length
  if len + size > s.maxPayloadSize ∧ len > 4 then
    { s.sendData s.buf s.buf.length false with buf := s.buf.take 4 }
  else s

def rtpSendMpegaudio (s : Muxer) (buf1 : List UInt8) : Option Muxer :=
  let s := audioFlush s buf1.length
  let s := { s with timestamp := if s.buf.length = 4 then s.curTimestamp else s.timestamp }
  if buf1.length > s.maxPayloadSize then audioFragments s 0 buf1
  else
    let s :=
      if s.buf.length = 4 then { s with buf := [0, 0, 0, 0], stores := s.stores ++ [Store.mk 0 4] }
      else s
    some (s.append buf1)

def rtpSendRaw (s : Muxer) (buf1 : List UInt8) : Option Muxer :=
  if _h : buf1 = [] then some s
  else
    let len := min s.maxPayloadSize buf1.length
    if _hlen : len = 0 then none
    else
      let s := { s with timestamp := s.curTimestamp }
      rtpSendRaw (s.sendData buf1 len (len = buf1.length)) (buf1.drop len)
termination_by buf1.length
decreasing_by
  have := List.length_pos_iff.mpr _h
  simp only [List.length_drop]
  omega

/-- One round of the loop: the copy, and the packet when the buffer is full. -/
def mpegtsRound (s : Muxer) (chunk : List UInt8) : Muxer :=
  let s := s.append chunk
  if s.buf.length ≥ s.maxPayloadSize then { s.sendData s.buf s.buf.length false with buf := [] }
  else s

def mpegtsLoop (s : Muxer) (buf1 : List UInt8) : Option Muxer :=
  if _h : tsPacketSize ≤ buf1.length then
    if s.maxPayloadSize < s.buf.length then none
    else
      let len := min (s.maxPayloadSize - s.buf.length) buf1.length
      if _hlen : len = 0 then
        if _hbuf : s.buf = [] then none
        else mpegtsLoop (mpegtsRound s []) buf1
      else mpegtsLoop (mpegtsRound s (buf1.take len)) (buf1.drop len)
  else some s
termination_by (buf1.length, s.buf.length)
decreasing_by
  · have := List.length_pos_iff.mpr _hbuf
    have hfull : s.maxPayloadSize ≤ s.buf.length := by
      simp only [tsPacketSize] at _h
      omega
    simp only [mpegtsRound, Muxer.append, List.append_nil, ge_iff_le, hfull, if_true]
    exact Prod.Lex.right _ this
  · refine Prod.Lex.left _ _ ?_
    simp only [tsPacketSize, List.length_drop] at *
    omega

def rtpSendMpegtsRaw (s : Muxer) (buf1 : List UInt8) : Option Muxer :=
  mpegtsLoop { s with timestamp := s.curTimestamp } buf1

/-- What the loop hands to `nal_send`. -/
structure Cut where
  buf : List UInt8
  size : Int
  last : Bool

def cuts (nalLengthSize addr : Nat) (r : List UInt8) : List Cut :=
  if _h : r = [] then []
  else if _hn : nalLengthSize ≠ 0 then
    let r1 := unitEnd r nalLengthSize
    ⟨r.drop nalLengthSize, r1 - nalLengthSize, r1 = r.length⟩ ::
      cuts nalLengthSize (addr + r1) (r.drop r1)
  else
    let unit := skipStartCode r
    let start := addr + (r.length - unit.length)
    let r1 := ffAvcFindStartcode start unit
    ⟨unit, r1, r1 = unit.length⟩ :: cuts nalLengthSize (start + r1) (unit.drop r1)
termination_by r.length
decreasing_by
  · have := unitEnd_pos _h _hn
    have := List.length_pos_iff.mpr _h
    simp only [List.length_drop]
    omega
  · have := length_skipStartCode r _h
    simp only [List.length_drop]
    omega

def packetCuts (nalLengthSize addr : Nat) (buf1 : List UInt8) : List Cut :=
  let start :=
    if nalLengthSize ≠ 0 then
      if (ffAvcMp4FindStartcode buf1 nalLengthSize).isSome then 0 else buf1.length
    else ffAvcFindStartcode addr buf1
  cuts nalLengthSize (addr + start) (buf1.drop start)

def fragmentStores (maxPayloadSize headerSize flagByte n : Nat) : List Store :=
  if n + headerSize > maxPayloadSize then
    if maxPayloadSize ≤ headerSize then []
    else
      ⟨headerSize, maxPayloadSize - headerSize⟩ :: ⟨flagByte, 1⟩ ::
        fragmentStores maxPayloadSize headerSize flagByte (n - (maxPayloadSize - headerSize))
  else [⟨flagByte, 1⟩, ⟨headerSize, n⟩]
termination_by n

/-- The stores of `nal_send`. -/
def nalStores (s : RTPMuxContext) (size : Int) : List Store :=
  let headerSize := (aggregateHeader s.codecId).length
  let mode0 := s.codecId = .h264 ∧ s.mode0
  if size ≤ s.maxPayloadSize then
    let bufferedSize := if s.buf.length + 2 + size > s.maxPayloadSize then 0 else s.buf.length
    if bufferedSize + 2 + headerSize + size ≤ s.maxPayloadSize ∧ ¬mode0 then
      let start := if bufferedSize = 0 then headerSize else bufferedSize
      (if bufferedSize = 0 then [⟨0, headerSize⟩] else []) ++
        [⟨start, 2⟩, ⟨start + 2, size.toNat⟩]
    else []
  else if mode0 then []
  else
    ⟨0, headerSize + 1⟩ ::
      fragmentStores s.maxPayloadSize (headerSize + 1) headerSize (size.toNat - headerSize)

def cutStores (s : RTPMuxContext) : List Cut → List Store
  | [] => []
  | c :: cs =>
      nalStores s c.size ++ match nalSend s c.buf c.size c.last with
        | none => []
        | some s => cutStores s cs

/-- `ff_rtp_send_h264_hevc` with its stores. -/
def sendH264Hevc (s : Muxer) (addr : Nat) (buf1 : List UInt8) : Option Muxer :=
  (ffRtpSendH264Hevc s.toRTPMuxContext addr buf1).map fun t =>
    { toRTPMuxContext := t
      stores := s.stores ++ cutStores { s.toRTPMuxContext with timestamp := s.curTimestamp, buf := [] }
        (packetCuts s.nalLengthSize addr buf1) }

/-- `max_payload_size` after the header has been written. -/
def payloadSize (p : Packetizer) (packetSize : Nat) : Nat :=
  match p with
  | .mpegtsRaw => max 1 ((packetSize - 12) / tsPacketSize) * tsPacketSize
  | _ => packetSize - 12

/-- The muxer with a buffer of `packetSize` bytes that hold `mem`. -/
def rtpWriteHeader (p : Packetizer) (packetSize : Nat) (mem : List UInt8) (s : RTPMuxContext) :
    Option Muxer :=
  if packetSize ≤ 12 then none
  else some { s with
    maxPayloadSize := payloadSize p packetSize
    buf := if p = .mpegaudio then mem.take 4 else []
    stores := [] }

def rtpWritePacket (p : Packetizer) (s : Muxer) (w : Write) : Option (Int × Muxer) :=
  let s := { s with curTimestamp := w.curTimestamp }
  match p with
  | .samples sampleSizeBits => rtpSendSamples s w.data sampleSizeBits
  | .mpegaudio => (rtpSendMpegaudio s w.data).map fun s => (0, s)
  | .raw => (rtpSendRaw s w.data).map fun s => (0, s)
  | .mpegtsRaw => (rtpSendMpegtsRaw s w.data).map fun s => (0, s)
  | .h264Hevc => (sendH264Hevc s w.addr w.data).map fun s => (0, s)

end P2PFFmpeg.Payload
