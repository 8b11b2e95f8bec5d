import Mathlib.Data.List.Basic
import P2PFFmpeg.Util.Error
import P2PFFmpeg.Util.Packet

namespace P2PFFmpeg.Rtp

open Util

/-- The receiver's statistics of one RTP stream. -/
structure RTPStatistics where
  maxSeq : UInt16
  cycles : UInt32
  baseSeq : UInt32
  badSeq : UInt32
  probation : Nat
  received : UInt32
  expectedPrior : UInt32
  receivedPrior : UInt32
  transit : UInt32
  jitter : UInt32
deriving DecidableEq, Repr

def rtpSeqMod : UInt32 := 65536

def rtpInitStatistics (baseSequence : UInt16) : RTPStatistics where
  maxSeq := baseSequence
  cycles := 0
  baseSeq := 0
  badSeq := 0
  probation := 1
  received := 0
  expectedPrior := 0
  receivedPrior := 0
  transit := 0
  jitter := 0

def rtpInitSequence (s : RTPStatistics) (seq : UInt16) : RTPStatistics :=
  { s with
    maxSeq := seq
    cycles := 0
    baseSeq := seq.toUInt32 - 1
    badSeq := rtpSeqMod + 1
    received := 0
    expectedPrior := 0
    receivedPrior := 0
    jitter := 0
    transit := 0 }

def maxDropout : Nat := 3000

def maxMisorder : Nat := 100

def minSequential : Nat := 2

/-- Whether the packet is handled, and the statistics after it. -/
def rtpValidPacketInSequence (s : RTPStatistics) (seq : UInt16) : Bool × RTPStatistics :=
  let udelta := (seq - s.maxSeq).toNat
  if s.probation ≠ 0 then
    -- the comparison is made in int: the successor of 65535 is 65536
    if seq.toNat = s.maxSeq.toNat + 1 then
      let s := { s with probation := s.probation - 1, maxSeq := seq }
      if s.probation = 0 then
        let s := rtpInitSequence s seq
        (true, { s with received := s.received + 1 })
      else (true, { s with received := s.received + 1 })
    else
      (true, { s with probation := minSequential - 1, maxSeq := seq, received := s.received + 1 })
  else if udelta < maxDropout then
    let cycles := if seq < s.maxSeq then s.cycles + rtpSeqMod else s.cycles
    (true, { s with cycles := cycles, maxSeq := seq, received := s.received + 1 })
  else if udelta ≤ rtpSeqMod.toNat - maxMisorder then
    if seq.toUInt32 = s.badSeq then
      let s := rtpInitSequence s seq
      (true, { s with received := s.received + 1 })
    else (false, { s with badSeq := (seq.toUInt32 + 1) % rtpSeqMod })
  else (true, { s with received := s.received + 1 })

/-- `FFABS` of the difference of two transit times read as a signed number. -/
def absDifference (transit prevTransit : UInt32) : UInt32 :=
  let d := transit - prevTransit
  if d.toNat < 2147483648 then d else -d

def rtcpUpdateJitter (s : RTPStatistics) (sentTimestamp arrivalTimestamp : UInt32) :
    RTPStatistics :=
  let transit := arrivalTimestamp - sentTimestamp
  let prevTransit := s.transit
  let d := absDifference transit prevTransit
  let s := { s with transit := transit }
  if prevTransit = 0 then s
  else { s with jitter := s.jitter + (d - (s.jitter + 8) / 16) }

section

variable {σ : Type}

structure Buffer where
  addr : Nat
  data : List UInt8
deriving DecidableEq, Repr

structure RTPPacket where
  seq : UInt16
  buf : Buffer
  recvtime : Int
deriving DecidableEq, Repr

/-- The RTP packet a payload handler is given; a NULL buffer is no payload. -/
structure Payload where
  buf : List UInt8
  seq : UInt16
  marker : Bool
deriving DecidableEq, Repr

structure Handled (σ : Type) where
  rv : Int
  ctx : σ
  pkt : AVPacket
  timestamp : UInt32

/-- `RTPDynamicProtocolHandler.parse_packet` over payload contexts of type `σ`. -/
structure RTPDynamicProtocolHandler (σ : Type) where
  parsePacket : σ → AVPacket → UInt32 → Option Payload → Handled σ

structure AVStream where
  index : Int
  timeBase : AVRational
deriving DecidableEq, Repr

/-- What the decoder does to packets: a packet goes through
`rtp_parse_packet_internal`, the handler is called, a queued buffer is freed. -/
inductive Call (σ : Type)
  | parse (buf : Buffer)
  | parsePacket (ctx : σ) (payload : Option Payload)
  | free (buf : Buffer)

structure RTPDemuxContext (σ : Type) where
  nbStreams : Nat
  st : Option AVStream
  payloadType : UInt8
  ssrc : UInt32
  seq : UInt16
  timestamp : UInt32
  baseTimestamp : UInt32
  unwrappedTimestamp : Int
  rangeStartOffset : Int
  srtpEnabled : Bool
  statistics : RTPStatistics
  prevRet : Int
  queue : List RTPPacket
  queueLen : Int
  queueSize : Int
  lastRtcpNtpTime : Option UInt64
  lastRtcpReceptionTime : Int
  firstRtcpNtpTime : Option UInt64
  lastRtcpTimestamp : UInt32
  rtcpTsOffset : Int
  handler : Option (RTPDynamicProtocolHandler σ)
  dynamicProtocolContext : σ
  calls : List (Call σ)

/-- What the outside decides in one call: the clock, the decryption of the
buffer, and which allocations succeed. `avNewPacket n` is the answer when `n`
calls have been recorded. -/
structure Env where
  now : Int
  ffSrtpDecrypt : List UInt8 → Option (List UInt8)
  avMallocz : Bool
  avNewPacket : Nat → Bool

structure Parsed (σ : Type) where
  rv : Int
  pkt : AVPacket
  ctx : RTPDemuxContext σ

def ffRtpParseOpen (nbStreams : Nat) (st : Option AVStream) (payloadType : UInt8)
    (queueSize : Int) (data : σ) : RTPDemuxContext σ where
  nbStreams := nbStreams
  st := st
  payloadType := payloadType
  ssrc := 0
  seq := 0
  timestamp := 0
  baseTimestamp := 0
  unwrappedTimestamp := 0
  rangeStartOffset := 0
  srtpEnabled := false
  statistics := rtpInitStatistics 0
  prevRet := 0
  queue := []
  queueLen := 0
  queueSize := queueSize
  lastRtcpNtpTime := none
  lastRtcpReceptionTime := 0
  firstRtcpNtpTime := none
  lastRtcpTimestamp := 0
  rtcpTsOffset := 0
  handler := none
  dynamicProtocolContext := data
  calls := []

def RTPDemuxContext.record (s : RTPDemuxContext σ) (call : Call σ) : RTPDemuxContext σ :=
  { s with calls := s.calls ++ [call] }

def rtpNotsValue : UInt32 := 4294967295

/-- A 32-bit difference read as a signed number. -/
def signed32 (d : UInt32) : Int := d.toBitVec.toInt

def ntpDifference (a b : UInt64) : Int := (a - b).toBitVec.toInt

def finalizePacket (s : RTPDemuxContext σ) (pkt : AVPacket) (timestamp : UInt32) :
    AVPacket × RTPDemuxContext σ :=
  if pkt.pts.isSome ∨ pkt.dts.isSome then (pkt, s)
  else if timestamp = rtpNotsValue then (pkt, s)
  else
    match s.lastRtcpNtpTime, s.st with
    | some last, some st =>
        if s.nbStreams > 1 then
          let first := s.firstRtcpNtpTime.getD 9223372036854775808
          let deltaTimestamp := signed32 (timestamp - s.lastRtcpTimestamp)
          let addend := avRescale (ntpDifference last first) st.timeBase.den
            (st.timeBase.num * 4294967296)
          ({ pkt with pts := some (s.rangeStartOffset + s.rtcpTsOffset + addend + deltaTimestamp) },
            s)
        else unwrap s pkt timestamp
    | _, _ => unwrap s pkt timestamp
where
  unwrap (s : RTPDemuxContext σ) (pkt : AVPacket) (timestamp : UInt32) :
      AVPacket × RTPDemuxContext σ :=
    let base := if s.baseTimestamp = 0 then timestamp else s.baseTimestamp
    let unwrapped :=
      if s.timestamp = 0 then s.unwrappedTimestamp + timestamp.toNat
      else s.unwrappedTimestamp + signed32 (timestamp - s.timestamp)
    ({ pkt with pts := some (unwrapped + s.rangeStartOffset - base.toNat) },
      { s with baseTimestamp := base, unwrappedTimestamp := unwrapped, timestamp := timestamp })

end

end P2PFFmpeg.Rtp
