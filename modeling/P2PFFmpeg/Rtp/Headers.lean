import P2PFFmpeg.Rtp.Reordering

/-!
The parser with every read of a packet checked against its length.
-/

namespace P2PFFmpeg.Rtp

open Util Library.Serial Library.Transition

variable {σ : Type}

/-- A read through a pointer, at an offset from the start of the packet: `none` is a
read outside of it. -/
def readU8 (data : List UInt8) (p : Int) : Option UInt8 :=
  if 0 ≤ p ∧ p < data.length then some (byteAt data p.toNat) else none

def readRb16 (data : List UInt8) (p : Int) : Option UInt16 := do
  let high ← readU8 data p
  let low ← readU8 data (p + 1)
  some (high.toUInt16 * 256 + low.toUInt16)

def readRb32 (data : List UInt8) (p : Int) : Option UInt32 := do
  let high ← readRb16 data p
  let low ← readRb16 data (p + 2)
  some (high.toUInt32 * 65536 + low.toUInt32)

def readRb64 (data : List UInt8) (p : Int) : Option UInt64 := do
  let high ← readRb32 data p
  let low ← readRb32 data (p + 4)
  some (high.toUInt64 * 4294967296 + low.toUInt64)

def readRange (data : List UInt8) (buf len : Int) : Option (List UInt8) :=
  if 0 ≤ buf ∧ 0 ≤ len ∧ buf + len ≤ data.length then some ((data.drop buf.toNat).take len.toNat) else none

def takeOffPadding (data : List UInt8) (first : UInt8) : Option Int :=
  if first &&& 0x20 ≠ 0 then do
    let padding ← readU8 data ((data.length : Int) - 1)
    some (if (data.length : Int) ≥ 12 + padding.toNat then data.length - padding.toNat else data.length)
  else some data.length

/-- Padding, fixed header, contributing sources and extension are peeled off: where
the payload starts and how long it is. -/
def payloadRange (data : List UInt8) : Option (Except Int (Int × Int)) := do
  let first ← readU8 data 0
  let csrc : Int := (first &&& 0x0f).toNat
  let len ← takeOffPadding data first
  let len := len - 12
  let buf : Int := 12
  let len := len - 4 * csrc
  let buf := buf + 4 * csrc
  if len < 0 then some (.error averrorInvaliddata)
  else if first &&& 0x10 ≠ 0 then
    if len < 4 then some (.error (-1))
    else do
      let words ← readRb16 data (buf + 2)
      let ext : Int := ((words.toNat + 1) * 4 : Nat)
      if len < ext then some (.error (-1)) else some (.ok (buf + ext, len - ext))
  else some (.ok (buf, len))

def rtpParsePacketInternalChecked (env : Env) (s : RTPDemuxContext σ) (pkt : AVPacket) (buf : Buffer) :
    Option (Parsed σ) := do
  let second ← readU8 buf.data 1
  let seq ← readRb16 buf.data 2
  let timestamp ← readRb32 buf.data 4
  let ssrc ← readRb32 buf.data 8
  let s := { s.record (.parse buf) with ssrc := ssrc }
  if s.payloadType ≠ second &&& 0x7f then some ⟨-1, pkt, s⟩
  else
    let (valid, statistics) := rtpValidPacketInSequence s.statistics seq
    let s := { s with statistics := statistics }
    if valid then do
      let s := { s with seq := seq }
      match ← payloadRange buf.data with
      | .error e => some ⟨e, pkt, s⟩
      | .ok (start, len) => do
          let payload ← readRange buf.data start len
          some (deliver env s pkt timestamp ⟨payload, seq, second &&& 0x80 ≠ 0⟩)
    else some ⟨-1, pkt, s⟩

def rtpParseQueuedPacketChecked (env : Env) (s : RTPDemuxContext σ) (pkt : AVPacket) : Option (Parsed σ) :=
  if s.queueLen ≤ 0 then some ⟨-1, pkt, s⟩
  else
    match s.queue with
    | [] => some ⟨-1, pkt, s⟩
    | packet :: rest => do
        let r ← rtpParsePacketInternalChecked env s pkt packet.buf
        let s := r.ctx.record (.free packet.buf)
        some ⟨r.rv, r.pkt, { s with queue := rest, queueLen := s.queueLen - 1 }⟩

def takeSenderReport (env : Env) (s : RTPDemuxContext σ) (ntpTime : UInt64) (timestamp : UInt32) :
    RTPDemuxContext σ :=
  let s := { s with
    lastRtcpReceptionTime := env.now
    lastRtcpNtpTime := some ntpTime
    lastRtcpTimestamp := timestamp }
  if s.firstRtcpNtpTime.isNone then
    let base := if s.baseTimestamp = 0 then timestamp else s.baseTimestamp
    { s with
      firstRtcpNtpTime := some ntpTime
      baseTimestamp := base
      rtcpTsOffset := signed32 (timestamp - base) }
  else s

/-- The loop of rtcp_parse_packet, with the turns it may take. -/
def rtcpLoop (env : Env) (data : List UInt8) : Nat → Int → Int → RTPDemuxContext σ → Option (Int × RTPDemuxContext σ)
  | 0, _, _, _ => none
  | turns + 1, buf, len, s =>
      if len ≥ 4 then do
        let words ← readRb16 data (buf + 2)
        let payloadLen : Int := min len ((words.toNat + 1) * 4 : Nat)
        let type ← readU8 data (buf + 1)
        if type = rtcpSr then
          if payloadLen < 20 then some (averrorInvaliddata, s)
          else do
            let ntpTime ← readRb64 data (buf + 8)
            let timestamp ← readRb32 data (buf + 16)
            rtcpLoop env data turns (buf + payloadLen) (len - payloadLen) (takeSenderReport env s ntpTime timestamp)
        else if type = rtcpBye then some (-rtcpBye.toNat, s)
        else rtcpLoop env data turns (buf + payloadLen) (len - payloadLen) s
      else some (-1, s)

def updateJitterChecked (env : Env) (s : RTPDemuxContext σ) (buf : List UInt8) : Option (RTPDemuxContext σ) :=
  match s.st with
  | none => some s
  | some st => do
      let arrival := avRescaleQ env.now avTimeBaseQ st.timeBase
      let timestamp ← readRb32 buf 4
      some { s with statistics := rtcpUpdateJitter s.statistics timestamp (UInt32.ofInt arrival) }

def enqueuePacketChecked (env : Env) (s : RTPDemuxContext σ) (buf : Buffer) : Option (Int × RTPDemuxContext σ) := do
  let seq ← readRb16 buf.data 2
  if env.avMallocz then
    let packet : RTPPacket := ⟨seq, buf, env.now⟩
    some (0, { s with
      queue := s.queue.orderedInsert (fun p cur => signed16 (p.seq - cur.seq) < 0) packet
      queueLen := s.queueLen + 1 })
  else some (averrorEnomem, s)

/-- `turns` bounds the loop over a compound RTCP packet. -/
def rtpParseOnePacketChecked (turns : Nat) (env : Env) (s : RTPDemuxContext σ) (pkt : AVPacket)
    (bufptr : Option Buffer) : Option (Parsed σ × Option Buffer) :=
  match bufptr with
  | none =>
      if s.prevRet ≤ 0 then do
        let r ← rtpParseQueuedPacketChecked env s pkt
        some (r, none)
      else
        match s.handler with
        | some handler =>
            let s := s.record (.parsePacket s.dynamicProtocolContext none)
            let r := handler.parsePacket s.dynamicProtocolContext pkt rtpNotsValue none
            let (pkt, s) := finalizePacket { s with dynamicProtocolContext := r.ctx } r.pkt r.timestamp
            some (⟨r.rv, pkt, s⟩, none)
        | none => some (⟨-1, pkt, s⟩, none)
  | some buf =>
      if buf.data.length < 12 then some (⟨-1, pkt, s⟩, some buf)
      else do
        let first ← readU8 buf.data 0
        if first &&& 0xc0 ≠ 0x80 then some (⟨-1, pkt, s⟩, some buf)
        else do
          let second ← readU8 buf.data 1
          if rtpPtIsRtcp second then do
            let (rv, s) ← rtcpLoop env buf.data turns 0 buf.data.length s
            some (⟨rv, pkt, s⟩, some buf)
          else do
            let s ← updateJitterChecked env s buf.data
            if (s.seq = 0 ∧ s.queue = []) ∨ s.queueSize ≤ 1 then do
              let r ← rtpParsePacketInternalChecked env s pkt buf
              some (r, some buf)
            else do
              let seq ← readRb16 buf.data 2
              let diff := signed16 (seq - s.seq)
              if diff < 0 then some (⟨-1, pkt, s⟩, some buf)
              else if diff ≤ 1 then do
                let r ← rtpParsePacketInternalChecked env s pkt buf
                some (r, some buf)
              else do
                let (rv, s) ← enqueuePacketChecked env s buf
                if rv < 0 then some (⟨rv, pkt, s⟩, some buf)
                else if s.queueLen ≥ s.queueSize then do
                  let r ← rtpParseQueuedPacketChecked env s pkt
                  some (r, none)
                else some (⟨-1, pkt, s⟩, none)

def drainChecked (env : Env) : List RTPPacket → Parsed σ → Option (Parsed σ)
  | [], r => some r
  | _ :: rest, r =>
      if r.rv < 0 ∧ hasNextPacket r.ctx then do
        let next ← rtpParseQueuedPacketChecked env r.ctx r.pkt
        drainChecked env rest next
      else some r

def ffRtpParsePacketChecked (turns : Nat) (env : Env) (s : RTPDemuxContext σ) (pkt : AVPacket)
    (bufptr : Option Buffer) : Option (Parsed σ × Option Buffer) :=
  match decrypted env s bufptr with
  | none => some (⟨-1, pkt, s⟩, bufptr)
  | some bufptr => do
      let (r, bufptr) ← rtpParseOnePacketChecked turns env s pkt bufptr
      let r ← drainChecked env r.ctx.queue { r with ctx := { r.ctx with prevRet := r.rv } }
      let rv := if r.rv ≠ 0 then r.rv else if hasNextPacket r.ctx then 1 else 0
      some ({ r with rv := rv }, bufptr)

section Reads

variable {data : List UInt8} {p : Int} {i : Nat}

theorem readU8_eq (hp : p = i) (h : i < data.length) : readU8 data p = some (byteAt data i) := by
  subst hp
  unfold readU8
  rw [if_pos ⟨Int.natCast_nonneg i, Int.ofNat_lt.mpr h⟩, Int.toNat_natCast]

theorem readRb16_eq (hp : p = i) (h : i + 1 < data.length) : readRb16 data p = some (avRb16 data i) := by
  unfold readRb16
  rw [readU8_eq hp (by omega), readU8_eq (by omega : p + 1 = (i + 1 : Nat)) h]
  rfl

theorem readRb32_eq (hp : p = i) (h : i + 3 < data.length) : readRb32 data p = some (avRb32 data i) := by
  unfold readRb32
  rw [readRb16_eq hp (by omega), readRb16_eq (by omega : p + 2 = (i + 2 : Nat)) (by omega)]
  rfl

theorem readRb64_eq (hp : p = i) (h : i + 7 < data.length) : readRb64 data p = some (avRb64 data i) := by
  unfold readRb64
  rw [readRb32_eq hp (by omega), readRb32_eq (by omega : p + 4 = (i + 4 : Nat)) (by omega)]
  rfl

theorem readRange_eq {len : Nat} (h : i + len ≤ data.length) :
    readRange data i len = some ((data.drop i).take len) := by
  unfold readRange
  rw [if_pos ⟨Int.natCast_nonneg i, Int.natCast_nonneg len, by omega⟩, Int.toNat_natCast, Int.toNat_natCast]

end Reads

section Payload

variable {data : List UInt8}

def paddingLength (data : List UInt8) : Nat :=
  let padding := (byteAt data (data.length - 1)).toNat
  if hasPadding data ∧ 12 + padding ≤ data.length then padding else 0

def extensionLength (data : List UInt8) : Nat :=
  if hasExtension data then ((avRb16 data (12 + 4 * csrcCount data + 2)).toNat + 1) * 4 else 0

structure Cut (data payload : List UInt8) (start len : Nat) : Prop where
  bytes : payload = (data.drop start).take len
  head : start = 12 + 4 * csrcCount data + extensionLength data
  tail : start + len + paddingLength data = data.length

theorem takeOffPadding_eq (h : 12 ≤ data.length) :
    takeOffPadding data (byteAt data 0) = some ((data.length : Int) - paddingLength data) := by
  unfold takeOffPadding paddingLength hasPadding
  by_cases hbit : byteAt data 0 &&& 0x20 ≠ 0
  · rw [if_pos hbit, readU8_eq (by omega : (data.length : Int) - 1 = (data.length - 1 : Nat)) (by omega)]
    have hpad : decide (byteAt data 0 &&& 0x20 ≠ 0) = true := decide_eq_true hbit
    dsimp only [Option.bind_eq_bind, Option.bind_some]
    rw [hpad]
    by_cases hfits : 12 + (byteAt data (data.length - 1)).toNat ≤ data.length
    · rw [if_pos (by omega), if_pos ⟨rfl, hfits⟩]
    · rw [if_neg (by omega), if_neg (fun hboth => hfits hboth.2)]
      simp
  · have hpad : decide (byteAt data 0 &&& 0x20 ≠ 0) = false := decide_eq_false hbit
    rw [if_neg hbit, hpad, if_neg (fun hboth => Bool.false_ne_true hboth.1)]
    simp

theorem payloadOf_eq (data : List UInt8) : payloadOf data =
    let start := 12 + 4 * csrcCount data
    let len := (data.length : Int) - paddingLength data - start
    if len < 0 then .error averrorInvaliddata
    else if hasExtension data then
      if len < 4 then .error (-1)
      else if len < extensionLength data then .error (-1)
      else .ok ((data.drop (start + extensionLength data)).take (len - extensionLength data).toNat)
    else .ok ((data.drop start).take len.toNat) := by
  have hpadded : (if hasPadding data ∧ 12 + (byteAt data (data.length - 1)).toNat ≤ data.length
      then (data.length : Int) - (byteAt data (data.length - 1)).toNat else data.length) =
        (data.length : Int) - paddingLength data := by
    unfold paddingLength
    dsimp only
    split <;> simp
  unfold payloadOf
  dsimp only
  rw [hpadded]
  by_cases hext : hasExtension data = true
  · have hlength : extensionLength data = ((avRb16 data (12 + 4 * csrcCount data + 2)).toNat + 1) * 4 := if_pos hext
    rw [hlength]
  · simp only [hext]
    rfl

theorem payloadRange_eq (h : 12 ≤ data.length) :
    (∃ e, payloadRange data = some (.error e) ∧ payloadOf data = .error e) ∨
    ∃ start len payload, payloadRange data = some (.ok ((start : Nat), (len : Nat))) ∧ payloadOf data = .ok payload ∧
      Cut data payload start len := by
  have hcsrc : (((byteAt data 0 &&& 0x0f).toNat : Nat) : Int) = csrcCount data := rfl
  have hlen : (data.length : Int) - paddingLength data - 12 - 4 * csrcCount data =
      (data.length : Int) - paddingLength data - (12 + 4 * csrcCount data : Nat) := by
    omega
  unfold payloadRange
  rw [readU8_eq (by rfl : (0 : Int) = (0 : Nat)) (by omega), payloadOf_eq]
  dsimp only [Option.bind_eq_bind, Option.bind_some]
  rw [takeOffPadding_eq h]
  dsimp only [Option.bind_some]
  rw [hcsrc, hlen]
  by_cases hneg : (data.length : Int) - paddingLength data - (12 + 4 * csrcCount data : Nat) < 0
  · rw [if_pos hneg, if_pos hneg]
    exact .inl ⟨_, rfl, rfl⟩
  rw [if_neg hneg, if_neg hneg]
  by_cases hbit : byteAt data 0 &&& 0x10 ≠ 0
  · have hext : hasExtension data = true := decide_eq_true hbit
    have hlength : extensionLength data = ((avRb16 data (12 + 4 * csrcCount data + 2)).toNat + 1) * 4 := if_pos hext
    rw [if_pos hbit, if_pos hext]
    by_cases hfour : (data.length : Int) - paddingLength data - (12 + 4 * csrcCount data : Nat) < 4
    · rw [if_pos hfour, if_pos hfour]
      exact .inl ⟨_, rfl, rfl⟩
    rw [if_neg hfour, if_neg hfour,
      readRb16_eq (by omega : (12 : Int) + 4 * csrcCount data + 2 = (12 + 4 * csrcCount data + 2 : Nat)) (by omega)]
    dsimp only [Option.bind_some]
    rw [← hlength]
    by_cases hfit : (data.length : Int) - paddingLength data - (12 + 4 * csrcCount data : Nat) < extensionLength data
    · rw [if_pos hfit, if_pos hfit]
      exact .inl ⟨_, rfl, rfl⟩
    rw [if_neg hfit, if_neg hfit]
    refine .inr ⟨12 + 4 * csrcCount data + extensionLength data,
      ((data.length : Int) - paddingLength data - (12 + 4 * csrcCount data : Nat) - extensionLength data).toNat, _,
      ?_, rfl, rfl, rfl, by omega⟩
    have hstart : (12 : Int) + 4 * csrcCount data + extensionLength data =
        (12 + 4 * csrcCount data + extensionLength data : Nat) := by
      omega
    rw [hstart, Int.toNat_of_nonneg (by omega)]
  · have hext : hasExtension data = false := decide_eq_false hbit
    have hlength : extensionLength data = 0 := if_neg (by rw [hext]; exact Bool.false_ne_true)
    rw [if_neg hbit, hext, if_neg Bool.false_ne_true]
    refine .inr ⟨12 + 4 * csrcCount data,
      ((data.length : Int) - paddingLength data - (12 + 4 * csrcCount data : Nat)).toNat, _, ?_, rfl, rfl, ?_, ?_⟩
    · have hstart : (12 : Int) + 4 * csrcCount data = (12 + 4 * csrcCount data : Nat) := by
        omega
      rw [hstart, Int.toNat_of_nonneg (by omega)]
    · rw [hlength]
      rfl
    · omega

end Payload

section Calls

variable {env : Env} {s t : RTPDemuxContext σ} {pkt : AVPacket} {buf : Buffer}

theorem internalChecked_eq (env : Env) (s : RTPDemuxContext σ) (pkt : AVPacket) (h : 12 ≤ buf.data.length) :
    rtpParsePacketInternalChecked env s pkt buf = some (rtpParsePacketInternal env s pkt buf) := by
  unfold rtpParsePacketInternalChecked rtpParsePacketInternal
  rw [readU8_eq (by rfl : (1 : Int) = (1 : Nat)) (by omega), readRb16_eq (by rfl : (2 : Int) = (2 : Nat)) (by omega),
    readRb32_eq (by rfl : (4 : Int) = (4 : Nat)) (by omega), readRb32_eq (by rfl : (8 : Int) = (8 : Nat)) (by omega)]
  dsimp only [Option.bind_eq_bind, Option.bind_some]
  change (if s.payloadType ≠ payloadTypeOf buf.data then _ else _) = some (if s.payloadType ≠ payloadTypeOf buf.data then _ else _)
  by_cases htype : s.payloadType ≠ payloadTypeOf buf.data
  · rw [if_pos htype, if_pos htype]
  rw [if_neg htype, if_neg htype]
  have hseq : avRb16 buf.data 2 = seqOf buf.data := rfl
  rw [hseq]
  by_cases hvalid : (rtpValidPacketInSequence (s.record (.parse buf)).statistics (seqOf buf.data)).1 = true
  · rw [if_pos hvalid, if_pos hvalid]
    rcases payloadRange_eq h with ⟨e, hrange, hof⟩ | ⟨start, len, payload, hrange, hof, hcut⟩
    · rw [hrange, hof]
      rfl
    · rw [hrange, hof]
      dsimp only [Option.bind_some]
      rw [readRange_eq (by have htail := hcut.tail; omega), ← hcut.bytes]
      rfl
  · rw [if_neg hvalid, if_neg hvalid]

def Headed (s : RTPDemuxContext σ) : Prop := ∀ packet ∈ s.queue, 12 ≤ packet.buf.data.length

theorem queuedChecked_eq (env : Env) (pkt : AVPacket) (h : Headed s) :
    rtpParseQueuedPacketChecked env s pkt = some (rtpParseQueuedPacket env s pkt) := by
  unfold rtpParseQueuedPacketChecked rtpParseQueuedPacket
  by_cases hlen : s.queueLen ≤ 0
  · rw [if_pos hlen, if_pos hlen]
  rw [if_neg hlen, if_neg hlen]
  cases hq : s.queue with
  | nil => rfl
  | cons packet rest =>
      dsimp only
      rw [internalChecked_eq env s pkt (h packet (by simp [hq]))]
      rfl

theorem headed_queued (env : Env) (pkt : AVPacket) (h : Headed s) : Headed (rtpParseQueuedPacket env s pkt).ctx := by
  by_cases hlen : s.queueLen ≤ 0
  · rw [queued_none env pkt (.inl hlen)]
    exact h
  cases hq : s.queue with
  | nil =>
      rw [queued_none env pkt (.inr hq)]
      exact h
  | cons packet rest =>
      rw [queued_head env pkt (by omega) hq]
      exact fun p hp => h p (by simp [hq, hp])

theorem drainChecked_eq (env : Env) (turns : List RTPPacket) {r : Parsed σ} (h : Headed r.ctx) :
    drainChecked env turns r = some (drain env turns r) ∧ Headed (drain env turns r).ctx := by
  induction turns generalizing r with
  | nil => exact ⟨rfl, h⟩
  | cons packet rest ih =>
      unfold drainChecked drain
      by_cases hmore : r.rv < 0 ∧ hasNextPacket r.ctx
      · rw [if_pos hmore, if_pos hmore, queuedChecked_eq env r.pkt h]
        exact ih (headed_queued env r.pkt h)
      · rw [if_neg hmore, if_neg hmore]
        exact ⟨rfl, h⟩

theorem avRb16_drop (data : List UInt8) (n i : Nat) : avRb16 (data.drop n) i = avRb16 data (n + i) := by
  unfold avRb16
  rw [byteAt_drop, byteAt_drop]
  rfl

theorem avRb32_drop (data : List UInt8) (n i : Nat) : avRb32 (data.drop n) i = avRb32 data (n + i) := by
  unfold avRb32
  rw [avRb16_drop, avRb16_drop]
  rfl

theorem avRb64_drop (data : List UInt8) (n i : Nat) : avRb64 (data.drop n) i = avRb64 data (n + i) := by
  unfold avRb64
  rw [avRb32_drop, avRb32_drop]
  rfl

theorem rtcpLoop_eq (env : Env) {data : List UInt8} {turns p : Nat} (hp : p ≤ data.length)
    (hturns : data.length - p < turns) (s : RTPDemuxContext σ) :
    rtcpLoop env data turns p (data.length - p : Nat) s = some (rtcpParsePacket env s (data.drop p)) := by
  induction turns generalizing p s with
  | zero => omega
  | succ turns ih =>
      rw [rtcpLoop, rtcpParsePacket]
      have hlength : (data.drop p).length = data.length - p := List.length_drop
      by_cases hshort : data.length - p < 4
      · rw [if_neg (by omega), dif_pos (by omega)]
      rw [if_pos (by omega), dif_neg (by omega), readRb16_eq (by omega : (p : Int) + 2 = (p + 2 : Nat)) (by omega),
        readU8_eq (by omega : (p : Int) + 1 = (p + 1 : Nat)) (by omega)]
      dsimp only [Option.bind_eq_bind, Option.bind_some]
      rw [hlength, avRb16_drop, byteAt_drop]
      generalize hl : min (data.length - p) (((avRb16 data (p + 2)).toNat + 1) * 4) = payloadLen
      have hmin : min ((data.length - p : Nat) : Int) ((((avRb16 data (p + 2)).toNat + 1) * 4 : Nat) : Int) = payloadLen := by
        omega
      have hnext : ∀ u : RTPDemuxContext σ,
          rtcpLoop env data turns ((p : Int) + payloadLen) ((data.length - p : Nat) - payloadLen) u =
            some (rtcpParsePacket env u ((data.drop p).drop payloadLen)) := by
        intro u
        have hstep := @ih (p + payloadLen) (by omega) (by omega) u
        rw [List.drop_drop, ← hstep]
        congr 1
        omega
      rw [hmin]
      by_cases hsr : byteAt data (p + 1) = rtcpSr
      · rw [if_pos hsr, if_pos hsr]
        by_cases hfull : payloadLen < 20
        · rw [if_pos (by omega), if_pos hfull]
        rw [if_neg (by omega), if_neg hfull, readRb64_eq (by omega : (p : Int) + 8 = (p + 8 : Nat)) (by omega),
          readRb32_eq (by omega : (p : Int) + 16 = (p + 16 : Nat)) (by omega)]
        dsimp only [Option.bind_some]
        rw [hnext, avRb64_drop, avRb32_drop]
        rfl
      · rw [if_neg hsr, if_neg hsr]
        by_cases hbye : byteAt data (p + 1) = rtcpBye
        · rw [if_pos hbye, if_pos hbye]
        · rw [if_neg hbye, if_neg hbye, hnext]

theorem updateJitterChecked_eq (env : Env) (s : RTPDemuxContext σ) {data : List UInt8} (h : 12 ≤ data.length) :
    updateJitterChecked env s data = some (updateJitter env s data) := by
  unfold updateJitterChecked updateJitter
  cases s.st with
  | none => rfl
  | some st =>
      dsimp only
      rw [readRb32_eq (by rfl : (4 : Int) = (4 : Nat)) (by omega)]
      rfl

theorem enqueueChecked_eq (env : Env) (s : RTPDemuxContext σ) (h : 12 ≤ buf.data.length) :
    enqueuePacketChecked env s buf = some (enqueuePacket env s buf) := by
  unfold enqueuePacketChecked enqueuePacket
  rw [readRb16_eq (by rfl : (2 : Int) = (2 : Nat)) (by omega)]
  dsimp only [Option.bind_eq_bind, Option.bind_some]
  split <;> rfl

theorem headed_joins {packet : RTPPacket} (h : Joins s t packet) (g : Headed s) (hbuf : 12 ≤ packet.buf.data.length) :
    Headed t := by
  intro p hp
  rw [h.queue] at hp
  rcases (List.mem_orderedInsert _).mp hp with rfl | hold
  · exact hbuf
  · exact g p hold

theorem headed_enqueue (env : Env) (h : Headed s) (hbuf : 12 ≤ buf.data.length) : Headed (enqueuePacket env s buf).2 := by
  cases hmalloc : env.avMallocz with
  | false =>
      have henqueue : enqueuePacket env s buf = (averrorEnomem, s) := by
        simp [enqueuePacket, hmalloc]
      rw [henqueue]
      exact h
  | true => exact headed_joins (enqueuePacket_some env s buf hmalloc).2 h hbuf

theorem Still.headed (h : Still s t) (g : Headed s) : Headed t := by
  unfold Headed
  rw [h.queue]
  exact g

theorem headed_internal (env : Env) (pkt : AVPacket) (buf : Buffer) (h : Headed s) :
    Headed (rtpParsePacketInternal env s pkt buf).ctx := by
  unfold Headed
  rw [(internal_keeps env s pkt buf).queue]
  exact h

theorem arrivingChecked_eq {turns : Nat} (env : Env) (pkt : AVPacket) (h : Headed s) (hturns : buf.data.length < turns) :
    rtpParseOnePacketChecked turns env s pkt (some buf) = some (rtpParseOnePacket env s pkt (some buf)) := by
  unfold rtpParseOnePacketChecked rtpParseOnePacket
  dsimp only
  by_cases hshort : buf.data.length < 12
  · rw [if_pos hshort, if_pos hshort]
  have hlong := Nat.le_of_not_lt hshort
  rw [if_neg hshort, if_neg hshort, readU8_eq (by rfl : (0 : Int) = (0 : Nat)) (by omega)]
  dsimp only [Option.bind_eq_bind, Option.bind_some]
  by_cases hversion : byteAt buf.data 0 &&& 0xc0 = 0x80
  · have hversion' : isVersion2 buf.data = true := decide_eq_true hversion
    rw [if_neg (not_not.mpr hversion), if_neg (not_not.mpr hversion'), readU8_eq (by rfl : (1 : Int) = (1 : Nat)) (by omega)]
    dsimp only [Option.bind_some]
    by_cases hrtcp : rtpPtIsRtcp (byteAt buf.data 1) = true
    · rw [if_pos hrtcp, if_pos hrtcp]
      have hloop := @rtcpLoop_eq _ env buf.data turns 0 (Nat.zero_le _) hturns s
      rw [List.drop_zero, Nat.sub_zero] at hloop
      change (rtcpLoop env buf.data turns ((0 : Nat) : Int) _ s).bind _ = _
      rw [hloop]
      rfl
    rw [if_neg hrtcp, if_neg hrtcp, updateJitterChecked_eq env s hlong]
    dsimp only [Option.bind_some]
    have hjitter := (updateJitter_still env s buf.data).headed h
    by_cases hfirst : ((updateJitter env s buf.data).seq = 0 ∧ (updateJitter env s buf.data).queue = []) ∨
        (updateJitter env s buf.data).queueSize ≤ 1
    · rw [if_pos hfirst, if_pos hfirst, internalChecked_eq env _ pkt hlong]
      rfl
    rw [if_neg hfirst, if_neg hfirst, readRb16_eq (by rfl : (2 : Int) = (2 : Nat)) (by omega)]
    dsimp only [Option.bind_some]
    change (if signed16 (seqOf buf.data - (updateJitter env s buf.data).seq) < 0 then _ else _) = _
    by_cases hold : signed16 (seqOf buf.data - (updateJitter env s buf.data).seq) < 0
    · rw [if_pos hold, if_pos hold]
    rw [if_neg hold, if_neg hold]
    change (if signed16 (seqOf buf.data - (updateJitter env s buf.data).seq) ≤ 1 then _ else _) = _
    by_cases hnext : signed16 (seqOf buf.data - (updateJitter env s buf.data).seq) ≤ 1
    · rw [if_pos hnext, if_pos hnext, internalChecked_eq env _ pkt hlong]
      rfl
    rw [if_neg hnext, if_neg hnext, enqueueChecked_eq env _ hlong]
    dsimp only [Option.bind_some]
    by_cases hfailed : (enqueuePacket env (updateJitter env s buf.data) buf).1 < 0
    · rw [if_pos hfailed, if_pos hfailed]
    rw [if_neg hfailed, if_neg hfailed]
    split
    · rw [queuedChecked_eq env pkt (headed_enqueue env hjitter hlong)]
      rfl
    · rfl
  · have hversion' : isVersion2 buf.data = false := decide_eq_false hversion
    rw [if_pos hversion, hversion', if_pos Bool.false_ne_true]

theorem askingChecked_eq (turns : Nat) (env : Env) (pkt : AVPacket) (h : Headed s) :
    rtpParseOnePacketChecked turns env s pkt none = some (rtpParseOnePacket env s pkt none) := by
  unfold rtpParseOnePacketChecked rtpParseOnePacket
  dsimp only
  by_cases hprev : s.prevRet ≤ 0
  · rw [if_pos hprev, if_pos hprev, queuedChecked_eq env pkt h]
    rfl
  rw [if_neg hprev, if_neg hprev]
  cases s.handler with
  | none => rfl
  | some handler => rfl

theorem headed_arrival {out : Parsed σ × Option Buffer} (h : Arrival env s pkt buf out) (g : Headed s)
    (hbuf : 12 ≤ buf.data.length) : Headed out.1.ctx := by
  cases h with
  | dropped r rv still => exact still.headed g
  | direct t still now => exact headed_internal env pkt buf (still.headed g)
  | waits t packet hseq hpacket joins ahead size started room => exact headed_joins joins g (hpacket ▸ hbuf)
  | full t packet hseq hpacket joins ahead size started room =>
      exact headed_queued env pkt (headed_joins joins g (hpacket ▸ hbuf))

theorem headed_one (env : Env) (pkt : AVPacket) (bufptr : Option Buffer) (h : Headed s) :
    Headed (rtpParseOnePacket env s pkt bufptr).1.ctx := by
  cases bufptr with
  | none =>
      obtain ⟨_, heq⟩ | ⟨_, _, heq⟩ | ⟨_, _, _, _, _, _, _, heq⟩ := one_more env s pkt
      · rw [heq]
        exact headed_queued env pkt h
      · rw [heq]
        exact h
      · rw [heq]
        exact h
  | some buf =>
      by_cases hshort : buf.data.length < 12
      · unfold rtpParseOnePacket
        dsimp only
        rw [if_pos hshort]
        exact h
      · exact headed_arrival (one_arrival env s pkt buf) h (Nat.le_of_not_lt hshort)

theorem callChecked_eq {turns : Nat} (env : Env) (pkt : AVPacket) {bufptr : Option Buffer} (h : Headed s)
    (hturns : ∀ plain, decrypted env s bufptr = some (some plain) → plain.data.length < turns) :
    ffRtpParsePacketChecked turns env s pkt bufptr = some (ffRtpParsePacket env s pkt bufptr) := by
  unfold ffRtpParsePacketChecked ffRtpParsePacket
  cases hdec : decrypted env s bufptr with
  | none => rfl
  | some plain =>
      have hone : rtpParseOnePacketChecked turns env s pkt plain = some (rtpParseOnePacket env s pkt plain) := by
        cases plain with
        | none => exact askingChecked_eq turns env pkt h
        | some buf => exact arrivingChecked_eq env pkt h (hturns buf hdec)
      dsimp only
      rw [hone]
      dsimp only [Option.bind_eq_bind, Option.bind_some]
      rw [(drainChecked_eq env (rtpParseOnePacket env s pkt plain).1.ctx.queue ?_).1]
      · rfl
      · exact headed_one env pkt plain h

theorem headed_call (env : Env) (pkt : AVPacket) (bufptr : Option Buffer) (h : Headed s) :
    Headed (ffRtpParsePacket env s pkt bufptr).1.ctx := by
  unfold ffRtpParsePacket
  cases decrypted env s bufptr with
  | none => exact h
  | some plain =>
      refine (drainChecked_eq env (rtpParseOnePacket env s pkt plain).1.ctx.queue ?_).2
      exact headed_one env pkt plain h

end Calls

section Handlers

variable {env : Env} {s t u : RTPDemuxContext σ} {pkt : AVPacket} {buf : Buffer}

def CutCalls (calls : List (Call σ)) : Prop :=
  ∀ before after ctx payload, calls = before ++ .parsePacket ctx (some payload) :: after →
    ∃ earlier buf start len, before = earlier ++ [.parse buf] ∧ Cut buf.data payload.buf start len

theorem CutCalls.append {a b : List (Call σ)} (h : CutCalls a) (g : CutCalls b) : CutCalls (a ++ b) := by
  intro before after ctx payload heq
  rcases List.append_eq_append_iff.mp heq with ⟨more, rfl, hb⟩ | ⟨rest, ha, hcons⟩
  · obtain ⟨earlier, buf, start, len, rfl, hcut⟩ := g more after ctx payload hb
    exact ⟨a ++ earlier, buf, start, len, by rw [List.append_assoc], hcut⟩
  · cases rest with
    | nil =>
        obtain ⟨earlier, buf, _, _, hnil, _⟩ := g [] after ctx payload hcons.symm
        simp at hnil
    | cons call rest =>
        obtain ⟨rfl, _⟩ := List.cons.inj hcons
        exact h before rest ctx payload ha

theorem cutCalls_of_none {calls : List (Call σ)} (h : ∀ ctx payload, .parsePacket ctx (some payload) ∉ calls) :
    CutCalls calls := by
  rintro before after ctx payload rfl
  exact absurd (by simp) (h ctx payload)

theorem cut_of_payloadOf {data payload : List UInt8} (h : 12 ≤ data.length) (hof : payloadOf data = .ok payload) :
    ∃ start len, Cut data payload start len := by
  rcases payloadRange_eq h with ⟨e, _, herror⟩ | ⟨start, len, other, _, hok, hcut⟩
  · cases herror.symm.trans hof
  · cases hok.symm.trans hof
    exact ⟨start, len, hcut⟩

def Hands (s t : RTPDemuxContext σ) : Prop := ∃ new, t.calls = s.calls ++ new ∧ CutCalls new

theorem Hands.of_calls (h : t.calls = s.calls) : Hands s t :=
  ⟨[], by rw [h, List.append_nil], cutCalls_of_none fun _ _ => List.not_mem_nil⟩

theorem Hands.trans (h : Hands s t) (g : Hands t u) : Hands s u := by
  obtain ⟨new, hnew, hcut⟩ := h
  obtain ⟨more, hmore, hcut'⟩ := g
  exact ⟨new ++ more, by rw [hmore, hnew, List.append_assoc], hcut.append hcut'⟩

theorem internal_hands (env : Env) (s : RTPDemuxContext σ) (pkt : AVPacket) (h : 12 ≤ buf.data.length) :
    Hands s (rtpParsePacketInternal env s pkt buf).ctx := by
  have hparse : CutCalls [Call.parse (σ := σ) buf] := cutCalls_of_none (by simp)
  cases internal_verdict env s pkt buf with
  | rejected _ _ calls | malformed _ _ _ _ calls | unhandled _ calls => exact ⟨_, calls, hparse⟩
  | handled handler hs body payload _ _ p hp _ _ calls =>
      refine ⟨_, calls, ?_⟩
      intro before after ctx given heq
      obtain ⟨start, len, hcut⟩ := cut_of_payloadOf h payload
      rcases before with - | ⟨first, - | ⟨second, rest⟩⟩
      · cases (List.cons.inj heq).1
      · obtain ⟨rfl, htail⟩ := List.cons.inj heq
        cases htail
        exact ⟨[], buf, start, len, rfl, by rw [hp]; exact hcut⟩
      · simp at heq

theorem queued_hands (env : Env) (pkt : AVPacket) (h : Headed s) : Hands s (rtpParseQueuedPacket env s pkt).ctx := by
  by_cases hlen : s.queueLen ≤ 0
  · rw [queued_none env pkt (.inl hlen)]
    exact .of_calls rfl
  cases hq : s.queue with
  | nil =>
      rw [queued_none env pkt (.inr hq)]
      exact .of_calls rfl
  | cons packet rest =>
      rw [queued_head env pkt (by omega) hq]
      refine (internal_hands env s pkt (h packet (by simp [hq]))).trans ⟨[.free packet.buf], rfl, ?_⟩
      exact cutCalls_of_none (by simp)

theorem drain_hands (env : Env) (turns : List RTPPacket) {r : Parsed σ} (h : Headed r.ctx) :
    Hands r.ctx (drain env turns r).ctx := by
  induction turns generalizing r with
  | nil => exact .of_calls rfl
  | cons packet rest ih =>
      unfold drain
      by_cases hmore : r.rv < 0 ∧ hasNextPacket r.ctx
      · rw [if_pos hmore]
        exact (queued_hands env r.pkt h).trans (ih (headed_queued env r.pkt h))
      · rw [if_neg hmore]
        exact .of_calls rfl

theorem arrival_hands {out : Parsed σ × Option Buffer} (h : Arrival env s pkt buf out) (g : Headed s)
    (hbuf : 12 ≤ buf.data.length) : Hands s out.1.ctx := by
  cases h with
  | dropped r rv still => exact .of_calls still.calls
  | direct t still now => exact (Hands.of_calls still.calls).trans (internal_hands env t pkt hbuf)
  | waits t packet hseq hpacket joins ahead size started room => exact .of_calls joins.calls
  | full t packet hseq hpacket joins ahead size started room =>
      exact (Hands.of_calls joins.calls).trans (queued_hands env pkt (headed_joins joins g (hpacket ▸ hbuf)))

theorem one_hands (env : Env) (pkt : AVPacket) (bufptr : Option Buffer) (h : Headed s) :
    Hands s (rtpParseOnePacket env s pkt bufptr).1.ctx := by
  cases bufptr with
  | none =>
      obtain ⟨_, heq⟩ | ⟨_, _, heq⟩ | ⟨_, _, _, _, _, _, _, heq⟩ := one_more env s pkt
      · rw [heq]
        exact queued_hands env pkt h
      · rw [heq]
        exact .of_calls rfl
      · rw [heq]
        exact ⟨_, rfl, cutCalls_of_none (by simp)⟩
  | some buf =>
      by_cases hshort : buf.data.length < 12
      · unfold rtpParseOnePacket
        dsimp only
        rw [if_pos hshort]
        exact .of_calls rfl
      · exact arrival_hands (one_arrival env s pkt buf) h (Nat.le_of_not_lt hshort)

theorem call_hands (env : Env) (pkt : AVPacket) (bufptr : Option Buffer) (h : Headed s) :
    Hands s (ffRtpParsePacket env s pkt bufptr).1.ctx := by
  unfold ffRtpParsePacket
  cases decrypted env s bufptr with
  | none => exact .of_calls rfl
  | some plain =>
      refine (one_hands env pkt plain h).trans (Hands.trans ?_ (drain_hands env
        (rtpParseOnePacket env s pkt plain).1.ctx.queue ?_))
      · exact .of_calls rfl
      · exact headed_one env pkt plain h

theorem reset_hands (s : RTPDemuxContext σ) : Hands s (ffRtpResetPacketQueue s) :=
  ⟨_, rfl, cutCalls_of_none (by simp)⟩

end Handlers

/-- Every call reads its packets inside their bytes, in finitely many turns, and the
handler is given nothing but payloads. -/
structure ParsesInside (d : Decoder σ) : Prop where
  reads : ∀ turns env pkt bufptr,
    (∀ plain, decrypted env d.ctx bufptr = some (some plain) → plain.data.length < turns) →
    ffRtpParsePacketChecked turns env d.ctx pkt bufptr = some (ffRtpParsePacket env d.ctx pkt bufptr)
  payloads : CutCalls d.ctx.calls

theorem headed_of_reachable {d : Decoder σ} (h : (decoder σ).Reachable d) : Headed d.ctx ∧ CutCalls d.ctx.calls := by
  refine System.Reachable.invariant (fun d => Headed d.ctx ∧ CutCalls d.ctx.calls) ?_ ?_ h
  · rintro d ⟨_, nbStreams, st, payloadType, queueSize, data, handler, crypto, hopen⟩
    rw [hopen]
    exact ⟨nofun, cutCalls_of_none fun _ _ => List.not_mem_nil⟩
  · rintro d l d' _ ⟨hheaded, hcut⟩ hn
    have hafter : ∀ {t : RTPDemuxContext σ}, Hands d.ctx t → CutCalls t.calls := by
      rintro t ⟨new, hnew, hcut'⟩
      rw [hnew]
      exact hcut.append hcut'
    cases l with
    | parsePacket env pkt bufptr =>
        cases hn
        exact ⟨headed_call env pkt bufptr hheaded, hafter (call_hands env pkt bufptr hheaded)⟩
    | resetPacketQueue =>
        cases hn
        exact ⟨nofun, hafter (reset_hands d.ctx)⟩

/-- In every run the parser stays inside the packets. -/
theorem parses_inside {d : Decoder σ} (h : (decoder σ).Reachable d) : ParsesInside d where
  reads _ env pkt _ hturns := callChecked_eq env pkt (headed_of_reachable h).1 hturns
  payloads := (headed_of_reachable h).2

/-- A packet with one contributing source, an extension of one word and padding of two
bytes around a payload of three. -/
def fullPacket : Buffer :=
  ⟨1, [0xb1, 96, 0, 1, 0, 0, 0, 0, 0, 0, 0, 1, 0, 0, 0, 7, 0xbe, 0xde, 0, 1, 9, 9, 9, 9, 65, 66, 67, 0, 2]⟩

theorem parses_inside_full : ∃ d : Decoder Unit, (decoder Unit).Reachable d ∧
    (∃ ctx, d.ctx.calls = [.parse fullPacket, .parsePacket ctx (some ⟨[65, 66, 67], 1, false⟩)]) ∧ ParsesInside d := by
  have hreach : (decoder Unit).Reachable
      ⟨(ffRtpParsePacket plainEnv reordererStart.ctx .blank (some fullPacket)).1.ctx,
        (ffRtpParsePacket plainEnv reordererStart.ctx .blank (some fullPacket)).1.rv⟩ :=
    @System.Reachable.step _ _ _ _ _ (.parsePacket plainEnv .blank (some fullPacket)) (.init reordererStart_init.1) rfl
  exact ⟨_, hreach, ⟨(), rfl⟩, parses_inside hreach⟩

end P2PFFmpeg.Rtp
