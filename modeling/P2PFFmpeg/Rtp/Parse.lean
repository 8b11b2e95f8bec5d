import P2PFFmpeg.Library.Serial
import P2PFFmpeg.Rtp.Context

namespace P2PFFmpeg.Rtp

open Util Library.Serial

variable {σ : Type}

def csrcCount (buf : List UInt8) : Nat := (byteAt buf 0 &&& 0x0f).toNat

def hasExtension (buf : List UInt8) : Bool := byteAt buf 0 &&& 0x10 ≠ 0

def hasPadding (buf : List UInt8) : Bool := byteAt buf 0 &&& 0x20 ≠ 0

def payloadTypeOf (buf : List UInt8) : UInt8 := byteAt buf 1 &&& 0x7f

def hasMarker (buf : List UInt8) : Bool := byteAt buf 1 &&& 0x80 ≠ 0

def seqOf (buf : List UInt8) : UInt16 := avRb16 buf 2

def isVersion2 (buf : List UInt8) : Bool := byteAt buf 0 &&& 0xc0 = 0x80

def rtpPtIsRtcp (x : UInt8) : Bool :=
  decide (192 ≤ x ∧ x ≤ 195) || decide (200 ≤ x ∧ x ≤ 210)

def rtcpSr : UInt8 := 200

def rtcpBye : UInt8 := 203

/-- The bytes left when the padding, the fixed header, the contributing sources
and the header extension are taken off. -/
def payloadOf (buf : List UInt8) : Except Int (List UInt8) :=
  let padding := (byteAt buf (buf.length - 1)).toNat
  let padded : Int :=
    if hasPadding buf ∧ 12 + padding ≤ buf.length then buf.length - padding else buf.length
  let start := 12 + 4 * csrcCount buf
  let len := padded - start
  if len < 0 then .error averrorInvaliddata
  else if hasExtension buf then
    if len < 4 then .error (-1)
    else
      let ext := ((avRb16 buf (start + 2)).toNat + 1) * 4
      if len < ext then .error (-1)
      else .ok ((buf.drop (start + ext)).take (len - ext).toNat)
  else .ok ((buf.drop start).take len.toNat)

def deliver (env : Env) (s : RTPDemuxContext σ) (pkt : AVPacket) (timestamp : UInt32)
    (payload : Payload) : Parsed σ :=
  match s.handler, s.st with
  | some handler, _ =>
      let s := s.record (.parsePacket s.dynamicProtocolContext (some payload))
      let r := handler.parsePacket s.dynamicProtocolContext pkt timestamp (some payload)
      let (pkt, s) := finalizePacket { s with dynamicProtocolContext := r.ctx } r.pkt r.timestamp
      ⟨r.rv, pkt, s⟩
  | none, some st =>
      if env.avNewPacket s.calls.length then
        let pkt := { AVPacket.blank with data := payload.buf, streamIndex := st.index }
        let (pkt, s) := finalizePacket s pkt timestamp
        ⟨0, pkt, s⟩
      else ⟨averrorEnomem, pkt, s⟩
  | none, none => ⟨averrorEinval, pkt, s⟩

def rtpParsePacketInternal (env : Env) (s : RTPDemuxContext σ) (pkt : AVPacket) (buf : Buffer) :
    Parsed σ :=
  let seq := seqOf buf.data
  let s := { s.record (.parse buf) with ssrc := avRb32 buf.data 8 }
  if s.payloadType ≠ payloadTypeOf buf.data then ⟨-1, pkt, s⟩
  else
    let (valid, statistics) := rtpValidPacketInSequence s.statistics seq
    let s := { s with statistics := statistics }
    if valid then
      let s := { s with seq := seq }
      match payloadOf buf.data with
      | .error e => ⟨e, pkt, s⟩
      | .ok payload => deliver env s pkt (avRb32 buf.data 4) ⟨payload, seq, hasMarker buf.data⟩
    else ⟨-1, pkt, s⟩

def ffRtpResetPacketQueue (s : RTPDemuxContext σ) : RTPDemuxContext σ :=
  { s with
    calls := s.calls ++ s.queue.map fun packet => Call.free packet.buf
    queue := []
    seq := 0
    queueLen := 0
    prevRet := 0 }

/-- The packet goes in front of the first queued one it precedes. -/
def enqueuePacket (env : Env) (s : RTPDemuxContext σ) (buf : Buffer) : Int × RTPDemuxContext σ :=
  if env.avMallocz then
    let packet : RTPPacket := ⟨seqOf buf.data, buf, env.now⟩
    (0, { s with
      queue := s.queue.orderedInsert (fun p cur => signed16 (p.seq - cur.seq) < 0) packet
      queueLen := s.queueLen + 1 })
  else (averrorEnomem, s)

def hasNextPacket (s : RTPDemuxContext σ) : Bool :=
  match s.queue with
  | [] => false
  | packet :: _ => packet.seq = s.seq + 1

def rtpParseQueuedPacket (env : Env) (s : RTPDemuxContext σ) (pkt : AVPacket) : Parsed σ :=
  if s.queueLen ≤ 0 then ⟨-1, pkt, s⟩
  else
    match s.queue with
    | [] => ⟨-1, pkt, s⟩
    | packet :: rest =>
        let r := rtpParsePacketInternal env s pkt packet.buf
        let s := r.ctx.record (.free packet.buf)
        ⟨r.rv, r.pkt, { s with queue := rest, queueLen := s.queueLen - 1 }⟩

def rtcpParsePacket (env : Env) (s : RTPDemuxContext σ) (buf : List UInt8) :
    Int × RTPDemuxContext σ :=
  if h : buf.length < 4 then (-1, s)
  else
    let payloadLen := min buf.length (((avRb16 buf 2).toNat + 1) * 4)
    if byteAt buf 1 = rtcpSr then
      if payloadLen < 20 then (averrorInvaliddata, s)
      else
        let ntpTime := avRb64 buf 8
        let timestamp := avRb32 buf 16
        let s := { s with
          lastRtcpReceptionTime := env.now
          lastRtcpNtpTime := some ntpTime
          lastRtcpTimestamp := timestamp }
        let s :=
          if s.firstRtcpNtpTime.isNone then
            let base := if s.baseTimestamp = 0 then timestamp else s.baseTimestamp
            { s with
              firstRtcpNtpTime := some ntpTime
              baseTimestamp := base
              rtcpTsOffset := signed32 (timestamp - base) }
          else s
        rtcpParsePacket env s (buf.drop payloadLen)
    else if byteAt buf 1 = rtcpBye then (-rtcpBye.toNat, s)
    else rtcpParsePacket env s (buf.drop payloadLen)
termination_by buf.length
decreasing_by
  all_goals
    rw [List.length_drop]
    omega

def updateJitter (env : Env) (s : RTPDemuxContext σ) (buf : List UInt8) : RTPDemuxContext σ :=
  match s.st with
  | none => s
  | some st =>
      let arrival := avRescaleQ env.now avTimeBaseQ st.timeBase
      { s with statistics :=
          rtcpUpdateJitter s.statistics (avRb32 buf 4) (UInt32.ofInt arrival) }

/-- The result, and what the caller's pointer to the buffer holds afterwards. -/
def rtpParseOnePacket (env : Env) (s : RTPDemuxContext σ) (pkt : AVPacket)
    (bufptr : Option Buffer) : Parsed σ × Option Buffer :=
  match bufptr with
  | none =>
      if s.prevRet ≤ 0 then (rtpParseQueuedPacket env s pkt, none)
      else
        match s.handler with
        | some handler =>
            let s := s.record (.parsePacket s.dynamicProtocolContext none)
            let r := handler.parsePacket s.dynamicProtocolContext pkt rtpNotsValue none
            let (pkt, s) := finalizePacket { s with dynamicProtocolContext := r.ctx } r.pkt
              r.timestamp
            (⟨r.rv, pkt, s⟩, none)
        | none => (⟨-1, pkt, s⟩, none)
  | some buf =>
      if buf.data.length < 12 then (⟨-1, pkt, s⟩, some buf)
      else if ¬isVersion2 buf.data then (⟨-1, pkt, s⟩, some buf)
      else if rtpPtIsRtcp (byteAt buf.data 1) then
        let (rv, s) := rtcpParsePacket env s buf.data
        (⟨rv, pkt, s⟩, some buf)
      else
        let s := updateJitter env s buf.data
        if (s.seq = 0 ∧ s.queue = []) ∨ s.queueSize ≤ 1 then
          -- first packet, or no reordering
          (rtpParsePacketInternal env s pkt buf, some buf)
        else
          let diff := signed16 (seqOf buf.data - s.seq)
          if diff < 0 then (⟨-1, pkt, s⟩, some buf)
          else if diff ≤ 1 then (rtpParsePacketInternal env s pkt buf, some buf)
          else
            -- still missing some packet
            let (rv, s) := enqueuePacket env s buf
            if rv < 0 then (⟨rv, pkt, s⟩, some buf)
            else if s.queueLen ≥ s.queueSize then (rtpParseQueuedPacket env s pkt, none)
            else (⟨-1, pkt, s⟩, none)

/-- The loop of `ffRtpParsePacket`: each turn takes one packet off the queue,
whose content at the start bounds the turns. -/
def drain (env : Env) : List RTPPacket → Parsed σ → Parsed σ
  | [], r => r
  | _ :: rest, r =>
      if r.rv < 0 ∧ hasNextPacket r.ctx then
        drain env rest (rtpParseQueuedPacket env r.ctx r.pkt)
      else r

def decrypted (env : Env) (s : RTPDemuxContext σ) : Option Buffer → Option (Option Buffer)
  | none => some none
  | some buf =>
      if s.srtpEnabled then
        (env.ffSrtpDecrypt buf.data).map fun data => some { buf with data := data }
      else some (some buf)

def ffRtpParsePacket (env : Env) (s : RTPDemuxContext σ) (pkt : AVPacket)
    (bufptr : Option Buffer) : Parsed σ × Option Buffer :=
  match decrypted env s bufptr with
  | none => (⟨-1, pkt, s⟩, bufptr)
  | some bufptr =>
      let (r, bufptr) := rtpParseOnePacket env s pkt bufptr
      let r := drain env r.ctx.queue { r with ctx := { r.ctx with prevRet := r.rv } }
      let rv := if r.rv ≠ 0 then r.rv else if hasNextPacket r.ctx then 1 else 0
      ({ r with rv := rv }, bufptr)

end P2PFFmpeg.Rtp
