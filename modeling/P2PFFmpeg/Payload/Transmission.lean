import Mathlib.Data.List.Induction
import P2PFFmpeg.Payload.RoundTrip
import P2PFFmpeg.Rtp.Steps
import P2PFFmpeg.Rtp.Timestamps

namespace P2PFFmpeg.Payload

open Util Library.Transition
open Rtp (RTPDemuxContext RTPDynamicProtocolHandler RTPStatistics AVStream Env)

/-- What `ff_rtp_send_data` writes: a header of twelve bytes, and the payload. -/
def RtpPacket.bytes (p : RtpPacket) : List UInt8 :=
  [0x80, p.payloadType ||| if p.marker then 0x80 else 0] ++ beBytes 2 p.seq.toNat ++
    beBytes 4 p.timestamp.toNat ++ beBytes 4 p.ssrc.toNat ++ p.payload

section Header

variable (p : RtpPacket)

theorem RtpPacket.seqOf_bytes : Rtp.seqOf p.bytes = p.seq := by
  have hdrop : p.bytes.drop 2 = beBytes 2 p.seq.toNat ++
      (beBytes 4 p.timestamp.toNat ++ (beBytes 4 p.ssrc.toNat ++ p.payload)) := by
    simp [RtpPacket.bytes]
  have hread := avRb16_beBytes p.seq.toNat_lt
    (beBytes 4 p.timestamp.toNat ++ (beBytes 4 p.ssrc.toNat ++ p.payload))
  rw [← hdrop] at hread
  rw [← UInt16.toNat_inj, ← hread, Rtp.seqOf, avRb16, avRb16, byteAt_drop, byteAt_drop]

theorem RtpPacket.timestamp_bytes : avRb32 p.bytes 4 = p.timestamp := by
  have hread := avRb32_length ([0x80, p.payloadType ||| if p.marker then 0x80 else 0] ++ beBytes 2 p.seq.toNat)
    (beBytes 4 p.ssrc.toNat ++ p.payload) p.timestamp.toNat_lt
  rwa [UInt32.ofNat_toNat, ← List.append_assoc, ← List.append_assoc] at hread

theorem RtpPacket.payloadOf_bytes : Rtp.payloadOf p.bytes = .ok p.payload := by
  have hlength : p.bytes.length = 12 + p.payload.length := by
    simp only [RtpPacket.bytes, List.length_append, length_beBytes, List.length_cons, List.length_nil]
  have hdrop : p.bytes.drop 12 = p.payload := rfl
  have hpadding : Rtp.hasPadding p.bytes = false := (show decide ((0x80 : UInt8) &&& 0x20 ≠ 0) = false by decide)
  have hcsrc : Rtp.csrcCount p.bytes = 0 := (show ((0x80 : UInt8) &&& 0x0f).toNat = 0 by decide)
  have hextension : Rtp.hasExtension p.bytes = false := (show decide ((0x80 : UInt8) &&& 0x10 ≠ 0) = false by decide)
  unfold Rtp.payloadOf
  simp only [hpadding, hcsrc, hextension, hlength]
  rw [if_neg (by simp), if_neg (by simp), hdrop]
  simp

structure Dynamic (payloadType : UInt8) : Prop where
  small : payloadType < 128
  marked : Rtp.rtpPtIsRtcp (payloadType ||| 0x80) = false

variable {p}

theorem second_byte {b : UInt8} (hb : b < 128) (m : Bool) :
    (b ||| if m then 0x80 else 0) &&& 0x7f = b ∧ (decide ((b ||| if m then 0x80 else 0) &&& 0x80 ≠ 0) = m) ∧
      Rtp.rtpPtIsRtcp b = false :=
  @forall_byte (fun b => b < 128 → ∀ m : Bool,
    (b ||| if m then 0x80 else 0) &&& 0x7f = b ∧ (decide ((b ||| if m then 0x80 else 0) &&& 0x80 ≠ 0) = m) ∧
      Rtp.rtpPtIsRtcp b = false) (by decide +kernel) b hb m

theorem Dynamic.not_rtcp (h : Dynamic p.payloadType) : Rtp.rtpPtIsRtcp (byteAt p.bytes 1) = false := by
  have hbyte : byteAt p.bytes 1 = p.payloadType ||| if p.marker then 0x80 else 0 := rfl
  rw [hbyte]
  cases p.marker with
  | false =>
      have hsame : p.payloadType ||| (if false = true then 0x80 else 0) = p.payloadType := UInt8.or_zero
      rw [hsame]
      exact (second_byte h.small false).2.2
  | true => exact h.marked

end Header

section Arrival

variable {σ : Type} {handler : RTPDynamicProtocolHandler σ} {p : RtpPacket} {s : RTPDemuxContext σ}

def RtpPacket.given (p : RtpPacket) : Rtp.Payload := ⟨p.payload, p.seq, p.marker⟩

/-- A demuxer that has lost nothing and waits for the packet numbered `n`. -/
structure Awaits (handler : RTPDynamicProtocolHandler σ) (payloadType : UInt8) (n : UInt16)
    (s : RTPDemuxContext σ) : Prop where
  handler : s.handler = some handler
  payloadType : s.payloadType = payloadType
  plain : s.srtpEnabled = false
  queue : s.queue = []
  seq : s.seq = 0 ∨ s.seq + 1 = n
  statistics : s.statistics.probation = 0 → s.statistics.maxSeq + 1 = n

theorem next_valid {st : RTPStatistics} {seq : UInt16} (h : st.probation = 0 → st.maxSeq + 1 = seq) :
    ∃ st', Rtp.rtpValidPacketInSequence st seq = (true, st') ∧ st'.maxSeq = seq := by
  unfold Rtp.rtpValidPacketInSequence
  dsimp only
  by_cases hprobation : st.probation = 0
  · obtain rfl := h hprobation
    have hnext : (st.maxSeq + 1 - st.maxSeq).toNat < Rtp.maxDropout := by
      rw [UInt16.add_comm, UInt16.add_sub_cancel]
      decide
    rw [if_neg (by simp [hprobation]), if_pos hnext]
    exact ⟨_, rfl, rfl⟩
  · rw [if_pos hprobation]
    split_ifs
    · exact ⟨_, rfl, rfl⟩
    · exact ⟨_, rfl, rfl⟩
    · exact ⟨_, rfl, rfl⟩

theorem Awaits.jitter {payloadType : UInt8} {n : UInt16} (h : Awaits handler payloadType n s) (env : Env)
    (buf : List UInt8) : Awaits handler payloadType n (Rtp.updateJitter env s buf) := by
  unfold Rtp.updateJitter
  split
  · exact h
  · refine ⟨h.handler, h.payloadType, h.plain, h.queue, h.seq, ?_⟩
    unfold Rtp.rtcpUpdateJitter
    dsimp only
    split
    · exact h.statistics
    · exact h.statistics

/-- It is neither dropped nor queued. -/
theorem Awaits.one (h : Awaits handler p.payloadType p.seq s) (hdynamic : Dynamic p.payloadType) (env : Env)
    (addr : Nat) : Rtp.rtpParseOnePacket env s .blank (some ⟨addr, p.bytes⟩) =
      (Rtp.rtpParsePacketInternal env (Rtp.updateJitter env s p.bytes) .blank ⟨addr, p.bytes⟩,
        some ⟨addr, p.bytes⟩) := by
  have hlength : ¬p.bytes.length < 12 := by
    simp only [RtpPacket.bytes, List.length_append, length_beBytes, List.length_cons]
    omega
  have hversion : Rtp.isVersion2 p.bytes = true := (show decide ((0x80 : UInt8) &&& 0xc0 = 0x80) = true by decide)
  have hj := h.jitter env p.bytes
  unfold Rtp.rtpParseOnePacket
  dsimp only
  rw [if_neg hlength, if_neg (by simp [hversion]), if_neg (by simp [hdynamic.not_rtcp])]
  split_ifs with hfirst hold hnext hmemory hfull
  · rfl
  · obtain hzero | hone := hj.seq
    · exact absurd (.inl ⟨hzero, hj.queue⟩) hfirst
    · rw [p.seqOf_bytes, ← hone, UInt16.add_comm, UInt16.add_sub_cancel] at hold
      exact absurd hold (by decide)
  · rfl
  all_goals
    obtain hzero | hone := hj.seq
    · exact absurd (.inl ⟨hzero, hj.queue⟩) hfirst
    · rw [p.seqOf_bytes, ← hone, UInt16.add_comm, UInt16.add_sub_cancel] at hnext
      exact absurd (by decide) hnext

theorem parse_alone {env : Env} {buf : Rtp.Buffer} {d : Rtp.Parsed σ}
    (hplain : Rtp.decrypted env s (some buf) = some (some buf))
    (hone : Rtp.rtpParseOnePacket env s .blank (some buf) = (d, some buf)) (hqueue : d.ctx.queue = []) :
    (Rtp.ffRtpParsePacket env s .blank (some buf)).1 = { d with ctx := { d.ctx with prevRet := d.rv } } := by
  have hrv : (if d.rv ≠ 0 then d.rv else 0) = d.rv := by
    split <;> omega
  unfold Rtp.ffRtpParsePacket
  rw [hplain]
  dsimp only
  rw [hone]
  simp [Rtp.hasNextPacket, Rtp.drain, hqueue, hrv]

/-- The handler gets the packet with its time and its marker. -/
theorem Awaits.internal (h : Awaits handler p.payloadType p.seq s) (hdynamic : Dynamic p.payloadType)
    (env : Env) (addr : Nat) : ∃ ssrc st, st.maxSeq = p.seq ∧
      Rtp.rtpParsePacketInternal env (Rtp.updateJitter env s p.bytes) .blank ⟨addr, p.bytes⟩ =
        Rtp.deliver env (s.parsed ⟨addr, p.bytes⟩ ssrc st) .blank p.timestamp p.given := by
  have hj := h.jitter env p.bytes
  obtain ⟨st, hvalid, hmax⟩ := next_valid hj.statistics
  have hmarker : Rtp.hasMarker p.bytes = p.marker := (second_byte hdynamic.small p.marker).2.1
  have htype : Rtp.payloadTypeOf (Rtp.Buffer.mk addr p.bytes).data = p.payloadType :=
    (second_byte hdynamic.small p.marker).1
  have hcheck : Rtp.rtpValidPacketInSequence (Rtp.updateJitter env s p.bytes).statistics
      (Rtp.seqOf (Rtp.Buffer.mk addr p.bytes).data) = (true, st) := by
    rw [show Rtp.seqOf (Rtp.Buffer.mk addr p.bytes).data = p.seq from p.seqOf_bytes]
    exact hvalid
  have hsame : (Rtp.updateJitter env s p.bytes).parsed ⟨addr, p.bytes⟩ (avRb32 p.bytes 8) st =
      s.parsed ⟨addr, p.bytes⟩ (avRb32 p.bytes 8) st := by
    unfold Rtp.updateJitter
    split <;> rfl
  refine ⟨avRb32 p.bytes 8, st, hmax, ?_⟩
  rw [Rtp.internal_eq env _ hcheck, htype, hj.payloadType, if_neg (by simp), if_pos rfl]
  dsimp only
  rw [p.payloadOf_bytes, p.timestamp_bytes, p.seqOf_bytes, hmarker, hsame, RtpPacket.given]

/-- The packet is handed on where it arrives. -/
theorem Awaits.handed (h : Awaits handler p.payloadType p.seq s) (hdynamic : Dynamic p.payloadType) (env : Env)
    (addr : Nat) : ∃ ssrc st, st.maxSeq = p.seq ∧
      let d := Rtp.deliver env (s.parsed ⟨addr, p.bytes⟩ ssrc st) .blank p.timestamp p.given
      d.ctx.queue = [] ∧ (Rtp.ffRtpParsePacket env s .blank (some ⟨addr, p.bytes⟩)).1 =
        { d with ctx := { d.ctx with prevRet := d.rv } } := by
  have hplain : Rtp.decrypted env s (some ⟨addr, p.bytes⟩) = some (some ⟨addr, p.bytes⟩) := by
    simp [Rtp.decrypted, h.plain]
  obtain ⟨ssrc, st, hmax, hinternal⟩ := h.internal hdynamic env addr
  have hqueue := (Rtp.deliver_keeps env (s.parsed ⟨addr, p.bytes⟩ ssrc st) .blank p.timestamp
    p.given).queue.trans h.queue
  have hone := h.one hdynamic env addr
  rw [hinternal] at hone
  exact ⟨ssrc, st, hmax, hqueue, parse_alone hplain hone hqueue⟩

/-- The call gives what the handler makes of the packet. -/
theorem Awaits.parse (h : Awaits handler p.payloadType p.seq s) (hdynamic : Dynamic p.payloadType) (env : Env)
    (addr : Nat) :
    let out := handler.parsePacket s.dynamicProtocolContext .blank p.timestamp (some p.given)
    let r := (Rtp.ffRtpParsePacket env s .blank (some ⟨addr, p.bytes⟩)).1
    r.rv = out.rv ∧ r.pkt.data = out.pkt.data ∧ r.ctx.dynamicProtocolContext = out.ctx ∧
      Awaits handler p.payloadType (p.seq + 1) r.ctx := by
  intro out r
  obtain ⟨ssrc, st, hmax, -, hr⟩ := h.handed hdynamic env addr
  obtain ⟨pts, base, unwrapped, time, heq⟩ := Rtp.deliver_handler env (s.parsed ⟨addr, p.bytes⟩ ssrc st) .blank
    p.timestamp p.given h.handler
  rw [heq] at hr
  rw [show r = _ from hr]
  refine ⟨rfl, rfl, rfl, h.handler, h.payloadType, h.plain, h.queue, .inr ?_, fun _ => ?_⟩
  · exact congrArg (· + 1) p.seqOf_bytes
  · exact congrArg (· + 1) hmax

/-- A handler that leaves the time to the demuxer. -/
def PassesTimes (handler : RTPDynamicProtocolHandler σ) : Prop :=
  ∀ ctx timestamp payload, let out := handler.parsePacket ctx .blank timestamp (some payload)
    out.pkt.pts = none ∧ out.pkt.dts = none ∧ out.timestamp = timestamp

/-- A timestamp that does not stand for another or for none. -/
def Told (timestamp : UInt32) : Prop := timestamp ≠ 0 ∧ timestamp ≠ Rtp.rtpNotsValue

/-- Where the clock of the demuxer stands when it has given the packet with this timestamp that time. -/
structure Clock (s : RTPDemuxContext σ) (timestamp : UInt32) (pts : Int) : Prop where
  rtcp : s.lastRtcpNtpTime = none
  timestamp : s.timestamp = timestamp
  base : s.baseTimestamp ≠ 0
  pts : Rtp.lastPts s = pts

theorem deliver_time (h : s.handler = some handler) (hpasses : PassesTimes handler) {timestamp : UInt32}
    (htold : Told timestamp) (env : Env) (payload : Rtp.Payload) :
    let d := Rtp.deliver env s .blank timestamp payload
    (Rtp.Unstarted s → d.pkt.pts = some s.rangeStartOffset ∧ Clock d.ctx timestamp s.rangeStartOffset) ∧
      ∀ last pts, Told last → Clock s last pts → d.pkt.pts = some (pts + Rtp.signed32 (timestamp - last)) ∧
        Clock d.ctx timestamp (pts + Rtp.signed32 (timestamp - last)) := by
  intro d
  obtain ⟨hpts, hdts, htime⟩ := hpasses s.dynamicProtocolContext timestamp payload
  let out := handler.parsePacket s.dynamicProtocolContext .blank timestamp (some payload)
  let u := { s.record (.parsePacket s.dynamicProtocolContext (some payload)) with dynamicProtocolContext := out.ctx }
  have hd : s.lastRtcpNtpTime = none → d = ⟨out.rv, (Rtp.finalizePacket.unwrap u out.pkt timestamp).1,
      (Rtp.finalizePacket.unwrap u out.pkt timestamp).2⟩ := by
    intro hrtcp
    have hfinal := Rtp.finalizePacket_unwrap (s := u) (u := ⟨out.pkt, timestamp, hpts, hdts⟩) hrtcp htold.2
    have hdeliver : d = (fun x : AVPacket × RTPDemuxContext σ => Rtp.Parsed.mk out.rv x.1 x.2)
        (Rtp.finalizePacket u out.pkt out.timestamp) := by
      change Rtp.deliver env s .blank timestamp payload = _
      unfold Rtp.deliver
      rw [h]
      rfl
    rw [hdeliver, show out.timestamp = timestamp from htime, hfinal]
  refine ⟨fun hs => ?_, fun last pts hlast hclock => ?_⟩
  · have hpts' := Rtp.unwrap_unstarted (s := u) ⟨hs.1, hs.2, hs.3, hs.4⟩ out.pkt timestamp
    rw [hd hs.rtcp]
    refine ⟨(Rtp.unwrap_pts u out.pkt timestamp).trans (congrArg some hpts'), hs.rtcp, rfl, ?_, hpts'⟩
    change (if s.baseTimestamp = 0 then timestamp else s.baseTimestamp) ≠ 0
    rw [if_pos hs.base]
    exact htold.1
  · have hstep := (Rtp.unwrap_step u out.pkt timestamp hclock.base).mpr fun hzero =>
      absurd (hclock.timestamp.symm.trans hzero) hlast.1
    rw [show u.timestamp = last from hclock.timestamp, show Rtp.lastPts u = pts from hclock.pts] at hstep
    rw [hd hclock.rtcp]
    exact ⟨(Rtp.unwrap_pts u out.pkt timestamp).trans (congrArg some hstep), hclock.rtcp, rfl,
      Rtp.unwrap_base u out.pkt timestamp hclock.base, hstep⟩

theorem Awaits.time (h : Awaits handler p.payloadType p.seq s) (hdynamic : Dynamic p.payloadType)
    (hpasses : PassesTimes handler) (htold : Told p.timestamp) (env : Env) (addr : Nat) :
    let r := (Rtp.ffRtpParsePacket env s .blank (some ⟨addr, p.bytes⟩)).1
    (Rtp.Unstarted s → r.pkt.pts = some s.rangeStartOffset ∧ Clock r.ctx p.timestamp s.rangeStartOffset) ∧
      ∀ last pts, Told last → Clock s last pts → r.pkt.pts = some (pts + Rtp.signed32 (p.timestamp - last)) ∧
        Clock r.ctx p.timestamp (pts + Rtp.signed32 (p.timestamp - last)) := by
  intro r
  obtain ⟨ssrc, st, -, -, hr⟩ := h.handed hdynamic env addr
  have hd := deliver_time (s := s.parsed ⟨addr, p.bytes⟩ ssrc st) h.handler hpasses htold env p.given
  rw [show r = _ from hr]
  refine ⟨fun hs => ?_, fun last pts hlast hclock => ?_⟩
  · obtain ⟨hpts, hafter⟩ := hd.1 ⟨hs.1, hs.2, hs.3, hs.4⟩
    exact ⟨hpts, hafter.1, hafter.2, hafter.3, hafter.4⟩
  · obtain ⟨hpts, hafter⟩ := hd.2 last pts hlast ⟨hclock.1, hclock.2, hclock.3, hclock.4⟩
    exact ⟨hpts, hafter.1, hafter.2, hafter.3, hafter.4⟩

end Arrival

/-- A timestamp more is a time more. -/
theorem expectedPts_concat {times : List UInt32} {last timestamp : UInt32} {start pts : Int}
    (hlast : times.getLast? = some last) (hpts : (Rtp.expectedPts start times).getLast? = some pts) :
    Rtp.expectedPts start (times ++ [timestamp]) =
      Rtp.expectedPts start times ++ [pts + Rtp.signed32 (timestamp - last)] := by
  induction times generalizing start with
  | nil => cases hlast
  | cons t times ih =>
      cases times with
      | nil =>
          cases hlast
          cases hpts
          rfl
      | cons t' times =>
          rw [List.cons_append, List.cons_append, Rtp.expectedPts_cons, Rtp.expectedPts_cons, List.cons_append]
          rw [Rtp.expectedPts_cons, Rtp.expectedPts_head, List.getLast?_cons_cons, ← Rtp.expectedPts_head] at hpts
          rw [List.getLast?_cons_cons] at hlast
          exact congrArg (start :: ·) (ih hlast hpts)

section Link

variable {σ : Type}

/-- The muxer and what it was given, its packets on their way, and the demuxer with what its calls gave. -/
structure Link (σ : Type) where
  mux : RTPMuxContext
  written : List Write
  onTheWay : List (List UInt8)
  demux : RTPDemuxContext σ
  received : List (Int × AVPacket)

inductive LinkLabel
  | write (w : Write)
  | arrive (env : Env) (addr : Nat)
  | resetPacketQueue

/-- A transport that loses nothing and keeps the order, to a demuxer set up for the muxer's payload type. -/
def link (handler : RTPDynamicProtocolHandler σ) (data : σ) : System (Link σ) LinkLabel where
  init l := packetizer.init l.mux ∧ Dynamic l.mux.payloadType ∧ l.written = [] ∧ l.onTheWay = [] ∧ l.received = [] ∧
    ∃ nbStreams st queueSize,
      l.demux = Rtp.opened nbStreams st l.mux.payloadType queueSize data (some handler) false
  next l
    | .write w => (packetizer.next l.mux w).map fun mux => { l with
        mux
        written := l.written ++ [w]
        onTheWay := l.onTheWay ++ (mux.sent.drop l.mux.sent.length).map RtpPacket.bytes }
    | .arrive env addr => match l.onTheWay with
        | [] => none
        | bytes :: rest =>
            let r := (Rtp.ffRtpParsePacket env l.demux .blank (some ⟨addr, bytes⟩)).1
            some { l with onTheWay := rest, demux := r.ctx, received := l.received ++ [(r.rv, r.pkt)] }
    | .resetPacketQueue => some { l with demux := Rtp.ffRtpResetPacketQueue l.demux }

/-- What the handler makes of some packets, one after the other, and its context afterwards. -/
def unpack (handler : RTPDynamicProtocolHandler σ) (data : σ) (ps : List RtpPacket) : List (Int × List UInt8) × σ :=
  ps.foldl (fun outs p =>
    let out := handler.parsePacket outs.2 .blank p.timestamp (some p.given)
    (outs.1 ++ [(out.rv, out.pkt.data)], out.ctx)) ([], data)

variable {handler : RTPDynamicProtocolHandler σ} {data : σ} {l : Link σ} {s₀ : RTPMuxContext} {arrived : List RtpPacket}

structure Timed (arrived : List RtpPacket) (l : Link σ) : Prop where
  pts : (l.received.map fun r => r.2.pts) = (Rtp.expectedPts 0 (arrived.map RtpPacket.timestamp)).map some
  fresh : arrived = [] → Rtp.Unstarted l.demux ∧ l.demux.rangeStartOffset = 0
  clock : ∀ before p, arrived = before ++ [p] → ∃ pts,
    (Rtp.expectedPts 0 (arrived.map RtpPacket.timestamp)).getLast? = some pts ∧ Clock l.demux p.timestamp pts

structure Transmits (handler : RTPDynamicProtocolHandler σ) (data : σ) (s₀ : RTPMuxContext)
    (arrived : List RtpPacket) (l : Link σ) : Prop where
  dynamic : Dynamic s₀.payloadType
  numbered : Numbered s₀ l.mux
  sent : ∃ rest, l.mux.sent = arrived ++ rest ∧ l.onTheWay = rest.map RtpPacket.bytes
  awaits : Awaits handler s₀.payloadType (s₀.seq + UInt16.ofNat arrived.length) l.demux
  received : (l.received.map fun r => (r.1, r.2.data), l.demux.dynamicProtocolContext) = unpack handler data arrived
  times : ∀ p ∈ l.mux.sent, ∃ w ∈ l.written, p.timestamp = w.curTimestamp
  timed : PassesTimes handler → (∀ w ∈ l.written, Told w.curTimestamp) → Timed arrived l

/-- A call adds packets of one time. -/
theorem sent_next {s t : RTPMuxContext} {w : Write} (h : packetizer.next s w = some t) :
    ∃ new, t.sent = s.sent ++ new ∧ ∀ p ∈ new, p.timestamp = w.curTimestamp := by
  refine (Kept.next (P := fun t => t.timestamp = w.curTimestamp ∧ ∃ new, t.sent = s.sent ++ new ∧
    ∀ p ∈ new, p.timestamp = w.curTimestamp) ⟨?_, fun _ _ h => h⟩ ⟨rfl, [], by simp, by simp⟩ h).2
  rintro u buf len m ⟨htime, new, hsent, hall⟩
  refine ⟨htime, _, by rw [ffRtpSendData, hsent, List.append_assoc], fun p hp => ?_⟩
  obtain hp | hp := List.mem_append.mp hp
  · exact hall p hp
  · rw [List.mem_singleton.mp hp]
    exact htime

theorem Timed.arrive {p : RtpPacket} (h : Timed arrived l)
    (hawaits : Awaits handler p.payloadType p.seq l.demux) (hdynamic : Dynamic p.payloadType)
    (hpasses : PassesTimes handler) (htold : ∀ q ∈ arrived ++ [p], Told q.timestamp) (env : Env) (addr : Nat)
    (rest : List (List UInt8)) :
    let r := (Rtp.ffRtpParsePacket env l.demux .blank (some ⟨addr, p.bytes⟩)).1
    Timed (arrived ++ [p]) { l with onTheWay := rest, demux := r.ctx, received := l.received ++ [(r.rv, r.pkt)] } := by
  intro r
  obtain ⟨hfirst, hlater⟩ := hawaits.time hdynamic hpasses (htold p (by simp)) env addr
  suffices hsuff : ∃ pts, Rtp.expectedPts 0 ((arrived ++ [p]).map RtpPacket.timestamp) =
      Rtp.expectedPts 0 (arrived.map RtpPacket.timestamp) ++ [pts] ∧ r.pkt.pts = some pts ∧
        Clock r.ctx p.timestamp pts by
    obtain ⟨pts, hexpected, hpts, hclock⟩ := hsuff
    refine ⟨?_, fun hnil => absurd hnil (by simp), fun before q hq => ?_⟩
    · rw [hexpected, List.map_append, List.map_append, h.pts]
      exact congrArg (_ ++ [·]) hpts
    · obtain ⟨-, hlast⟩ := List.append_inj' hq rfl
      obtain rfl := (List.cons.inj hlast).1
      exact ⟨pts, by rw [hexpected, List.getLast?_concat], hclock⟩
  obtain rfl | ⟨before, q, rfl⟩ := List.eq_nil_or_concat' arrived
  · obtain ⟨hunstarted, hrange⟩ := h.fresh rfl
    obtain ⟨hpts, hclock⟩ := hfirst hunstarted
    rw [hrange] at hpts hclock
    exact ⟨0, rfl, hpts, hclock⟩
  · obtain ⟨pts, hexpected, hclock⟩ := h.clock before q rfl
    obtain ⟨hpts, hafter⟩ := hlater _ _ (htold q (by simp)) hclock
    refine ⟨_, ?_, hpts, hafter⟩
    rw [@List.map_append _ _ _ (before ++ [q]) [p]]
    exact expectedPts_concat (by simp) hexpected

theorem Transmits.arrive (h : Transmits handler data s₀ arrived l) {bytes : List UInt8} {rest : List (List UInt8)}
    (hway : l.onTheWay = bytes :: rest) (env : Env) (addr : Nat) :
    let r := (Rtp.ffRtpParsePacket env l.demux .blank (some ⟨addr, bytes⟩)).1
    ∃ p, Transmits handler data s₀ (arrived ++ [p])
      { l with onTheWay := rest, demux := r.ctx, received := l.received ++ [(r.rv, r.pkt)] } := by
  intro r
  obtain ⟨unarrived, hsent, hbytes⟩ := h.sent
  obtain ⟨p, ps, rfl, rfl, rfl⟩ := List.map_eq_cons_iff.mp (hbytes.symm.trans hway)
  have hlt : arrived.length < l.mux.sent.length := by simp [hsent]
  have hp : l.mux.sent[arrived.length] = p := by simp [hsent]
  obtain ⟨hseq, -, htype⟩ := h.numbered.sent arrived.length hlt
  rw [hp] at hseq htype
  have hsame : p.payloadType = s₀.payloadType := by
    rw [htype]
    have hbyte := (second_byte h.dynamic.small false).1
    simpa using hbyte
  have hawaits := h.awaits
  rw [← hseq, ← hsame] at hawaits
  obtain ⟨hrv, hdata, hctx, hafter⟩ := hawaits.parse (by rw [hsame]; exact h.dynamic) env addr
  refine ⟨p, h.dynamic, h.numbered, ⟨ps, by simp [hsent], rfl⟩, ?_, ?_, h.times, fun hpasses htold => ?_⟩
  · rw [hsame, hseq] at hafter
    rw [List.length_append, UInt16.ofNat_add, ← UInt16.add_assoc]
    exact hafter
  · have hreceived := h.received
    rw [unpack, List.foldl_append, ← unpack, ← hreceived]
    simp only [List.map_append, List.map_cons, List.map_nil, List.foldl_cons, List.foldl_nil]
    rw [← hrv, ← hdata, ← hctx]
  · refine (h.timed hpasses htold).arrive hawaits (by rw [hsame]; exact h.dynamic) hpasses (fun q hq => ?_) env addr _
    obtain ⟨w, hw, htime⟩ := h.times q (by rw [hsent]; simp only [List.mem_append, List.mem_cons] at hq ⊢; grind)
    rw [htime]
    exact htold w hw

theorem transmits_of_reachable (h : (link handler data).Reachable l) :
    ∃ s₀ arrived, Transmits handler data s₀ arrived l := by
  refine h.invariant (fun l => ∃ s₀ arrived, Transmits handler data s₀ arrived l) ?_ ?_
  · rintro l ⟨hinit, hdynamic, -, hway, hreceived, nbStreams, st, queueSize, hopened⟩
    have hsent : l.mux.sent = [] := hinit.2.2
    refine ⟨l.mux, [], hdynamic, .init hinit, ⟨[], by simp [hsent], by simp [hway]⟩, ?_, ?_,
      fun p hp => absurd hp (by simp [hsent]), fun _ _ => ⟨by simp [hreceived, Rtp.expectedPts], fun _ => ?_, fun before p hp => ?_⟩⟩
    · rw [hopened]
      exact ⟨rfl, rfl, rfl, rfl, .inl rfl, fun h => absurd h Nat.one_ne_zero⟩
    · rw [hopened, hreceived]
      rfl
    · rw [hopened]
      exact ⟨⟨rfl, rfl, rfl, rfl⟩, rfl⟩
    · simp at hp
  · rintro l label t - ⟨s₀, arrived, h⟩ hnext
    cases label with
    | write w =>
        obtain ⟨mux, hmux, rfl⟩ := Option.map_eq_some_iff.mp hnext
        obtain ⟨unarrived, hsent, hbytes⟩ := h.sent
        obtain ⟨new, hnew, htime⟩ := sent_next hmux
        refine ⟨s₀, arrived, h.dynamic, h.numbered.next hmux, ⟨unarrived ++ new, ?_, ?_⟩, h.awaits, h.received,
          fun p hp => ?_, fun hpasses htold => ?_⟩
        · rw [hnew, hsent, List.append_assoc]
        · rw [hbytes, hnew, List.drop_left, List.map_append]
        · rw [hnew] at hp
          obtain hp | hp := List.mem_append.mp hp
          · obtain ⟨v, hv, hsame⟩ := h.times p hp
            exact ⟨v, List.mem_append_left _ hv, hsame⟩
          · exact ⟨w, by simp, htime p hp⟩
        · have htimed := h.timed hpasses fun v hv => htold v (List.mem_append_left _ hv)
          exact ⟨htimed.1, htimed.2, htimed.3⟩
    | arrive env addr =>
        cases hway : l.onTheWay with
        | nil => simp [link, hway] at hnext
        | cons bytes rest =>
            simp only [link, hway, Option.some.injEq] at hnext
            subst hnext
            obtain ⟨p, hp⟩ := h.arrive hway env addr
            exact ⟨s₀, _, hp⟩
    | resetPacketQueue =>
        cases hnext
        refine ⟨s₀, arrived, h.dynamic, h.numbered, h.sent,
          ⟨h.awaits.handler, h.awaits.payloadType, h.awaits.plain, rfl, .inl rfl, h.awaits.statistics⟩, h.received,
          h.times, fun hpasses htold => ?_⟩
        have htimed := h.timed hpasses htold
        exact ⟨htimed.pts, fun hnil => ⟨⟨(htimed.fresh hnil).1.1, (htimed.fresh hnil).1.2, (htimed.fresh hnil).1.3,
          (htimed.fresh hnil).1.4⟩, (htimed.fresh hnil).2⟩, fun before p hp => by
            obtain ⟨pts, hpts, hclock⟩ := htimed.clock before p hp
            exact ⟨pts, hpts, hclock.1, hclock.2, hclock.3, hclock.4⟩⟩

end Link

section Stream

variable {st : AVStream} {l : Link Unit}

/-- The payload handler of H.264, whose packets can be allocated. -/
def h264DynamicHandler (st : AVStream) : RTPDynamicProtocolHandler Unit where
  parsePacket ctx pkt timestamp payload :=
    let r := h264HandlePacket true st pkt ((payload.map (·.buf)).getD [])
    ⟨r.1, ctx, r.2, timestamp⟩

theorem unpack_h264 (ps : List RtpPacket) {out : List UInt8}
    (h : depacketize (h264HandlePacket true st) (ps.map RtpPacket.payload) = some out) :
    (∀ r ∈ (unpack (h264DynamicHandler st) () ps).1, 0 ≤ r.1) ∧
      (unpack (h264DynamicHandler st) () ps).1.flatMap Prod.snd = out := by
  induction ps using List.reverseRecOn generalizing out with
  | nil =>
      cases h
      exact ⟨fun r hr => absurd hr (by simp [unpack]), rfl⟩
  | append_singleton ps p ih =>
      rw [List.map_append, depacketize_append] at h
      obtain ⟨before, hbefore, h⟩ := Option.bind_eq_some_iff.mp h
      obtain ⟨new, hnew, rfl⟩ := Option.map_eq_some_iff.mp h
      obtain ⟨hok, hdata⟩ := ih hbefore
      have hlast : 0 ≤ (h264HandlePacket true st .blank p.payload).1 ∧
          (h264HandlePacket true st .blank p.payload).2.data = new := by
        simp only [List.map_cons, List.map_nil, depacketize, output] at hnew
        split at hnew
        · cases hnew
        · simp only [Option.map_some, List.append_nil, Option.bind_some, Option.some.injEq] at hnew
          exact ⟨by omega, hnew⟩
      have hsplit : (unpack (h264DynamicHandler st) () (ps ++ [p])).1 = (unpack (h264DynamicHandler st) () ps).1 ++
          [((h264HandlePacket true st .blank p.payload).1, (h264HandlePacket true st .blank p.payload).2.data)] := by
        rw [unpack, List.foldl_append, ← unpack]
        rfl
      rw [hsplit]
      refine ⟨fun r hr => ?_, ?_⟩
      · obtain hr | hr := List.mem_append.mp hr
        · exact hok r hr
        · rw [List.mem_singleton.mp hr]
          exact hlast.1
      · rw [List.flatMap_append, hdata]
        simp [hlast.2]

/-- The muxer is set up for H.264 with aggregation and fragments. -/
structure Sends (n : Nat) (s : RTPMuxContext) : Prop extends Ready .h264 s where
  lengths : s.nalLengthSize = n

def Units (n : Nat) (units : Write → List H264Nal) (ws : List Write) : Prop :=
  ∀ w ∈ ws, units w ≠ [] ∧ Serialized n ((units w).map H264Nal.toNal) w.data

def settings (s : RTPMuxContext) : AVCodecID × Bool × Nat × Nat :=
  (s.codecId, s.mode0, s.maxPayloadSize, s.nalLengthSize)

theorem settings_next {s t : RTPMuxContext} {w : Write} (h : packetizer.next s w = some t) : settings t = settings s :=
  Kept.next (P := fun t => settings t = settings s) ⟨fun _ _ _ h => h, fun _ _ h => h⟩ rfl h

theorem Sends.congr {n : Nat} {s t : RTPMuxContext} (h : Sends n s) (hsame : settings t = settings s) : Sends n t := by
  simp only [settings, Prod.mk.injEq] at hsame
  obtain ⟨hcodec, hmode, hsize, hlengths⟩ := hsame
  obtain ⟨⟨hcodecId, haggregates, hleast, hmost⟩, hn⟩ := h
  rw [← hcodec] at hcodecId
  rw [← hcodec, ← hmode] at haggregates
  rw [← hsize] at hleast hmost
  rw [← hlengths] at hn
  exact ⟨⟨hcodecId, haggregates, hleast, hmost⟩, hn⟩

theorem sent_depacketized (h : (link (h264DynamicHandler st) ()).Reachable l) : packetizer.Reachable l.mux ∧
    ∀ n units, Sends n l.mux → Units n units l.written →
      depacketize (h264HandlePacket true st) (l.mux.sent.map RtpPacket.payload) =
        some (receivedUnits ((l.written.flatMap units).map (·.bytes))) := by
  refine h.invariant (fun l => packetizer.Reachable l.mux ∧ ∀ n units, Sends n l.mux → Units n units l.written →
    depacketize (h264HandlePacket true st) (l.mux.sent.map RtpPacket.payload) =
      some (receivedUnits ((l.written.flatMap units).map (·.bytes)))) ?_ ?_
  · rintro l ⟨hinit, -, hwritten, -⟩
    have hsent : l.mux.sent = [] := hinit.2.2
    refine ⟨.init hinit, fun n units _ _ => ?_⟩
    rw [hsent, hwritten]
    rfl
  · rintro l label t - ⟨hreachable, ih⟩ hnext
    cases label with
    | write w =>
        obtain ⟨mux, hmux, rfl⟩ := Option.map_eq_some_iff.mp hnext
        refine ⟨hreachable.step hmux, fun n units hsends hunits => ?_⟩
        have hbefore := hsends.congr (settings_next hmux).symm
        obtain ⟨hne, hw⟩ := hunits w (by simp)
        rw [← hbefore.lengths] at hw
        obtain ⟨t, new, ht, hsent, hnew⟩ := write_received hreachable hbefore.toReady st w hne hw
        obtain rfl : t = mux := Option.some.inj (ht.symm.trans hmux)
        have hold := ih n units hbefore fun v hv => hunits v (by simp [hv])
        simp only [hsent, List.map_append, depacketize_append, hold, hnew, List.flatMap_append, receivedUnits_append,
          Option.bind_some, Option.map_some, List.flatMap_cons, List.flatMap_nil, List.append_nil]
    | arrive env addr =>
        cases hway : l.onTheWay with
        | nil => simp [link, hway] at hnext
        | cons bytes rest =>
            simp only [link, hway, Option.some.injEq] at hnext
            subst hnext
            exact ⟨hreachable, ih⟩
    | resetPacketQueue =>
        cases hnext
        exact ⟨hreachable, ih⟩

/-- What was written is received, as far as its packets have arrived, and no packet is refused. -/
theorem stream_received (h : (link (h264DynamicHandler st) ()).Reachable l) {n : Nat} {units : Write → List H264Nal}
    (hsends : Sends n l.mux) (hunits : Units n units l.written) :
    (∀ r ∈ l.received, 0 ≤ r.1) ∧ ∃ rest,
      (l.received.flatMap fun r => r.2.data) ++ rest = receivedUnits ((l.written.flatMap units).map (·.bytes)) ∧
        (l.onTheWay = [] → rest = []) := by
  obtain ⟨s₀, arrived, htransmits⟩ := transmits_of_reachable h
  obtain ⟨unarrived, hsent, hway⟩ := htransmits.sent
  have hall := (sent_depacketized h).2 n units hsends hunits
  rw [hsent, List.map_append, depacketize_append] at hall
  obtain ⟨out, hout, hall⟩ := Option.bind_eq_some_iff.mp hall
  obtain ⟨rest, hrest, hall⟩ := Option.map_eq_some_iff.mp hall
  obtain ⟨hok, hdata⟩ := unpack_h264 arrived hout
  have hreceived := congrArg Prod.fst htransmits.received
  dsimp only at hreceived
  rw [← hreceived] at hok hdata
  refine ⟨fun r hr => hok _ (List.mem_map_of_mem hr), rest, ?_, fun hnone => ?_⟩
  · rw [← hall, ← hdata, List.flatMap_map]
  · rw [hnone] at hway
    rw [List.map_eq_nil_iff.mp hway.symm] at hrest
    exact (Option.some.inj hrest).symm

/-- The packets that are on their way can all arrive. -/
theorem arrives_all {σ : Type} {handler : RTPDynamicProtocolHandler σ} {data : σ} (env : Env) (l : Link σ) :
    ∃ t ls, (link handler data).Run l ls t ∧ t.onTheWay = [] ∧ t.mux = l.mux ∧ t.written = l.written := by
  induction hway : l.onTheWay generalizing l with
  | nil => exact ⟨l, [], .nil, hway, rfl, rfl⟩
  | cons bytes rest ih =>
      let r := (Rtp.ffRtpParsePacket env l.demux .blank (some ⟨0, bytes⟩)).1
      let next : Link σ := { l with onTheWay := rest, demux := r.ctx, received := l.received ++ [(r.rv, r.pkt)] }
      have hnext : (link handler data).next l (.arrive env 0) = some next := by
        simp only [link, hway]
        rfl
      obtain ⟨t, ls, hrun, hnone, hmux, hwritten⟩ := ih next rfl
      exact ⟨t, _, (System.Run.snoc .nil hnext).trans hrun, hnone, hmux, hwritten⟩

def twoUnits : Write := ⟨3000, 0, [0, 0, 0, 1, 0x67, 1, 0, 0, 1, 0x65, 1, 2, 3, 4, 5, 6, 7, 8]⟩

theorem twoUnits_units : Units 0 (fun _ => [parameterSet, idrSlice]) [twoUnits] := by
  intro w hw
  rw [List.mem_singleton.mp hw]
  exact ⟨List.cons_ne_nil _ _, .annexB [(true, parameterSet.toNal), (false, idrSlice.toNal)]⟩

theorem twoUnits_arrive : ∃ l, (link (h264DynamicHandler ⟨0, ⟨1, 90000⟩⟩) ()).Reachable l ∧ l.written = [twoUnits] ∧
    l.onTheWay = [] ∧ Sends 0 l.mux := by
  have hsends : Sends 0 blankMux := ⟨⟨rfl, by decide, by decide, by decide⟩, rfl⟩
  let start : Link Unit := ⟨blankMux, [], [], Rtp.opened 1 none 96 10 () (some (h264DynamicHandler ⟨0, ⟨1, 90000⟩⟩)) false, []⟩
  obtain ⟨hne, hw⟩ := twoUnits_units twoUnits (List.mem_singleton_self _)
  obtain ⟨mux, new, hnext, -⟩ := write_received (.init ⟨rfl, rfl, rfl⟩) hsends.toReady ⟨0, ⟨1, 90000⟩⟩ twoUnits hne hw
  have hwrite : (link (h264DynamicHandler ⟨0, ⟨1, 90000⟩⟩) ()).next start (.write twoUnits) = some { start with
      mux, written := [twoUnits], onTheWay := (mux.sent.drop 0).map RtpPacket.bytes } := by
    simp only [link, start, hnext, Option.map_some]
    rfl
  obtain ⟨l, ls, hrun, hnone, hmux, hwritten⟩ := arrives_all ⟨0, fun _ => none, true, fun _ => true⟩ { start with
    mux, written := [twoUnits], onTheWay := (mux.sent.drop 0).map RtpPacket.bytes }
  refine ⟨l, ⟨start, _, ⟨⟨rfl, rfl, rfl⟩, ⟨by decide, by decide⟩, rfl, rfl, rfl, 1, none, 10, rfl⟩,
    (System.Run.snoc .nil hwrite).trans hrun⟩, hwritten, hnone, ?_⟩
  rw [hmux]
  exact hsends.congr (settings_next hnext)

theorem stream_received_two : ∃ l : Link Unit, l.written = [twoUnits] ∧
    (l.received.flatMap fun r => r.2.data) = [0, 0, 0, 1, 0x67, 1, 0, 0, 0, 1, 0x65, 1, 2, 3, 4, 5, 6, 7, 8] := by
  obtain ⟨l, hreachable, hwritten, hnone, hsends⟩ := twoUnits_arrive
  obtain ⟨-, rest, hdata, hrest⟩ := stream_received hreachable hsends (by rw [hwritten]; exact twoUnits_units)
  refine ⟨l, hwritten, ?_⟩
  rw [hrest hnone, List.append_nil, hwritten] at hdata
  exact hdata

/-- The packets of the muxer are handled in the order in which they were sent, each once and as it was sent, and
none is left in the demuxer. -/
theorem packets_in_order {σ : Type} {handler : RTPDynamicProtocolHandler σ} {data : σ} {l : Link σ}
    (h : (link handler data).Reachable l) : ∃ arrived rest,
    l.mux.sent = arrived ++ rest ∧ l.onTheWay = rest.map RtpPacket.bytes ∧ l.demux.queue = [] ∧
      (l.received.map fun r => (r.1, r.2.data), l.demux.dynamicProtocolContext) = unpack handler data arrived := by
  obtain ⟨s₀, arrived, h⟩ := transmits_of_reachable h
  obtain ⟨rest, hsent, hway⟩ := h.sent
  exact ⟨arrived, rest, hsent, hway, h.awaits.queue, h.received⟩

theorem packets_in_order_two : ∃ l : Link Unit, l.written = [twoUnits] ∧ l.demux.queue = [] ∧
    (l.received.map fun r => (r.1, r.2.data)) = (unpack (h264DynamicHandler ⟨0, ⟨1, 90000⟩⟩) () l.mux.sent).1 := by
  obtain ⟨l, hreachable, hwritten, hnone, -⟩ := twoUnits_arrive
  obtain ⟨arrived, rest, hsent, hway, hqueue, hreceived⟩ := packets_in_order hreachable
  rw [hnone] at hway
  rw [List.map_eq_nil_iff.mp hway.symm, List.append_nil] at hsent
  refine ⟨l, hwritten, hqueue, ?_⟩
  rw [hsent]
  exact congrArg Prod.fst hreceived

/-- The first packet comes at zero, and each one as much later than the one before as its timestamp, which is the time
of its write. -/
theorem packets_timed {σ : Type} {handler : RTPDynamicProtocolHandler σ} {data : σ} {l : Link σ}
    (h : (link handler data).Reachable l) (hpasses : PassesTimes handler)
    (htold : ∀ w ∈ l.written, Told w.curTimestamp) : ∃ arrived rest, l.mux.sent = arrived ++ rest ∧
      l.onTheWay = rest.map RtpPacket.bytes ∧ (∀ p ∈ l.mux.sent, ∃ w ∈ l.written, p.timestamp = w.curTimestamp) ∧
      (l.received.map fun r => r.2.pts) = (Rtp.expectedPts 0 (arrived.map RtpPacket.timestamp)).map some := by
  obtain ⟨s₀, arrived, h⟩ := transmits_of_reachable h
  obtain ⟨rest, hsent, hway⟩ := h.sent
  exact ⟨arrived, rest, hsent, hway, h.times, (h.timed hpasses htold).pts⟩

theorem h264_passes : PassesTimes (h264DynamicHandler st) := by
  intro ctx timestamp payload out
  have hnew : ∀ data, (newPacket true .blank data).2.pts = none ∧ (newPacket true .blank data).2.dts = none :=
    fun _ => ⟨rfl, rfl⟩
  have haggregate : ∀ buf n, (ffH264HandleAggregatedPacket true .blank buf n).2.pts = none ∧
      (ffH264HandleAggregatedPacket true .blank buf n).2.dts = none := by
    intro buf n
    unfold ffH264HandleAggregatedPacket
    split
    · exact ⟨rfl, rfl⟩
    · dsimp only
      split
      · exact hnew _
      · split <;> exact ⟨rfl, rfl⟩
  have hfragment : ∀ buf, (h264HandlePacketFuA true .blank buf).2.pts = none ∧
      (h264HandlePacketFuA true .blank buf).2.dts = none := by
    intro buf
    unfold h264HandlePacketFuA
    split
    · exact ⟨rfl, rfl⟩
    · exact hnew _
  suffices hpacket : out.pkt.pts = none ∧ out.pkt.dts = none from ⟨hpacket.1, hpacket.2, rfl⟩
  change (h264HandlePacket true st .blank payload.buf).2.pts = none ∧
    (h264HandlePacket true st .blank payload.buf).2.dts = none
  unfold h264HandlePacket
  split
  · exact ⟨rfl, rfl⟩
  · dsimp only
    split_ifs <;> first | exact haggregate _ _ | exact hfragment _ | exact ⟨rfl, rfl⟩

theorem packets_timed_two : ∃ l : Link Unit, l.written = [twoUnits] ∧
    (l.received.map fun r => r.2.pts) = (Rtp.expectedPts 0 (l.mux.sent.map RtpPacket.timestamp)).map some := by
  obtain ⟨l, hreachable, hwritten, hnone, -⟩ := twoUnits_arrive
  obtain ⟨arrived, rest, hsent, hway, -, hpts⟩ := packets_timed hreachable h264_passes (by
    rw [hwritten]
    intro w hw
    rw [List.mem_singleton.mp hw]
    exact ⟨by decide, by decide⟩)
  rw [hnone] at hway
  rw [List.map_eq_nil_iff.mp hway.symm, List.append_nil] at hsent
  refine ⟨l, hwritten, ?_⟩
  rw [hsent]
  exact hpts

end Stream

end P2PFFmpeg.Payload
