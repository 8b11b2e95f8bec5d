import P2PFFmpeg.Rtp.Parse
import P2PFFmpeg.Library.Transition

namespace P2PFFmpeg.Rtp

open Util Library.Serial Library.Transition

section

variable {σ : Type} {env : Env} {s : RTPDemuxContext σ} {pkt : AVPacket} {buf : Buffer}

structure KeepsQueue (s t : RTPDemuxContext σ) : Prop where
  queue : t.queue = s.queue
  queueLen : t.queueLen = s.queueLen
  queueSize : t.queueSize = s.queueSize
  handler : t.handler = s.handler

structure Still (s t : RTPDemuxContext σ) : Prop extends KeepsQueue s t where
  seq : t.seq = s.seq
  dynamicProtocolContext : t.dynamicProtocolContext = s.dynamicProtocolContext
  calls : t.calls = s.calls

theorem Still.refl (s : RTPDemuxContext σ) : Still s s := ⟨⟨rfl, rfl, rfl, rfl⟩, rfl, rfl, rfl⟩

theorem Still.trans {s t u : RTPDemuxContext σ} (h : Still s t) (g : Still t u) : Still s u where
  queue := g.queue.trans h.queue
  queueLen := g.queueLen.trans h.queueLen
  queueSize := g.queueSize.trans h.queueSize
  handler := g.handler.trans h.handler
  seq := g.seq.trans h.seq
  dynamicProtocolContext := g.dynamicProtocolContext.trans h.dynamicProtocolContext
  calls := g.calls.trans h.calls

theorem finalizePacket_eq (s : RTPDemuxContext σ) (pkt : AVPacket) (timestamp : UInt32) :
    ∃ pts base unwrapped time, finalizePacket s pkt timestamp =
      ({ pkt with pts := pts },
        { s with baseTimestamp := base, unwrappedTimestamp := unwrapped, timestamp := time }) := by
  have hunwrap : ∃ pts base unwrapped time, finalizePacket.unwrap s pkt timestamp =
      ({ pkt with pts := pts },
        { s with baseTimestamp := base, unwrappedTimestamp := unwrapped, timestamp := time }) :=
    ⟨_, _, _, _, rfl⟩
  unfold finalizePacket
  by_cases hset : pkt.pts.isSome ∨ pkt.dts.isSome
  · rw [if_pos hset]
    exact ⟨_, _, _, _, rfl⟩
  · by_cases hno : timestamp = rtpNotsValue
    · rw [if_neg hset, if_pos hno]
      exact ⟨_, _, _, _, rfl⟩
    · rw [if_neg hset, if_neg hno]
      split
      · by_cases hn : s.nbStreams > 1
        · simp only [if_pos hn]
          exact ⟨_, _, _, _, rfl⟩
        · simp only [if_neg hn]
          exact hunwrap
      · exact hunwrap

theorem updateJitter_still (env : Env) (s : RTPDemuxContext σ) (buf : List UInt8) :
    Still s (updateJitter env s buf) := by
  unfold updateJitter
  cases s.st <;> exact ⟨⟨rfl, rfl, rfl, rfl⟩, rfl, rfl, rfl⟩

theorem rtcpParsePacket_still (env : Env) (s : RTPDemuxContext σ) (buf : List UInt8) :
    Still s (rtcpParsePacket env s buf).2 := by
  fun_induction rtcpParsePacket env s buf with
  | case1 | case2 | case4 => exact .refl _
  | case3 s buf _ _ _ _ ntpTime timestamp t u ih =>
      refine Still.trans ?_ ih
      simp only [u]
      split_ifs <;> exact ⟨⟨rfl, rfl, rfl, rfl⟩, rfl, rfl, rfl⟩
  | case5 s buf _ _ _ _ ih => exact ih

theorem rtcpParsePacket_neg (env : Env) (s : RTPDemuxContext σ) (buf : List UInt8) :
    (rtcpParsePacket env s buf).1 < 0 := by
  fun_induction rtcpParsePacket env s buf with
  | case1 => exact (by decide : (-1 : Int) < 0)
  | case2 => exact (by decide : averrorInvaliddata < 0)
  | case4 => exact (by decide : -(rtcpBye.toNat : Int) < 0)
  | case3 _ _ _ _ _ _ _ _ _ _ ih => exact ih
  | case5 _ _ _ _ _ _ ih => exact ih

theorem payloadOf_error {buf : List UInt8} {e : Int} (h : payloadOf buf = .error e) : e < 0 := by
  unfold payloadOf at h
  dsimp only at h
  generalize (if hasPadding buf = true ∧ 12 + (byteAt buf (buf.length - 1)).toNat ≤ buf.length
    then (buf.length : Int) - (byteAt buf (buf.length - 1)).toNat else buf.length) = padded at h
  split_ifs at h with hlen hext hfour hfit
  · cases h
    decide
  · cases h
    decide
  · cases h
    decide

/-- What one packet does on its way through the decoder: it is rejected, it is
malformed behind its sequence number, or the handler is given its payload. -/
inductive Verdict (s : RTPDemuxContext σ) (buf : Buffer) (r : Parsed σ) : Prop
  | rejected (rv : r.rv < 0) (seq : r.ctx.seq = s.seq)
      (calls : r.ctx.calls = s.calls ++ [.parse buf])
      (ctx : r.ctx.dynamicProtocolContext = s.dynamicProtocolContext)
  | malformed (e : Int) (payload : payloadOf buf.data = .error e) (rv : r.rv < 0)
      (seq : r.ctx.seq = seqOf buf.data) (calls : r.ctx.calls = s.calls ++ [.parse buf])
      (ctx : r.ctx.dynamicProtocolContext = s.dynamicProtocolContext)
  | unhandled (handler : s.handler = none)
      (calls : r.ctx.calls = s.calls ++ [.parse buf])
  | handled (handler : RTPDynamicProtocolHandler σ) (hs : s.handler = some handler)
      (body : List UInt8) (payload : payloadOf buf.data = .ok body)
      (pkt : AVPacket) (timestamp : UInt32) (p : Payload) (hp : p = ⟨body, seqOf buf.data, hasMarker buf.data⟩)
      (rv : r.rv = (handler.parsePacket s.dynamicProtocolContext pkt timestamp (some p)).rv)
      (seq : r.ctx.seq = seqOf buf.data)
      (calls : r.ctx.calls =
        s.calls ++ [.parse buf, .parsePacket s.dynamicProtocolContext (some p)])
      (ctx : r.ctx.dynamicProtocolContext =
        (handler.parsePacket s.dynamicProtocolContext pkt timestamp (some p)).ctx)
      (data : r.pkt.data =
        (handler.parsePacket s.dynamicProtocolContext pkt timestamp (some p)).pkt.data)

theorem deliver_handler (env : Env) (s : RTPDemuxContext σ) (pkt : AVPacket) (timestamp : UInt32)
    (payload : Payload) {handler : RTPDynamicProtocolHandler σ} (h : s.handler = some handler) :
    let r := handler.parsePacket s.dynamicProtocolContext pkt timestamp (some payload)
    ∃ pts base unwrapped time, deliver env s pkt timestamp payload = ⟨r.rv, { r.pkt with pts := pts },
      { s with
        calls := s.calls ++ [.parsePacket s.dynamicProtocolContext (some payload)]
        dynamicProtocolContext := r.ctx
        baseTimestamp := base
        unwrappedTimestamp := unwrapped
        timestamp := time }⟩ := by
  intro r
  obtain ⟨pts, base, unwrapped, time, heq⟩ := finalizePacket_eq
    { s.record (.parsePacket s.dynamicProtocolContext (some payload)) with
      dynamicProtocolContext := r.ctx } r.pkt r.timestamp
  refine ⟨pts, base, unwrapped, time, ?_⟩
  unfold deliver
  split
  · next found hfound =>
      cases h.symm.trans hfound
      exact congrArg (fun x : AVPacket × RTPDemuxContext σ => Parsed.mk r.rv x.1 x.2) heq
  · next hfound _ => cases h.symm.trans hfound
  · next hfound _ => cases h.symm.trans hfound

theorem deliver_copy (env : Env) (s : RTPDemuxContext σ) (pkt : AVPacket) (timestamp : UInt32)
    (payload : Payload) (h : s.handler = none) :
    ∃ base unwrapped time, (deliver env s pkt timestamp payload).ctx =
      { s with baseTimestamp := base, unwrappedTimestamp := unwrapped, timestamp := time } := by
  unfold deliver
  split
  · next hfound => cases h.symm.trans hfound
  · next st _ _ =>
      by_cases ha : env.avNewPacket s.calls.length
      · simp only [if_pos ha]
        obtain ⟨pts, base, unwrapped, time, heq⟩ := finalizePacket_eq s
          { AVPacket.blank with data := payload.buf, streamIndex := st.index } timestamp
        exact ⟨base, unwrapped, time, congrArg Prod.snd heq⟩
      · simp only [if_neg ha]
        exact ⟨_, _, _, rfl⟩
  · exact ⟨_, _, _, rfl⟩

theorem deliver_keeps (env : Env) (s : RTPDemuxContext σ) (pkt : AVPacket) (timestamp : UInt32)
    (payload : Payload) : KeepsQueue s (deliver env s pkt timestamp payload).ctx := by
  cases h : s.handler with
  | some handler =>
      obtain ⟨pts, base, unwrapped, time, heq⟩ := deliver_handler env s pkt timestamp payload h
      rw [heq]
      exact ⟨rfl, rfl, rfl, rfl⟩
  | none =>
      obtain ⟨base, unwrapped, time, heq⟩ := deliver_copy env s pkt timestamp payload h
      rw [heq]
      exact ⟨rfl, rfl, rfl, rfl⟩

def RTPDemuxContext.parsed (s : RTPDemuxContext σ) (buf : Buffer) (ssrc : UInt32) (statistics : RTPStatistics) :
    RTPDemuxContext σ :=
  { s.record (.parse buf) with
    ssrc := ssrc
    statistics := statistics
    seq := seqOf buf.data }

theorem internal_eq (env : Env) (pkt : AVPacket) {valid : Bool} {statistics : RTPStatistics}
    (h : rtpValidPacketInSequence s.statistics (seqOf buf.data) = (valid, statistics)) :
    rtpParsePacketInternal env s pkt buf =
      if s.payloadType ≠ payloadTypeOf buf.data then
        ⟨-1, pkt, { s.record (.parse buf) with ssrc := avRb32 buf.data 8 }⟩
      else if valid then
        match payloadOf buf.data with
        | .error e => ⟨e, pkt, s.parsed buf (avRb32 buf.data 8) statistics⟩
        | .ok payload => deliver env (s.parsed buf (avRb32 buf.data 8) statistics) pkt (avRb32 buf.data 4)
            ⟨payload, seqOf buf.data, hasMarker buf.data⟩
      else ⟨-1, pkt, { s.record (.parse buf) with ssrc := avRb32 buf.data 8, statistics := statistics }⟩ := by
  unfold rtpParsePacketInternal
  simp only [RTPDemuxContext.record, h]
  rfl

theorem keeps_parsed (s : RTPDemuxContext σ) (buf : Buffer) (ssrc : UInt32) (statistics : RTPStatistics) :
    KeepsQueue s (s.parsed buf ssrc statistics) := ⟨rfl, rfl, rfl, rfl⟩

theorem keeps_noted (s : RTPDemuxContext σ) (buf : Buffer) (ssrc : UInt32) (statistics : RTPStatistics) :
    KeepsQueue s { s.record (.parse buf) with ssrc := ssrc, statistics := statistics } := ⟨rfl, rfl, rfl, rfl⟩

theorem seq_noted (s : RTPDemuxContext σ) (buf : Buffer) (ssrc : UInt32) (statistics : RTPStatistics) :
    ({ s.record (.parse buf) with ssrc := ssrc, statistics := statistics } : RTPDemuxContext σ).seq = s.seq := rfl

theorem verdict_noted (s : RTPDemuxContext σ) (pkt : AVPacket) (buf : Buffer) (ssrc : UInt32)
    (statistics : RTPStatistics) :
    Verdict s buf ⟨-1, pkt, { s.record (.parse buf) with ssrc := ssrc, statistics := statistics }⟩ :=
  .rejected (show (-1 : Int) < 0 by decide) rfl rfl rfl

theorem verdict_malformed (s : RTPDemuxContext σ) (pkt : AVPacket) (ssrc : UInt32) (statistics : RTPStatistics)
    {e : Int} (h : payloadOf buf.data = .error e) : Verdict s buf ⟨e, pkt, s.parsed buf ssrc statistics⟩ :=
  .malformed e h (payloadOf_error h) rfl rfl rfl

theorem verdict_delivered (env : Env) (s : RTPDemuxContext σ) (pkt : AVPacket) (ssrc timestamp : UInt32)
    (statistics : RTPStatistics) {body : List UInt8} (hbody : payloadOf buf.data = .ok body) :
    Verdict s buf (deliver env (s.parsed buf ssrc statistics) pkt timestamp
      ⟨body, seqOf buf.data, hasMarker buf.data⟩) := by
  cases hh : s.handler with
  | some handler =>
      obtain ⟨pts, base, unwrapped, time, heq⟩ := deliver_handler env (s.parsed buf ssrc statistics) pkt timestamp
        ⟨body, seqOf buf.data, hasMarker buf.data⟩ hh
      refine .handled handler hh body hbody pkt timestamp _ rfl ?_ ?_ ?_ ?_ ?_
      · exact congrArg Parsed.rv heq
      · exact congrArg (fun r => r.ctx.seq) heq
      · refine (congrArg (fun r => r.ctx.calls) heq).trans ?_
        simp [RTPDemuxContext.parsed, RTPDemuxContext.record]
      · exact congrArg (fun r => r.ctx.dynamicProtocolContext) heq
      · exact congrArg (fun r => r.pkt.data) heq
  | none =>
      obtain ⟨base, unwrapped, time, heq⟩ := deliver_copy env (s.parsed buf ssrc statistics) pkt timestamp
        ⟨body, seqOf buf.data, hasMarker buf.data⟩ hh
      exact .unhandled hh (congrArg RTPDemuxContext.calls heq)

theorem internal_keeps (env : Env) (s : RTPDemuxContext σ) (pkt : AVPacket) (buf : Buffer) :
    KeepsQueue s (rtpParsePacketInternal env s pkt buf).ctx := by
  obtain ⟨⟨valid, statistics⟩, hv⟩ : ∃ r, rtpValidPacketInSequence s.statistics (seqOf buf.data) = r := ⟨_, rfl⟩
  rw [internal_eq env pkt hv]
  split_ifs
  · exact keeps_noted s buf _ _
  · cases payloadOf buf.data with
    | error e => exact keeps_parsed s buf _ _
    | ok body =>
        have h := deliver_keeps env (s.parsed buf (avRb32 buf.data 8) statistics) pkt (avRb32 buf.data 4)
          ⟨body, seqOf buf.data, hasMarker buf.data⟩
        have hs := keeps_parsed s buf (avRb32 buf.data 8) statistics
        exact ⟨h.queue.trans hs.queue, h.queueLen.trans hs.queueLen, h.queueSize.trans hs.queueSize,
          h.handler.trans hs.handler⟩
  · exact keeps_noted s buf _ _

theorem internal_verdict (env : Env) (s : RTPDemuxContext σ) (pkt : AVPacket) (buf : Buffer) :
    Verdict s buf (rtpParsePacketInternal env s pkt buf) := by
  obtain ⟨⟨valid, statistics⟩, hv⟩ : ∃ r, rtpValidPacketInSequence s.statistics (seqOf buf.data) = r := ⟨_, rfl⟩
  rw [internal_eq env pkt hv]
  split_ifs
  · exact verdict_noted s pkt buf _ _
  · cases hbody : payloadOf buf.data with
    | error e => exact verdict_malformed s pkt _ _ hbody
    | ok body => exact verdict_delivered env s pkt _ _ _ hbody
  · exact verdict_noted s pkt buf _ _

theorem Verdict.parses {r : Parsed σ} (h : Verdict s buf r) :
    ∃ handled, r.ctx.calls = s.calls ++ .parse buf :: handled ∧
      ∀ call ∈ handled, ∃ ctx payload, call = .parsePacket ctx payload := by
  cases h with
  | rejected _ _ calls | malformed _ _ _ _ calls | unhandled _ calls =>
      exact ⟨[], calls, by simp⟩
  | handled handler hs body payload pkt timestamp p hp rv seq calls =>
      exact ⟨[.parsePacket s.dynamicProtocolContext (some p)], calls, by simp⟩

theorem queued_none (env : Env) (pkt : AVPacket) (h : s.queueLen ≤ 0 ∨ s.queue = []) :
    rtpParseQueuedPacket env s pkt = ⟨-1, pkt, s⟩ := by
  unfold rtpParseQueuedPacket
  by_cases hlen : s.queueLen ≤ 0
  · rw [if_pos hlen]
  · rw [if_neg hlen, h.resolve_left hlen]

theorem queued_head (env : Env) (pkt : AVPacket) {packet : RTPPacket} {rest : List RTPPacket}
    (hlen : 0 < s.queueLen) (hq : s.queue = packet :: rest) :
    let r := rtpParsePacketInternal env s pkt packet.buf
    rtpParseQueuedPacket env s pkt = ⟨r.rv, r.pkt, { r.ctx with
      calls := r.ctx.calls ++ [.free packet.buf]
      queue := rest
      queueLen := s.queueLen - 1 }⟩ := by
  intro r
  unfold rtpParseQueuedPacket
  rw [if_neg (by omega), hq]
  have hkeeps := (internal_keeps env s pkt packet.buf).queueLen
  simp only [RTPDemuxContext.record, hkeeps, r]

structure Joins (s t : RTPDemuxContext σ) (packet : RTPPacket) : Prop where
  queue : t.queue = s.queue.orderedInsert (fun p cur => signed16 (p.seq - cur.seq) < 0) packet
  queueLen : t.queueLen = s.queueLen + 1
  queueSize : t.queueSize = s.queueSize
  handler : t.handler = s.handler
  seq : t.seq = s.seq
  dynamicProtocolContext : t.dynamicProtocolContext = s.dynamicProtocolContext
  calls : t.calls = s.calls

/-- What an arriving buffer meets: it is dropped, it is parsed on the spot, it
waits in the queue, or it fills the queue and the head of the queue is parsed. -/
inductive Arrival (env : Env) (s : RTPDemuxContext σ) (pkt : AVPacket) (buf : Buffer) :
    Parsed σ × Option Buffer → Prop
  | dropped (r : Parsed σ) (rv : r.rv < 0) (still : Still s r.ctx) : Arrival env s pkt buf (r, some buf)
  | direct (t : RTPDemuxContext σ) (still : Still s t)
      (now : (s.seq = 0 ∧ s.queue = []) ∨ s.queueSize ≤ 1 ∨
        (0 ≤ signed16 (seqOf buf.data - s.seq) ∧ signed16 (seqOf buf.data - s.seq) ≤ 1)) :
      Arrival env s pkt buf (rtpParsePacketInternal env t pkt buf, some buf)
  | waits (t : RTPDemuxContext σ) (packet : RTPPacket) (hseq : packet.seq = seqOf buf.data)
      (hbuf : packet.buf = buf) (joins : Joins s t packet)
      (ahead : 1 < signed16 (seqOf buf.data - s.seq)) (size : 1 < s.queueSize)
      (started : ¬(s.seq = 0 ∧ s.queue = [])) (room : s.queueLen + 1 < s.queueSize) :
      Arrival env s pkt buf (⟨-1, pkt, t⟩, none)
  | full (t : RTPDemuxContext σ) (packet : RTPPacket) (hseq : packet.seq = seqOf buf.data)
      (hbuf : packet.buf = buf) (joins : Joins s t packet)
      (ahead : 1 < signed16 (seqOf buf.data - s.seq)) (size : 1 < s.queueSize)
      (started : ¬(s.seq = 0 ∧ s.queue = [])) (room : s.queueSize ≤ s.queueLen + 1) :
      Arrival env s pkt buf (rtpParseQueuedPacket env t pkt, none)

theorem enqueuePacket_some (env : Env) (s : RTPDemuxContext σ) (buf : Buffer) (h : env.avMallocz = true) :
    (enqueuePacket env s buf).1 = 0 ∧
      Joins s (enqueuePacket env s buf).2 ⟨seqOf buf.data, buf, env.now⟩ := by
  unfold enqueuePacket
  rw [if_pos h]
  exact ⟨rfl, rfl, rfl, rfl, rfl, rfl, rfl, rfl⟩

theorem Still.joins {s t u : RTPDemuxContext σ} {packet : RTPPacket} (h : Still s t)
    (g : Joins t u packet) : Joins s u packet where
  queue := by rw [g.queue, h.queue]
  queueLen := by rw [g.queueLen, h.queueLen]
  queueSize := by rw [g.queueSize, h.queueSize]
  handler := by rw [g.handler, h.handler]
  seq := by rw [g.seq, h.seq]
  dynamicProtocolContext := by rw [g.dynamicProtocolContext, h.dynamicProtocolContext]
  calls := by rw [g.calls, h.calls]

theorem one_arrival (env : Env) (s : RTPDemuxContext σ) (pkt : AVPacket) (buf : Buffer) :
    Arrival env s pkt buf (rtpParseOnePacket env s pkt (some buf)) := by
  have hminus : ∀ t : RTPDemuxContext σ, (⟨-1, pkt, t⟩ : Parsed σ).rv < 0 := fun _ => by simp
  have hstill := updateJitter_still env s buf.data
  unfold rtpParseOnePacket
  dsimp only
  by_cases hshort : buf.data.length < 12
  · rw [if_pos hshort]
    exact .dropped _ (hminus s) (.refl s)
  rw [if_neg hshort]
  by_cases hversion : ¬isVersion2 buf.data
  · rw [if_pos hversion]
    exact .dropped _ (hminus s) (.refl s)
  rw [if_neg hversion]
  by_cases hrtcp : rtpPtIsRtcp (byteAt buf.data 1)
  · rw [if_pos hrtcp]
    exact .dropped _ (rtcpParsePacket_neg env s buf.data) (rtcpParsePacket_still env s buf.data)
  rw [if_neg hrtcp, hstill.seq, hstill.queue, hstill.queueSize]
  by_cases hfirst : (s.seq = 0 ∧ s.queue = []) ∨ s.queueSize ≤ 1
  · rw [if_pos hfirst]
    exact .direct _ hstill (or_assoc.mp (.inl hfirst))
  rw [if_neg hfirst]
  obtain ⟨hstarted, hsize⟩ := not_or.mp hfirst
  by_cases hold : signed16 (seqOf buf.data - s.seq) < 0
  · rw [if_pos hold]
    exact .dropped _ (hminus _) hstill
  rw [if_neg hold]
  by_cases hnext : signed16 (seqOf buf.data - s.seq) ≤ 1
  · rw [if_pos hnext]
    exact .direct _ hstill (.inr (.inr ⟨by omega, hnext⟩))
  rw [if_neg hnext]
  cases hmalloc : env.avMallocz with
  | false =>
      have henqueue : enqueuePacket env (updateJitter env s buf.data) buf =
          (averrorEnomem, updateJitter env s buf.data) := by
        simp [enqueuePacket, hmalloc]
      rw [henqueue, if_pos (show averrorEnomem < 0 by decide)]
      exact .dropped _ (by decide : averrorEnomem < 0) hstill
  | true =>
      obtain ⟨hrv, hjoins⟩ := enqueuePacket_some env (updateJitter env s buf.data) buf hmalloc
      have hin := hstill.joins hjoins
      rw [hrv, if_neg (by decide), hin.queueLen, hin.queueSize]
      by_cases hroom : s.queueLen + 1 ≥ s.queueSize
      · rw [if_pos hroom]
        exact .full _ _ rfl rfl hin (by omega) (by omega) hstarted hroom
      · rw [if_neg hroom]
        exact .waits _ _ rfl rfl hin (by omega) (by omega) hstarted (by omega)

/-- What a call without a buffer meets: the queue is asked, or the handler is
asked for the rest of its packet. -/
theorem one_more (env : Env) (s : RTPDemuxContext σ) (pkt : AVPacket) :
    (s.prevRet ≤ 0 ∧ rtpParseOnePacket env s pkt none = (rtpParseQueuedPacket env s pkt, none)) ∨
    (0 < s.prevRet ∧ s.handler = none ∧ rtpParseOnePacket env s pkt none = (⟨-1, pkt, s⟩, none)) ∨
    ∃ handler, 0 < s.prevRet ∧ s.handler = some handler ∧
      let r := handler.parsePacket s.dynamicProtocolContext pkt rtpNotsValue none
      ∃ pts base unwrapped time, rtpParseOnePacket env s pkt none =
        (⟨r.rv, { r.pkt with pts := pts }, { s with
          calls := s.calls ++ [.parsePacket s.dynamicProtocolContext none]
          dynamicProtocolContext := r.ctx
          baseTimestamp := base
          unwrappedTimestamp := unwrapped
          timestamp := time }⟩, none) := by
  unfold rtpParseOnePacket
  dsimp only
  by_cases hprev : s.prevRet ≤ 0
  · rw [if_pos hprev]
    exact .inl ⟨hprev, rfl⟩
  rw [if_neg hprev]
  refine .inr ?_
  split
  · next handler hfound =>
      let r := handler.parsePacket s.dynamicProtocolContext pkt rtpNotsValue none
      obtain ⟨pts, base, unwrapped, time, heq⟩ := finalizePacket_eq
        { s.record (.parsePacket s.dynamicProtocolContext none) with
          dynamicProtocolContext := r.ctx } r.pkt r.timestamp
      refine .inr ⟨handler, by omega, hfound, pts, base, unwrapped, time, ?_⟩
      exact congrArg (fun x : AVPacket × RTPDemuxContext σ => (Parsed.mk r.rv x.1 x.2, none)) heq
  · next hfound => exact .inl ⟨by omega, hfound, rfl⟩

end

section

variable {σ : Type}

structure Decoder (σ : Type) where
  ctx : RTPDemuxContext σ
  result : Int

inductive RtpLabel
  | parsePacket (env : Env) (pkt : AVPacket) (bufptr : Option Buffer)
  | resetPacketQueue

def ffRtpParseSetDynamicProtocol (s : RTPDemuxContext σ) (data : σ)
    (handler : Option (RTPDynamicProtocolHandler σ)) : RTPDemuxContext σ :=
  { s with dynamicProtocolContext := data, handler := handler }

/-- `ff_srtp_set_crypto` accepts the parameters or it does not. -/
def ffRtpParseSetCrypto (s : RTPDemuxContext σ) (accepted : Bool) : RTPDemuxContext σ :=
  { s with srtpEnabled := accepted }

/-- A context just opened and configured. -/
def opened (nbStreams : Nat) (st : Option AVStream) (payloadType : UInt8) (queueSize : Int)
    (data : σ) (handler : Option (RTPDynamicProtocolHandler σ)) (crypto : Bool) :
    RTPDemuxContext σ :=
  ffRtpParseSetCrypto
    (ffRtpParseSetDynamicProtocol (ffRtpParseOpen nbStreams st payloadType queueSize data) data
      handler) crypto

def decoder (σ : Type) : System (Decoder σ) RtpLabel where
  init d := d.result = 0 ∧ ∃ nbStreams st payloadType queueSize data handler crypto,
    d.ctx = opened nbStreams st payloadType queueSize data handler crypto
  next d l := match l with
    | .parsePacket env pkt bufptr =>
        let r := (ffRtpParsePacket env d.ctx pkt bufptr).1
        some ⟨r.ctx, r.rv⟩
    | .resetPacketQueue => some { d with ctx := ffRtpResetPacketQueue d.ctx }

/-- A caller hands in a buffer it owns: the decoder does not hold it. -/
def handsOwn (d : Decoder σ) : RtpLabel → Bool
  | .parsePacket _ _ (some buf) => d.ctx.queue.all fun packet => packet.buf.addr ≠ buf.addr
  | _ => true

end

end P2PFFmpeg.Rtp
