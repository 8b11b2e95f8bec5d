import Mathlib.Data.List.Chain
import P2PFFmpeg.Rtp.Ownership

namespace P2PFFmpeg.Rtp

open Util Library.Serial Library.Transition

variable {σ : Type} {env : Env} {s t : RTPDemuxContext σ} {pkt : AVPacket} {buf : Buffer}

def handledSeqs (calls : List (Call σ)) : List UInt16 :=
  calls.filterMap fun
    | .parsePacket _ (some payload) => some payload.seq
    | _ => none

@[simp] theorem handledSeqs_append (a b : List (Call σ)) :
    handledSeqs (a ++ b) = handledSeqs a ++ handledSeqs b :=
  List.filterMap_append ..

def isRtpPacket (data : List UInt8) : Bool :=
  decide (12 ≤ data.length) && isVersion2 data && !rtpPtIsRtcp (byteAt data 1) &&
    (payloadOf data).isOk

/-- The numbers seen by the handler increase, the context holds the last one of
them, and the queue is ordered ahead of it. -/
structure Ordered (s : RTPDemuxContext σ) : Prop where
  handler : s.handler.isSome
  increasing : (handledSeqs s.calls).IsChain Precedes
  last : (handledSeqs s.calls).getLast? = some s.seq ∨
    (handledSeqs s.calls = [] ∧ s.seq = 0 ∧ s.queue = [])
  spread : Spread RTPPacket.seq s.seq s.queue
  sound : ∀ packet ∈ s.queue, packet.seq = seqOf packet.buf.data ∧ isRtpPacket packet.buf.data

theorem Still.ordered (h : Still s t) (g : Ordered s) : Ordered t where
  handler := by rw [h.handler]; exact g.handler
  increasing := by rw [h.calls]; exact g.increasing
  last := by rw [h.calls, h.seq, h.queue]; exact g.last
  spread := by rw [h.seq, h.queue]; exact g.spread
  sound := by rw [h.queue]; exact g.sound

theorem chain_concat {seqs : List UInt16} {q : UInt16} (h : seqs.IsChain Precedes)
    (hq : ∀ last, seqs.getLast? = some last → Precedes last q) : (seqs ++ [q]).IsChain Precedes := by
  refine h.append (List.isChain_singleton q) ?_
  intro last hlast first hfirst
  cases hfirst
  exact hq last hlast

/-- A well-formed packet is either rejected, and nothing moves, or it becomes
the last one handled. -/
theorem internal_handles (env : Env) (pkt : AVPacket) (hhandler : s.handler.isSome)
    (hrtp : isRtpPacket buf.data) :
    let t := (rtpParsePacketInternal env s pkt buf).ctx
    (t.seq = s.seq ∧ handledSeqs t.calls = handledSeqs s.calls) ∨
    (t.seq = seqOf buf.data ∧ handledSeqs t.calls = handledSeqs s.calls ++ [seqOf buf.data]) := by
  intro t
  cases internal_verdict env s pkt buf with
  | rejected rv seq calls ctx =>
      refine .inl ⟨seq, ?_⟩
      rw [calls, handledSeqs_append]
      exact List.append_nil _
  | malformed e payload =>
      simp only [isRtpPacket, payload, Bool.and_eq_true] at hrtp
      exact absurd hrtp.2 (by simp [Except.isOk, Except.toBool])
  | unhandled hnone =>
      rw [hnone] at hhandler
      exact absurd hhandler (by simp)
  | handled handler hs body payload pkt timestamp p hp rv seq calls =>
      refine .inr ⟨seq, ?_⟩
      rw [calls, handledSeqs_append, hp]
      rfl

/-- Parsing a packet keeps the order when its number comes after the last one
handled and the packets left in the queue come after it. -/
theorem Ordered.parsed {q : UInt16} (h : Ordered s) (hhandler : t.handler = s.handler)
    (hsub : ∀ packet ∈ t.queue, packet ∈ s.queue)
    (hmoved : (t.seq = s.seq ∧ handledSeqs t.calls = handledSeqs s.calls ∧
        Spread RTPPacket.seq s.seq t.queue) ∨
      (t.seq = q ∧ handledSeqs t.calls = handledSeqs s.calls ++ [q] ∧
        Spread RTPPacket.seq q t.queue))
    (hnext : handledSeqs s.calls = [] ∨ Precedes s.seq q) : Ordered t where
  handler := by rw [hhandler]; exact h.handler
  increasing := by
    obtain ⟨_, hcalls, _⟩ | ⟨_, hcalls, _⟩ := hmoved
    · rw [hcalls]
      exact h.increasing
    · rw [hcalls]
      refine chain_concat h.increasing fun last hlast => ?_
      obtain hempty | hprecedes := hnext
      · rw [hempty] at hlast
        cases hlast
      · obtain hseq | ⟨hempty, _⟩ := h.last
        · rw [hseq] at hlast
          cases hlast
          exact hprecedes
        · rw [hempty] at hlast
          cases hlast
  last := by
    obtain ⟨hseq, hcalls, _⟩ | ⟨hseq, hcalls, _⟩ := hmoved
    · rw [hseq, hcalls]
      refine h.last.imp_right fun ⟨hempty, hzero, hqueue⟩ => ⟨hempty, hzero, ?_⟩
      refine List.eq_nil_iff_forall_not_mem.mpr fun packet hpacket => ?_
      have hmem := hsub packet hpacket
      rw [hqueue] at hmem
      cases hmem
    · rw [hseq, hcalls]
      exact .inl (by simp)
  spread := by
    obtain ⟨hseq, _, hspread⟩ | ⟨hseq, _, hspread⟩ := hmoved
    · rw [hseq]
      exact hspread
    · rw [hseq]
      exact hspread
  sound packet hpacket := h.sound packet (hsub packet hpacket)

theorem queued_ordered (env : Env) (pkt : AVPacket) (h : Ordered s) :
    Ordered (rtpParseQueuedPacket env s pkt).ctx := by
  by_cases hlen : s.queueLen ≤ 0
  · rw [queued_none env pkt (.inl hlen)]
    exact h
  cases hq : s.queue with
  | nil =>
      rw [queued_none env pkt (.inr hq)]
      exact h
  | cons packet rest =>
      obtain ⟨hseq, hrtp⟩ := h.sound packet (by simp [hq])
      have hspread := h.spread
      rw [hq] at hspread
      obtain ⟨hprecedes, htail⟩ := hspread.tail
      have hstay : Spread RTPPacket.seq s.seq rest :=
        ⟨(List.pairwise_cons.mp hspread.sorted).2, fun p hp => hspread.near p (by simp [hp])⟩
      rw [queued_head env pkt (by omega) hq]
      have hkeeps := internal_keeps env s pkt packet.buf
      refine h.parsed (q := packet.seq) hkeeps.handler (fun p hp => ?_) ?_ (.inr hprecedes)
      · rw [hq]
        exact List.mem_cons_of_mem _ hp
      · simp only [handledSeqs_append]
        change _ ∧ _ ++ [] = _ ∧ _ ∨ _ ∧ _ ++ [] = _ ∧ _
        simp only [List.append_nil]
        rw [hseq] at htail ⊢
        exact (internal_handles env pkt h.handler hrtp).imp
          (fun ⟨hs, hc⟩ => ⟨hs, hc, hstay⟩) (fun ⟨hs, hc⟩ => ⟨hs, hc, htail⟩)

theorem drain_ordered (env : Env) (turns : List RTPPacket) {r : Parsed σ} (h : Ordered r.ctx) :
    Ordered (drain env turns r).ctx := by
  induction turns generalizing r with
  | nil => exact h
  | cons packet rest ih =>
      unfold drain
      by_cases hmore : r.rv < 0 ∧ hasNextPacket r.ctx
      · rw [if_pos hmore]
        exact ih (queued_ordered env r.pkt h)
      · rw [if_neg hmore]
        exact h

/-- The arriving number has not been handled or queued, and where an empty
queue and the number 0 make the packet pass for a first one, it comes after 0. -/
def Anew (s : RTPDemuxContext σ) (q : UInt16) : Prop :=
  handledSeqs s.calls = [] ∨
    (q ≠ s.seq ∧ (∀ packet ∈ s.queue, packet.seq ≠ q) ∧
      (s.seq = 0 ∧ s.queue = [] → Precedes s.seq q))

theorem direct_ordered (env : Env) (pkt : AVPacket) (h : Ordered s) (hrtp : isRtpPacket buf.data)
    (hanew : Anew s (seqOf buf.data)) (hnow : (s.seq = 0 ∧ s.queue = []) ∨
      (0 ≤ signed16 (seqOf buf.data - s.seq) ∧ signed16 (seqOf buf.data - s.seq) ≤ 1)) :
    Ordered (rtpParsePacketInternal env s pkt buf).ctx := by
  have hkeeps := internal_keeps env s pkt buf
  have hafter : (handledSeqs s.calls = [] ∨ Precedes s.seq (seqOf buf.data)) ∧
      Spread RTPPacket.seq (seqOf buf.data) s.queue := by
    obtain hempty | ⟨hne, hqueue, hfirst⟩ := hanew
    · obtain hseq | ⟨_, _, hnil⟩ := h.last
      · rw [hempty] at hseq
        cases hseq
      · rw [hnil]
        exact ⟨.inl hempty, .nil⟩
    · obtain hzero | ⟨hnonneg, hone⟩ := hnow
      · rw [hzero.2]
        exact ⟨.inr (hfirst hzero), .nil⟩
      · have hdistance : ahead s.seq (seqOf buf.data) = 1 := by
          have hpos : ahead s.seq (seqOf buf.data) ≠ 0 := by
            intro heq
            refine hne (@ahead_inj s.seq _ _ (heq.trans ?_))
            simp [ahead]
          have hlt := ahead_lt s.seq (seqOf buf.data)
          rw [signed16_sub] at hnonneg hone
          split_ifs at hnonneg hone <;> omega
        refine ⟨.inr (precedes_iff.mpr (by omega)), h.spread.rebase fun packet hpacket => ?_⟩
        have hnear := precedes_iff.mp (h.spread.near packet hpacket)
        have hother : ahead s.seq packet.seq ≠ ahead s.seq (seqOf buf.data) :=
          fun heq => hqueue packet hpacket (ahead_inj heq)
        omega
  refine h.parsed (q := seqOf buf.data) hkeeps.handler (by simp [hkeeps.queue]) ?_ hafter.1
  rw [hkeeps.queue]
  exact (internal_handles env pkt h.handler hrtp).imp
    (fun ⟨hs, hc⟩ => ⟨hs, hc, h.spread⟩) (fun ⟨hs, hc⟩ => ⟨hs, hc, hafter.2⟩)

theorem Joins.ordered {packet : RTPPacket} (h : Joins s t packet) (g : Ordered s)
    (hseq : packet.seq = seqOf packet.buf.data) (hrtp : isRtpPacket packet.buf.data)
    (hanew : Anew s packet.seq) (hahead : 1 < signed16 (packet.seq - s.seq))
    (hstarted : ¬(s.seq = 0 ∧ s.queue = [])) : Ordered t := by
  obtain hempty | ⟨_, hqueue, _⟩ := hanew
  · obtain hlast | ⟨_, hzero, hnil⟩ := g.last
    · rw [hempty] at hlast
      cases hlast
    · exact absurd ⟨hzero, hnil⟩ hstarted
  · refine ⟨by rw [h.handler]; exact g.handler, by rw [h.calls]; exact g.increasing, ?_, ?_, ?_⟩
    · rw [h.calls, h.seq]
      refine .inl (g.last.resolve_right fun ⟨_, hzero, hnil⟩ => hstarted ⟨hzero, hnil⟩)
    · rw [h.seq, h.queue]
      have hprecedes : Precedes s.seq packet.seq := by
        unfold Precedes
        omega
      exact g.spread.insert hprecedes hqueue
    · intro p hp
      rw [h.queue] at hp
      rcases (List.mem_orderedInsert _).mp hp with rfl | hp
      · exact ⟨hseq, hrtp⟩
      · exact g.sound p hp

theorem Arrival.ordered {out : Parsed σ × Option Buffer} (h : Arrival env s pkt buf out)
    (g : Ordered s) (hsize : 1 < s.queueSize) (hrtp : isRtpPacket buf.data)
    (hanew : Anew s (seqOf buf.data)) : Ordered out.1.ctx := by
  cases h with
  | dropped r rv still => exact still.ordered g
  | direct t still now =>
      refine direct_ordered env pkt (still.ordered g) hrtp ?_ ?_
      · unfold Anew
        rw [still.calls, still.seq, still.queue]
        exact hanew
      · rw [still.seq, still.queue]
        exact now.imp_right fun h => h.resolve_left (by omega)
  | waits t packet hseq hbuf joins ahead size started room =>
      subst hbuf
      rw [← hseq] at ahead hanew
      exact joins.ordered g hseq hrtp hanew ahead started
  | full t packet hseq hbuf joins ahead size started room =>
      subst hbuf
      rw [← hseq] at ahead hanew
      exact queued_ordered env pkt (joins.ordered g hseq hrtp hanew ahead started)

theorem more_ordered (env : Env) (pkt : AVPacket) (h : Ordered s) :
    Ordered (rtpParseOnePacket env s pkt none).1.ctx := by
  obtain ⟨_, heq⟩ | ⟨_, _, heq⟩ | ⟨handler, _, _, pts, base, unwrapped, time, heq⟩ :=
    one_more env s pkt
  · rw [heq]
    exact queued_ordered env pkt h
  · rw [heq]
    exact h
  · rw [heq]
    refine ⟨h.handler, ?_, ?_, h.spread, h.sound⟩ <;> simp only [handledSeqs_append]
    · change (_ ++ []).IsChain _
      rw [List.append_nil]
      exact h.increasing
    · change List.getLast? (_ ++ []) = _ ∨ _ ++ [] = _ ∧ _
      rw [List.append_nil]
      exact h.last

def packetOf (d : Decoder σ) : RtpLabel → Option Buffer
  | .parsePacket env _ bufptr => (decrypted env d.ctx bufptr).join
  | .resetPacketQueue => none

/-- The input of the reordering: RTP packets, and calls that ask for more. -/
def rtpInput (d : Decoder σ) (l : RtpLabel) : Bool :=
  (match l with
    | .parsePacket _ _ _ => true
    | .resetPacketQueue => false) && (packetOf d l).all fun buf => isRtpPacket buf.data

/-- No packet repeats the number handled last or one that waits in the queue,
and none passes for a first packet that is not later than the one handled. -/
def arrivesAnew (d : Decoder σ) (l : RtpLabel) : Prop :=
  ∀ buf ∈ packetOf d l, Anew d.ctx (seqOf buf.data)

theorem call_ordered {d : Decoder σ} {bufptr : Option Buffer} (h : Ordered d.ctx)
    (hsize : 1 < d.ctx.queueSize) (hrtp : rtpInput d (.parsePacket env pkt bufptr) = true)
    (hanew : arrivesAnew d (.parsePacket env pkt bufptr)) :
    Ordered (ffRtpParsePacket env d.ctx pkt bufptr).1.ctx := by
  unfold ffRtpParsePacket
  cases hdec : decrypted env d.ctx bufptr with
  | none => exact h
  | some plain =>
      have hone : Ordered (rtpParseOnePacket env d.ctx pkt plain).1.ctx := by
        cases plain with
        | none => exact more_ordered env pkt h
        | some buf =>
            have hpacket : packetOf d (.parsePacket env pkt bufptr) = some buf :=
              congrArg Option.join hdec
            simp only [rtpInput, hpacket, Bool.true_and, Option.all_some] at hrtp
            exact (one_arrival env d.ctx pkt buf).ordered h hsize hrtp (hanew buf hpacket)
      have hstill : Still (rtpParseOnePacket env d.ctx pkt plain).1.ctx
          { (rtpParseOnePacket env d.ctx pkt plain).1.ctx with
            prevRet := (rtpParseOnePacket env d.ctx pkt plain).1.rv } :=
        ⟨⟨rfl, rfl, rfl, rfl⟩, rfl, rfl, rfl⟩
      exact drain_ordered env _ (hstill.ordered hone)

/-- A decoder that reorders the packets of a payload handler. -/
def reorderer (σ : Type) : System (Decoder σ) RtpLabel where
  init d := (decoder σ).init d ∧ d.ctx.handler.isSome ∧ 1 < d.ctx.queueSize
  next := (decoder σ).next

structure Reorders (d : Decoder σ) : Prop where
  ordered : Ordered d.ctx
  room : Room d.ctx
  size : 1 < d.ctx.queueSize

theorem reorders_of_reachable {d : Decoder σ}
    (h : (((reorderer σ).guard rtpInput).restrict arrivesAnew).Reachable d) : Reorders d := by
  refine System.Reachable.invariant Reorders ?_ ?_ h
  · rintro d ⟨⟨_, nbStreams, st, payloadType, queueSize, data, handler, crypto, hopen⟩, hhandler, hsize⟩
    refine ⟨?_, ?_, hsize⟩
    · rw [hopen] at hhandler ⊢
      exact ⟨hhandler, .nil, .inr ⟨rfl, rfl, rfl⟩, .nil, by simp [opened, ffRtpParseOpen,
        ffRtpParseSetCrypto, ffRtpParseSetDynamicProtocol]⟩
    · rw [hopen]
      exact ⟨rfl, fun hsize => lt_trans Int.zero_lt_one hsize, fun _ => rfl⟩
  · rintro d l e _ hinv hnext
    obtain ⟨hanew, hinput⟩ := System.restrict_next.mp hnext
    obtain ⟨hrtp, hstep⟩ := System.guard_next.mp hinput
    cases l with
    | parsePacket env pkt bufptr =>
        cases hstep
        obtain ⟨hsettles, hroom⟩ := call_settles env d.ctx pkt bufptr hinv.room
        obtain ⟨parsed, _, hflow⟩ := hsettles.flow
        exact ⟨call_ordered hinv.ordered hinv.size hrtp hanew, hroom, by
          rw [hflow.queueSize]; exact hinv.size⟩
    | resetPacketQueue => simp [rtpInput] at hrtp

/-- The numbers given to the payload handler increase in serial order as long
as no arriving packet repeats a number handled last or waiting, and none that
is not later than packet 0 arrives when the context holds 0 and nothing waits. -/
theorem handled_in_serial_order {d : Decoder σ}
    (h : (((reorderer σ).guard rtpInput).restrict arrivesAnew).Reachable d) :
    (handledSeqs d.ctx.calls).IsChain Precedes :=
  (reorders_of_reachable h).ordered.increasing

instance (a b : UInt16) : Decidable (Precedes a b) := inferInstanceAs (Decidable (0 < _))

instance (s : RTPDemuxContext σ) (q : UInt16) : Decidable (Anew s q) :=
  inferInstanceAs (Decidable (_ ∨ _))

def taking : RTPDynamicProtocolHandler Unit where
  parsePacket _ pkt timestamp _ := ⟨0, (), pkt, timestamp⟩

def reordererStart : Decoder Unit := ⟨opened 1 (some ⟨0, ⟨1, 90000⟩⟩) 96 10 () (some taking) false, 0⟩

theorem reordererStart_init : (reorderer Unit).init reordererStart :=
  ⟨⟨rfl, _, _, _, _, _, _, _, rfl⟩, rfl, by decide⟩

def arrivesAnewCheck (d : Decoder σ) (l : RtpLabel) : Bool :=
  (packetOf d l).all fun buf => decide (Anew d.ctx (seqOf buf.data))

theorem arrivesAnew_of_check (d : Decoder σ) (l : RtpLabel) (h : arrivesAnewCheck d l = true) :
    arrivesAnew d l := by
  intro buf hbuf
  rw [arrivesAnewCheck, Option.mem_def.mp hbuf] at h
  exact of_decide_eq_true h

/-- Four packets, the second and the third exchanged on the way. -/
theorem handled_in_serial_order_swapped : ∃ d : Decoder Unit,
    (((reorderer Unit).guard rtpInput).restrict arrivesAnew).Reachable d ∧
    handledSeqs d.ctx.calls = [65534, 65535, 0, 1] ∧
    (handledSeqs d.ctx.calls).IsChain Precedes := by
  have hview : ((((reorderer Unit).guard rtpInput).guard arrivesAnewCheck).run
      [arrives 1 65534, arrives 2 0, arrives 3 65535, .parsePacket plainEnv .blank none, arrives 4 1]
      reordererStart).map (fun d => handledSeqs d.ctx.calls) = some [65534, 65535, 0, 1] := by
    decide +kernel
  obtain ⟨d, hrun, hd⟩ := Option.map_eq_some_iff.mp hview
  have hreach := @System.Reachable.of_guard _ _ ((reorderer Unit).guard rtpInput) _ _
    arrivesAnew_of_check _ _ _ reordererStart_init hrun
  exact ⟨d, hreach, hd, handled_in_serial_order hreach⟩

/-- A packet that arrives twice in a row is given to the handler twice. -/
theorem duplicate_handled_twice : ∃ d : Decoder Unit,
    ((reorderer Unit).guard rtpInput).Reachable d ∧ handledSeqs d.ctx.calls = [5, 5] ∧
    ¬(handledSeqs d.ctx.calls).IsChain Precedes := by
  have hview : (((reorderer Unit).guard rtpInput).run [arrives 1 5, arrives 2 5]
      reordererStart).map (fun d => handledSeqs d.ctx.calls) = some [5, 5] := by
    decide +kernel
  obtain ⟨d, hrun, hd⟩ := Option.map_eq_some_iff.mp hview
  refine ⟨d, .of_run reordererStart_init hrun, hd, ?_⟩
  rw [hd]
  decide

end P2PFFmpeg.Rtp
