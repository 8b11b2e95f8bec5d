import P2PFFmpeg.Rtp.Reordering

namespace P2PFFmpeg.Rtp

open Util Library.Serial Library.Transition

variable {σ : Type} {env : Env} {s t : RTPDemuxContext σ} {pkt : AVPacket} {buf : Buffer}

structure Filed (s : RTPDemuxContext σ) : Prop where
  spread : Spread RTPPacket.seq s.seq s.queue
  own : ∀ packet ∈ s.queue, packet.seq = seqOf packet.buf.data

theorem Filed.of_eq (h : Filed s) (hseq : t.seq = s.seq) (hqueue : t.queue = s.queue) : Filed t where
  spread := by
    rw [hseq, hqueue]
    exact h.spread
  own := by
    rw [hqueue]
    exact h.own

theorem Still.filed (h : Still s t) (g : Filed s) : Filed t := g.of_eq h.seq h.queue

theorem deliver_seq (env : Env) (s : RTPDemuxContext σ) (pkt : AVPacket) (timestamp : UInt32) (payload : Payload) :
    (deliver env s pkt timestamp payload).ctx.seq = s.seq := by
  cases h : s.handler with
  | some handler =>
      obtain ⟨_, _, _, _, heq⟩ := deliver_handler env s pkt timestamp payload h
      rw [heq]
  | none =>
      obtain ⟨_, _, _, heq⟩ := deliver_copy env s pkt timestamp payload h
      rw [heq]

theorem internal_seq (env : Env) (s : RTPDemuxContext σ) (pkt : AVPacket) (buf : Buffer) :
    (rtpParsePacketInternal env s pkt buf).ctx.seq = s.seq ∨
      (rtpParsePacketInternal env s pkt buf).ctx.seq = seqOf buf.data := by
  obtain ⟨⟨valid, statistics⟩, hv⟩ : ∃ r, rtpValidPacketInSequence s.statistics (seqOf buf.data) = r := ⟨_, rfl⟩
  rw [internal_eq env pkt hv]
  split_ifs
  · exact .inl (seq_noted s buf _ _)
  · refine .inr ?_
    split
    · rfl
    · rw [deliver_seq]
      rfl
  · exact .inl (seq_noted s buf _ _)

theorem queued_filed (env : Env) (pkt : AVPacket) (h : Filed s) : Filed (rtpParseQueuedPacket env s pkt).ctx := by
  by_cases hlen : s.queueLen ≤ 0
  · rw [queued_none env pkt (.inl hlen)]
    exact h
  cases hq : s.queue with
  | nil =>
      rw [queued_none env pkt (.inr hq)]
      exact h
  | cons packet rest =>
      have hspread := h.spread
      rw [hq] at hspread
      have hown := h.own packet (by simp [hq])
      rw [queued_head env pkt (by omega) hq]
      refine ⟨?_, fun p hp => h.own p (by simp [hq, hp])⟩
      dsimp only
      rcases internal_seq env s pkt packet.buf with hseq | hseq
      · rw [hseq]
        exact hspread.sublist (List.sublist_cons_self packet rest)
      · rw [hseq, ← hown]
        exact hspread.tail.2

theorem drain_filed (env : Env) (turns : List RTPPacket) {r : Parsed σ} (h : Filed r.ctx) :
    Filed (drain env turns r).ctx := by
  induction turns generalizing r with
  | nil => exact h
  | cons packet rest ih =>
      unfold drain
      by_cases hmore : r.rv < 0 ∧ hasNextPacket r.ctx
      · rw [if_pos hmore]
        exact ih (queued_filed env r.pkt h)
      · rw [if_neg hmore]
        exact h

theorem Filed.rebase {q : UInt16} (h : Spread RTPPacket.seq s.seq s.queue) (hnew : ∀ packet ∈ s.queue, packet.seq ≠ q)
    (hnext : 0 ≤ signed16 (q - s.seq) ∧ signed16 (q - s.seq) ≤ 1) : Spread RTPPacket.seq q s.queue := by
  obtain ⟨hnonneg, hone⟩ := hnext
  have hlt := ahead_lt s.seq q
  refine h.rebase fun packet hpacket => ?_
  have hnear := precedes_iff.mp (h.near packet hpacket)
  have hother : ahead s.seq packet.seq ≠ ahead s.seq q := fun heq => hnew packet hpacket (ahead_inj heq)
  rw [signed16_sub] at hnonneg hone
  split_ifs at hnonneg hone <;> omega

theorem direct_filed (env : Env) (pkt : AVPacket) (h : Filed s) (hoff : s.queueSize ≤ 1 → s.queue = [])
    (hnew : ∀ packet ∈ s.queue, packet.seq ≠ seqOf buf.data)
    (now : (s.seq = 0 ∧ s.queue = []) ∨ s.queueSize ≤ 1 ∨
      (0 ≤ signed16 (seqOf buf.data - s.seq) ∧ signed16 (seqOf buf.data - s.seq) ≤ 1)) :
    Filed (rtpParsePacketInternal env s pkt buf).ctx := by
  have hqueue := (internal_keeps env s pkt buf).queue
  rcases internal_seq env s pkt buf with hseq | hseq
  · exact h.of_eq hseq hqueue
  · have hempty : s.queue = [] → Filed (rtpParsePacketInternal env s pkt buf).ctx := by
      intro hnil
      rw [hnil] at hqueue
      refine ⟨hqueue ▸ .nil, ?_⟩
      rw [hqueue]
      simp
    rcases now with ⟨_, hnil⟩ | hsize | hnext
    · exact hempty hnil
    · exact hempty (hoff hsize)
    · refine ⟨?_, hqueue ▸ h.own⟩
      rw [hseq, hqueue]
      exact Filed.rebase h.spread hnew hnext

theorem Joins.filed {packet : RTPPacket} (h : Joins s t packet) (g : Filed s) (hown : packet.seq = seqOf packet.buf.data)
    (hnew : ∀ p ∈ s.queue, p.seq ≠ packet.seq) (hahead : Precedes s.seq packet.seq) : Filed t where
  spread := by
    rw [h.seq, h.queue]
    exact g.spread.insert hahead hnew
  own p hp := by
    rw [h.queue] at hp
    rcases (List.mem_orderedInsert _).mp hp with rfl | hp
    · exact hown
    · exact g.own p hp

theorem precedes_of_signed16 {q : UInt16} (h : 1 < signed16 (q - s.seq)) : Precedes s.seq q := by
  unfold Precedes
  omega

theorem Arrival.filed {out : Parsed σ × Option Buffer} (h : Arrival env s pkt buf out) (g : Filed s)
    (hoff : s.queueSize ≤ 1 → s.queue = []) (hnew : ∀ packet ∈ s.queue, packet.seq ≠ seqOf buf.data) :
    Filed out.1.ctx := by
  cases h with
  | dropped r rv still => exact still.filed g
  | direct t still now =>
      refine direct_filed env pkt (still.filed g) ?_ ?_ ?_
      · rw [still.queueSize, still.queue]
        exact hoff
      · rw [still.queue]
        exact hnew
      · rw [still.seq, still.queue, still.queueSize]
        exact now
  | waits t packet hseq hbuf joins ahead size started room =>
      subst hbuf
      rw [← hseq] at ahead hnew
      exact joins.filed g hseq hnew (precedes_of_signed16 ahead)
  | full t packet hseq hbuf joins ahead size started room =>
      subst hbuf
      rw [← hseq] at ahead hnew
      exact queued_filed env pkt (joins.filed g hseq hnew (precedes_of_signed16 ahead))

def carriesRtp (data : List UInt8) : Bool :=
  decide (12 ≤ data.length) && isVersion2 data && !rtpPtIsRtcp (byteAt data 1)

theorem one_still (env : Env) (s : RTPDemuxContext σ) (pkt : AVPacket) (h : carriesRtp buf.data = false) :
    Still s (rtpParseOnePacket env s pkt (some buf)).1.ctx := by
  unfold rtpParseOnePacket
  dsimp only
  by_cases hshort : buf.data.length < 12
  · rw [if_pos hshort]
    exact .refl s
  rw [if_neg hshort]
  by_cases hversion : ¬isVersion2 buf.data
  · rw [if_pos hversion]
    exact .refl s
  rw [if_neg hversion]
  by_cases hrtcp : rtpPtIsRtcp (byteAt buf.data 1)
  · rw [if_pos hrtcp]
    exact rtcpParsePacket_still env s buf.data
  · simp [carriesRtp, hrtcp, not_not.mp hversion, Nat.le_of_not_lt hshort] at h

/-- No packet arrives under a number that a queued one has. -/
def Unrepeated (d : Decoder σ) (l : RtpLabel) : Prop :=
  ∀ buf ∈ packetOf d l, carriesRtp buf.data = true → ∀ packet ∈ d.ctx.queue, packet.seq ≠ seqOf buf.data

theorem call_filed {d : Decoder σ} {bufptr : Option Buffer} (h : Filed d.ctx) (hroom : Room d.ctx)
    (hnew : Unrepeated d (.parsePacket env pkt bufptr)) : Filed (ffRtpParsePacket env d.ctx pkt bufptr).1.ctx := by
  unfold ffRtpParsePacket
  cases hdec : decrypted env d.ctx bufptr with
  | none => exact h
  | some plain =>
      have hone : Filed (rtpParseOnePacket env d.ctx pkt plain).1.ctx := by
        cases plain with
        | none =>
            obtain ⟨_, heq⟩ | ⟨_, _, heq⟩ | ⟨_, _, _, _, _, _, _, heq⟩ := one_more env d.ctx pkt
            · rw [heq]
              exact queued_filed env pkt h
            · rw [heq]
              exact h
            · rw [heq]
              exact h.of_eq rfl rfl
        | some buf =>
            by_cases hrtp : carriesRtp buf.data = true
            · have hpacket : packetOf d (.parsePacket env pkt bufptr) = some buf := congrArg Option.join hdec
              exact (one_arrival env d.ctx pkt buf).filed h hroom.off (hnew buf hpacket hrtp)
            · exact (one_still env d.ctx pkt (Bool.not_eq_true _ ▸ hrtp)).filed h
      exact drain_filed env _ (hone.of_eq rfl rfl)

structure Buffered (s : RTPDemuxContext σ) : Prop where
  filed : Filed s
  room : Room s

theorem buffered_opened (nbStreams : Nat) (st : Option AVStream) (payloadType : UInt8) (queueSize : Int) (data : σ)
    (handler : Option (RTPDynamicProtocolHandler σ)) (crypto : Bool) :
    Buffered (opened nbStreams st payloadType queueSize data handler crypto) where
  filed := ⟨.nil, fun _ hp => nomatch hp⟩
  room := ⟨rfl, fun hsize => lt_trans Int.zero_lt_one hsize, fun _ => rfl⟩

theorem Buffered.call {d : Decoder σ} {l : RtpLabel} {d' : Decoder σ} (h : Buffered d.ctx) (hnew : Unrepeated d l)
    (hn : (decoder σ).next d l = some d') : Buffered d'.ctx := by
  cases l with
  | parsePacket env pkt bufptr =>
      cases hn
      exact ⟨call_filed h.filed h.room hnew, (call_settles env d.ctx pkt bufptr h.room).2⟩
  | resetPacketQueue =>
      cases hn
      exact ⟨⟨.nil, fun _ hp => nomatch hp⟩, ⟨rfl, fun hsize => lt_trans Int.zero_lt_one hsize, fun _ => rfl⟩⟩

theorem buffered_of_reachable {d : Decoder σ} (h : ((decoder σ).restrict Unrepeated).Reachable d) : Buffered d.ctx := by
  refine System.Reachable.invariant (fun d => Buffered d.ctx) ?_ ?_ h
  · rintro d ⟨_, nbStreams, st, payloadType, queueSize, data, handler, crypto, hopen⟩
    rw [hopen]
    exact buffered_opened ..
  · intro d l d' _ hinv hnext
    obtain ⟨hnew, hn⟩ := System.restrict_next.mp hnext
    exact hinv.call hnew hn

end P2PFFmpeg.Rtp
