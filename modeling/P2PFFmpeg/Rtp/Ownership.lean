import P2PFFmpeg.Rtp.Steps

namespace P2PFFmpeg.Rtp

open Util Library.Serial Library.Transition

variable {σ : Type} {env : Env} {s t u : RTPDemuxContext σ} {pkt : AVPacket} {buf : Buffer}

def parses (calls : List (Call σ)) : List Nat :=
  calls.filterMap fun
    | .parse buf => some buf.addr
    | _ => none

def frees (calls : List (Call σ)) : List Nat :=
  calls.filterMap fun
    | .free buf => some buf.addr
    | _ => none

def addresses (queue : List RTPPacket) : List Nat := queue.map fun packet => packet.buf.addr

@[simp] theorem parses_append (a b : List (Call σ)) : parses (a ++ b) = parses a ++ parses b :=
  List.filterMap_append ..

@[simp] theorem frees_append (a b : List (Call σ)) : frees (a ++ b) = frees a ++ frees b :=
  List.filterMap_append ..

/-- The buffers that move between `s` and `t`: those of `taken` come into the
queue's hands, those of `parsed` are parsed and stay with their owner, and every
other parsed buffer is one that leaves the queue and is freed. -/
structure Flow (parsed taken : List Nat) (s t : RTPDemuxContext σ) : Prop where
  queueSize : t.queueSize = s.queueSize
  queueLen : t.queueLen - t.queue.length = s.queueLen - s.queue.length
  moved : ∃ new, t.calls = s.calls ++ new ∧ parses new = parsed ++ frees new ∧
    (addresses s.queue ++ taken).Perm (frees new ++ addresses t.queue)

theorem Flow.refl (s : RTPDemuxContext σ) : Flow [] [] s s :=
  ⟨rfl, rfl, [], by simp, rfl, by simp [frees]⟩

variable {out : Parsed σ × Option Buffer} {parsed taken : List Nat} {bufptr : Option Buffer}
  {d : Decoder σ}

theorem Flow.trans (h : Flow parsed taken s t) (g : Flow [] [] t u) : Flow parsed taken s u := by
  obtain ⟨new, hnew, hparses, hperm⟩ := h.moved
  obtain ⟨more, hmore, hparses', hperm'⟩ := g.moved
  refine ⟨g.queueSize.trans h.queueSize, g.queueLen.trans h.queueLen, new ++ more, ?_, ?_, ?_⟩
  · rw [hmore, hnew, List.append_assoc]
  · rw [parses_append, frees_append, hparses, hparses', List.nil_append, List.append_assoc]
  · rw [frees_append, List.append_assoc]
    rw [List.append_nil] at hperm'
    exact hperm.trans (hperm'.append_left (frees new))

theorem Still.flow (h : Still s t) : Flow [] [] s t := by
  refine ⟨h.queueSize, by rw [h.queueLen, h.queue], [], by simp [h.calls], rfl, ?_⟩
  rw [h.queue]
  simp [frees]

theorem Still.trans_flow (h : Still s t) (g : Flow parsed taken t u) : Flow parsed taken s u := by
  obtain ⟨new, hnew, hparses, hperm⟩ := g.moved
  refine ⟨g.queueSize.trans h.queueSize, ?_, new, by rw [hnew, h.calls], hparses, ?_⟩
  · rw [g.queueLen, h.queueLen, h.queue]
  · rwa [h.queue] at hperm

theorem parses_handled {handled : List (Call σ)}
    (h : ∀ call ∈ handled, ∃ ctx payload, call = .parsePacket ctx payload) :
    parses handled = [] ∧ frees handled = [] := by
  constructor
  · refine List.filterMap_eq_nil_iff.mpr fun call hcall => ?_
    obtain ⟨ctx, payload, rfl⟩ := h call hcall
    rfl
  · refine List.filterMap_eq_nil_iff.mpr fun call hcall => ?_
    obtain ⟨ctx, payload, rfl⟩ := h call hcall
    rfl

theorem internal_flow (env : Env) (s : RTPDemuxContext σ) (pkt : AVPacket) (buf : Buffer) :
    Flow [buf.addr] [] s (rtpParsePacketInternal env s pkt buf).ctx := by
  have hkeeps := internal_keeps env s pkt buf
  obtain ⟨handled, hcalls, honly⟩ := (internal_verdict env s pkt buf).parses
  obtain ⟨hparses, hfrees⟩ := parses_handled honly
  refine ⟨hkeeps.queueSize, by rw [hkeeps.queueLen, hkeeps.queue], _, hcalls, ?_, ?_⟩
  · change buf.addr :: parses handled = [buf.addr] ++ frees handled
    rw [hparses, hfrees]
    rfl
  · change List.Perm _ (frees handled ++ _)
    rw [hfrees, hkeeps.queue, List.append_nil, List.nil_append]

theorem queued_flow (env : Env) (s : RTPDemuxContext σ) (pkt : AVPacket) :
    Flow [] [] s (rtpParseQueuedPacket env s pkt).ctx := by
  by_cases hlen : s.queueLen ≤ 0
  · rw [queued_none env pkt (.inl hlen)]
    exact .refl s
  cases hq : s.queue with
  | nil =>
      rw [queued_none env pkt (.inr hq)]
      exact .refl s
  | cons packet rest =>
      rw [queued_head env pkt (by omega) hq]
      have hkeeps := internal_keeps env s pkt packet.buf
      obtain ⟨handled, hcalls, honly⟩ := (internal_verdict env s pkt packet.buf).parses
      obtain ⟨hparses, hfrees⟩ := parses_handled honly
      refine ⟨hkeeps.queueSize, ?_, .parse packet.buf :: handled ++ [.free packet.buf], ?_, ?_, ?_⟩
      · rw [hq]
        simp only [List.length_cons]
        omega
      · simp [hcalls]
      · change packet.buf.addr :: parses (handled ++ [.free packet.buf]) = frees (handled ++ _)
        rw [parses_append, frees_append, hparses, hfrees]
        rfl
      · rw [hq]
        change List.Perm _ (frees (handled ++ [.free packet.buf]) ++ addresses rest)
        rw [frees_append, hfrees]
        exact .of_eq (by simp [addresses, frees])

theorem drain_flow (env : Env) (turns : List RTPPacket) (r : Parsed σ) :
    Flow [] [] r.ctx (drain env turns r).ctx := by
  induction turns generalizing r with
  | nil => exact .refl r.ctx
  | cons packet rest ih =>
      unfold drain
      by_cases h : r.rv < 0 ∧ hasNextPacket r.ctx
      · rw [if_pos h]
        exact (queued_flow env r.ctx r.pkt).trans (ih _)
      · rw [if_neg h]
        exact .refl r.ctx

theorem Joins.flow {packet : RTPPacket} (h : Joins s t packet) : Flow [] [packet.buf.addr] s t := by
  have hperm := List.perm_orderedInsert (fun p cur : RTPPacket => signed16 (p.seq - cur.seq) < 0)
    packet s.queue
  refine ⟨h.queueSize, ?_, [], by simp [h.calls], rfl, ?_⟩
  · rw [h.queueLen, h.queue, hperm.length_eq, List.length_cons]
    omega
  · rw [h.queue]
    refine (List.perm_append_comm).trans ?_
    exact (hperm.map fun packet => packet.buf.addr).symm

theorem Flow.length_le (h : Flow parsed taken s t) : t.queue.length ≤ s.queue.length + taken.length := by
  obtain ⟨new, _, _, hperm⟩ := h.moved
  have hlen := hperm.length_eq
  simp only [addresses, List.length_append, List.length_map] at hlen
  omega

/-- The count of the queue is right, and there is room for a packet. -/
structure Room (s : RTPDemuxContext σ) : Prop where
  count : s.queueLen = s.queue.length
  room : 1 < s.queueSize → s.queueLen < s.queueSize
  off : s.queueSize ≤ 1 → s.queue = []

theorem Room.flow {parsed : List Nat} (h : Room s) (g : Flow parsed [] s t) : Room t := by
  have hcount := h.count
  have hlen := g.queueLen
  have hle := g.length_le
  simp only [List.length_nil, Nat.add_zero] at hle
  refine ⟨by omega, ?_, ?_⟩
  · intro hsize
    have hroom := h.room (g.queueSize ▸ hsize)
    rw [g.queueSize]
    omega
  · intro hsize
    have hoff := h.off (g.queueSize ▸ hsize)
    rw [hoff, List.length_nil] at hle
    exact List.length_eq_zero_iff.mp (by omega)

theorem queued_shorter (env : Env) (pkt : AVPacket) (hlen : 0 < s.queueLen) (hq : s.queue ≠ []) :
    (rtpParseQueuedPacket env s pkt).ctx.queue.length + 1 = s.queue.length := by
  obtain ⟨packet, rest, hcons⟩ := List.exists_cons_of_ne_nil hq
  rw [queued_head env pkt hlen hcons, hcons]
  rfl

theorem Arrival.room (h : Arrival env s pkt buf out) (hroom : Room s) : Room out.1.ctx := by
  cases h with
  | dropped r rv still => exact hroom.flow still.flow
  | direct t still now => exact hroom.flow (still.trans_flow (internal_flow env t pkt buf))
  | waits t packet hseq hbuf joins ahead size started room =>
      change Room t
      have hlen := joins.flow.queueLen
      have hcount := hroom.count
      refine ⟨by omega, ?_, ?_⟩
      · intro _
        rw [joins.queueLen, joins.queueSize]
        exact room
      · intro hsize
        rw [joins.queueSize] at hsize
        omega
  | full t packet hseq hbuf joins ahead size started room =>
      change Room (rtpParseQueuedPacket env t pkt).ctx
      have hcount := hroom.count
      have hmore := joins.queueLen
      have hlen := joins.flow.queueLen
      have hflow := queued_flow env t pkt
      have hlen' := hflow.queueLen
      have hsize := hflow.queueSize
      have hne : t.queue ≠ [] := by
        intro hnil
        rw [hnil, List.length_nil] at hlen
        omega
      have hshort := queued_shorter env pkt (by omega) hne
      have hless := hroom.room size
      refine ⟨by omega, ?_, ?_⟩
      · intro _
        rw [hsize, joins.queueSize]
        omega
      · intro hoff
        rw [hsize, joins.queueSize] at hoff
        omega

def addressOf (bufptr : Option Buffer) : List Nat := bufptr.toList.map Buffer.addr

structure Settles (s : RTPDemuxContext σ) (bufptr : Option Buffer)
    (out : Parsed σ × Option Buffer) : Prop where
  kept : out.2 = none ∨ addressOf out.2 = addressOf bufptr
  flow : ∃ parsed, (parsed = [] ∨ parsed = addressOf out.2) ∧
    Flow parsed (if out.2.isSome then [] else addressOf bufptr) s out.1.ctx

theorem Arrival.settles (h : Arrival env s pkt buf out) : Settles s (some buf) out := by
  cases h with
  | dropped r rv still => exact ⟨.inr rfl, [], .inl rfl, still.flow⟩
  | direct t still now =>
      exact ⟨.inr rfl, [buf.addr], .inr rfl, still.trans_flow (internal_flow env t pkt buf)⟩
  | waits t packet hseq hbuf joins =>
      subst hbuf
      exact ⟨.inl rfl, [], .inl rfl, joins.flow⟩
  | full t packet hseq hbuf joins =>
      subst hbuf
      exact ⟨.inl rfl, [], .inl rfl, joins.flow.trans (queued_flow env t pkt)⟩

theorem one_settles (env : Env) (s : RTPDemuxContext σ) (pkt : AVPacket) (bufptr : Option Buffer)
    (hroom : Room s) : Settles s bufptr (rtpParseOnePacket env s pkt bufptr) ∧
      Room (rtpParseOnePacket env s pkt bufptr).1.ctx := by
  cases bufptr with
  | some buf =>
      have harrival := one_arrival env s pkt buf
      exact ⟨harrival.settles, harrival.room hroom⟩
  | none =>
      have hflow : Flow [] [] s (rtpParseOnePacket env s pkt none).1.ctx ∧
          (rtpParseOnePacket env s pkt none).2 = none := by
        obtain ⟨_, heq⟩ | ⟨_, _, heq⟩ | ⟨handler, _, _, pts, base, unwrapped, time, heq⟩ :=
          one_more env s pkt
        · rw [heq]
          exact ⟨queued_flow env s pkt, rfl⟩
        · rw [heq]
          exact ⟨.refl s, rfl⟩
        · rw [heq]
          exact ⟨⟨rfl, rfl, _, rfl, rfl, by simp [frees]⟩, rfl⟩
      obtain ⟨hflow, hnone⟩ := hflow
      refine ⟨⟨.inl hnone, [], .inl rfl, ?_⟩, hroom.flow hflow⟩
      rw [hnone]
      exact hflow

theorem call_settles (env : Env) (s : RTPDemuxContext σ) (pkt : AVPacket) (bufptr : Option Buffer)
    (hroom : Room s) : Settles s bufptr (ffRtpParsePacket env s pkt bufptr) ∧
      Room (ffRtpParsePacket env s pkt bufptr).1.ctx := by
  unfold ffRtpParsePacket
  cases hdec : decrypted env s bufptr with
  | none =>
      refine ⟨⟨.inr rfl, [], .inl rfl, ?_⟩, hroom⟩
      cases bufptr with
      | none => exact .refl s
      | some buf => exact .refl s
  | some plain =>
      have haddr : addressOf plain = addressOf bufptr := by
        cases bufptr with
        | none =>
            cases hdec
            rfl
        | some buf =>
            unfold decrypted at hdec
            split_ifs at hdec with hsrtp
            · obtain ⟨data, _, rfl⟩ := Option.map_eq_some_iff.mp hdec
              rfl
            · cases hdec
              rfl
      obtain ⟨⟨hkept, parsed, hparsed, hflow⟩, hroom'⟩ := one_settles env s pkt plain hroom
      dsimp only
      generalize rtpParseOnePacket env s pkt plain = out at *
      have hstill : Still out.1.ctx { out.1.ctx with prevRet := out.1.rv } :=
        ⟨⟨rfl, rfl, rfl, rfl⟩, rfl, rfl, rfl⟩
      have hdrain := hstill.trans_flow (drain_flow env out.1.ctx.queue
        { out.1 with ctx := { out.1.ctx with prevRet := out.1.rv } })
      refine ⟨⟨?_, parsed, hparsed, ?_⟩, hroom'.flow hdrain⟩
      · rw [← haddr]
        exact hkept
      · rw [← haddr]
        exact hflow.trans hdrain

def takes (d : Decoder σ) : RtpLabel → List Nat
  | .parsePacket env pkt bufptr =>
      if (ffRtpParsePacket env d.ctx pkt bufptr).2.isSome then [] else addressOf bufptr
  | .resetPacketQueue => []

/-- Callers hand in buffers of their own; the buffers taken from them are noted. -/
def custody (σ : Type) : System (Decoder σ × List Nat) RtpLabel :=
  ((decoder σ).guard handsOwn).observed takes

theorem handsOwn_fresh {env : Env} {pkt : AVPacket} (h : handsOwn d (.parsePacket env pkt bufptr) = true)
    (hnodup : (addresses d.ctx.queue).Nodup) : (addresses d.ctx.queue ++ addressOf bufptr).Nodup := by
  cases bufptr with
  | none => simpa [addressOf] using hnodup
  | some buf =>
      simp only [handsOwn, List.all_eq_true, decide_eq_true_eq] at h
      rw [List.nodup_append]
      refine ⟨hnodup, by simp [addressOf], ?_⟩
      intro a ha b hb
      obtain ⟨packet, hpacket, rfl⟩ := List.mem_map.mp ha
      rw [List.mem_singleton.mp hb]
      exact h packet hpacket

/-- The queue in custody: it is counted, it holds no buffer twice, and the
buffers taken so far are those freed and those queued. -/
structure Accounted (d : Decoder σ) (taken : List Nat) : Prop where
  room : Room d.ctx
  nodup : (addresses d.ctx.queue).Nodup
  owned : taken.Perm (frees d.ctx.calls ++ addresses d.ctx.queue)

theorem reset_flow (s : RTPDemuxContext σ) :
    ∃ new, (ffRtpResetPacketQueue s).calls = s.calls ++ new ∧ parses new = [] ∧
      frees new = addresses s.queue := by
  refine ⟨_, rfl, ?_, ?_⟩
  · induction s.queue with
    | nil => rfl
    | cons packet rest ih => exact ih
  · induction s.queue with
    | nil => rfl
    | cons packet rest ih => exact congrArg (packet.buf.addr :: ·) ih

theorem Settles.fresh (h : Settles s bufptr out) (hfresh : (addresses s.queue ++ addressOf bufptr).Nodup) :
    ∃ new, out.1.ctx.calls = s.calls ++ new ∧
      (parses new = frees new ∨ parses new = addressOf out.2 ++ frees new) ∧
      (addresses s.queue ++ if out.2.isSome then [] else addressOf bufptr).Perm
        (frees new ++ addresses out.1.ctx.queue) ∧
      (frees new ++ addresses out.1.ctx.queue).Nodup := by
  obtain ⟨parsed, hparsed, hflow⟩ := h.flow
  obtain ⟨new, hnew, hparses, hperm⟩ := hflow.moved
  refine ⟨new, hnew, ?_, hperm, ?_⟩
  · obtain rfl | rfl := hparsed
    · exact .inl hparses
    · exact .inr hparses
  · refine hperm.nodup (hfresh.sublist ?_)
    refine (List.Sublist.refl (addresses s.queue)).append ?_
    split_ifs
    · exact List.nil_sublist _
    · exact List.Sublist.refl _

theorem accounted_of_reachable {taken : List Nat} (h : (custody σ).Reachable (d, taken)) :
    Accounted d taken := by
  refine System.Reachable.invariant (fun x => Accounted x.1 x.2) ?_ ?_ h
  · rintro ⟨d, taken⟩ ⟨⟨_, nbStreams, st, payloadType, queueSize, data, handler, crypto, hopen⟩, htaken⟩
    simp only at htaken hopen
    subst htaken
    refine ⟨⟨?_, ?_, ?_⟩, ?_, ?_⟩ <;> rw [hopen]
    · rfl
    · exact fun hsize => lt_trans Int.zero_lt_one hsize
    · exact fun _ => rfl
    · exact List.nodup_nil
    · exact .refl _
  · rintro ⟨d, taken⟩ l ⟨e, taken'⟩ _ hinv hnext
    obtain ⟨hguard, htaken⟩ := System.observed_next.mp hnext
    obtain ⟨hown, hstep⟩ := System.guard_next.mp hguard
    simp only at htaken
    subst htaken
    cases l with
    | parsePacket env pkt bufptr =>
        cases hstep
        obtain ⟨hsettles, hroom⟩ := call_settles env d.ctx pkt bufptr hinv.room
        obtain ⟨new, hnew, _, hperm, hnodup⟩ := hsettles.fresh (handsOwn_fresh hown hinv.nodup)
        refine ⟨hroom, (List.nodup_append.mp hnodup).2.1, ?_⟩
        simp only [takes, hnew, frees_append, List.append_assoc]
        refine (hinv.owned.append_right _).trans ?_
        rw [List.append_assoc]
        exact hperm.append_left (frees d.ctx.calls)
    | resetPacketQueue =>
        cases hstep
        obtain ⟨new, hnew, _, hfrees⟩ := reset_flow d.ctx
        refine ⟨⟨rfl, fun hsize => lt_trans Int.zero_lt_one hsize, fun _ => rfl⟩, List.nodup_nil, ?_⟩
        simp only [takes, hnew, frees_append, hfrees, List.append_nil]
        refine hinv.owned.trans (.of_eq ?_)
        simp [ffRtpResetPacketQueue, addresses]

/-- What a call does with the buffer it is handed and with the queued ones: the
buffer is the caller's, queued or freed, a queued one is still queued or freed,
and what is freed has gone through the parser once. -/
def CallAccounts (d : Decoder σ) (bufptr : Option Buffer) (out : Parsed σ × Option Buffer) : Prop :=
  ∃ new, out.1.ctx.calls = d.ctx.calls ++ new ∧
    (∀ a ∈ addressOf bufptr, (addressOf out.2).count a + (addresses out.1.ctx.queue).count a +
      (frees new).count a = 1) ∧
    (∀ a ∈ addresses d.ctx.queue,
      (addresses out.1.ctx.queue).count a + (frees new).count a = 1) ∧
    (parses new = frees new ∨ parses new = addressOf out.2 ++ frees new)

theorem call_accounts {taken : List Nat} (h : Accounted d taken) {env : Env} {pkt : AVPacket}
    (hown : handsOwn d (.parsePacket env pkt bufptr) = true) :
    CallAccounts d bufptr (ffRtpParsePacket env d.ctx pkt bufptr) := by
  have hfresh := handsOwn_fresh hown h.nodup
  have hsettles := (call_settles env d.ctx pkt bufptr h.room).1
  obtain ⟨new, hnew, hparses, hperm, hnodup⟩ := hsettles.fresh hfresh
  have hkept := hsettles.kept
  generalize ffRtpParsePacket env d.ctx pkt bufptr = out at *
  refine ⟨new, hnew, ?_, ?_, hparses⟩
  · intro a ha
    have hcount := hperm.count_eq a
    have hnot : (addresses d.ctx.queue).count a = 0 := by
      refine List.count_eq_zero.mpr fun hmem => ?_
      exact (List.nodup_append.mp hfresh).2.2 a hmem a ha rfl
    have hone : (addressOf bufptr).count a = 1 :=
      List.count_eq_one_of_mem (List.nodup_append.mp hfresh).2.1 ha
    simp only [List.count_append, hnot, Nat.zero_add] at hcount
    cases hout : out.2 with
    | none =>
        rw [hout] at hcount
        simp only [Option.isSome_none, Bool.false_eq_true, if_false, hone] at hcount
        simp only [addressOf, Option.toList_none, List.map_nil, List.count_nil]
        omega
    | some kept =>
        rw [hout] at hcount hkept
        simp only [Option.isSome_some, if_true, List.count_nil] at hcount
        rw [hkept.resolve_left (by simp), hone]
        omega
  · intro a ha
    have hcount := List.count_eq_one_of_mem hnodup (hperm.subset (List.mem_append_left _ ha))
    rw [List.count_append] at hcount
    omega

/-- The queue is counted rightly and never stays full, every buffer handed in is
owned once after the call or was queued, parsed and freed by it, and a queued
buffer leaves the queue parsed and freed once, or freed by a reset. -/
theorem reorder_queue_accounting {d : Decoder σ} {taken : List Nat}
    (h : (custody σ).Reachable (d, taken)) :
    d.ctx.queueLen = d.ctx.queue.length ∧
    (1 < d.ctx.queueSize → d.ctx.queueLen < d.ctx.queueSize) ∧
    (d.ctx.queueSize ≤ 1 → d.ctx.queue = []) ∧
    (addresses d.ctx.queue).Nodup ∧
    taken.Perm (frees d.ctx.calls ++ addresses d.ctx.queue) ∧
    (∀ env pkt bufptr, handsOwn d (.parsePacket env pkt bufptr) = true →
      CallAccounts d bufptr (ffRtpParsePacket env d.ctx pkt bufptr)) ∧
    ∃ new, (ffRtpResetPacketQueue d.ctx).calls = d.ctx.calls ++ new ∧ parses new = [] ∧
      frees new = addresses d.ctx.queue ∧ (ffRtpResetPacketQueue d.ctx).queue = [] := by
  have hinv := accounted_of_reachable h
  obtain ⟨new, hnew, hparses, hfrees⟩ := reset_flow d.ctx
  exact ⟨hinv.room.count, hinv.room.room, hinv.room.off, hinv.nodup, hinv.owned,
    fun env pkt bufptr hown => call_accounts hinv hown, new, hnew, hparses, hfrees, rfl⟩

/-- Nothing fails: memory is there and encryption is off. -/
def plainEnv : Env where
  now := 0
  ffSrtpDecrypt := fun _ => none
  avMallocz := true
  avNewPacket := fun _ => true

/-- A packet of payload type 96 with one byte of payload, kept at address `addr`. -/
def rtpPacket (addr : Nat) (seq : UInt16) : Buffer :=
  ⟨addr, [0x80, 96, (seq / 256).toUInt8, seq.toUInt8, 0, 0, 0, 0, 0, 0, 0, 1, 65]⟩

def arrives (addr : Nat) (seq : UInt16) : RtpLabel :=
  .parsePacket plainEnv .blank (some (rtpPacket addr seq))

def copying : RTPDemuxContext Unit :=
  opened 1 (some ⟨0, ⟨1, 90000⟩⟩) 96 2 () none false

def custodyStart : Decoder Unit × List Nat := (⟨copying, 0⟩, [])

theorem custodyStart_init : (custody Unit).init custodyStart :=
  ⟨⟨rfl, _, _, _, _, _, _, _, rfl⟩, rfl⟩

theorem reorder_queue_accounting_queued :
    ∃ d taken, (custody Unit).Reachable (d, taken) ∧ d.ctx.queue ≠ [] ∧
      d.ctx.queueLen = d.ctx.queue.length ∧
      handsOwn d (arrives 3 7) = true ∧
      CallAccounts d (some (rtpPacket 3 7))
        (ffRtpParsePacket plainEnv d.ctx .blank (some (rtpPacket 3 7))) := by
  have hview : ((custody Unit).run [arrives 1 5, arrives 2 8] custodyStart).map
      (fun x => (x.1.ctx.queue ≠ [] : Bool) && handsOwn x.1 (arrives 3 7)) = some true := by
    decide +kernel
  obtain ⟨⟨d, taken⟩, hrun, hd⟩ := Option.map_eq_some_iff.mp hview
  simp only [Bool.and_eq_true, decide_eq_true_eq] at hd
  have hreach := System.Reachable.of_run custodyStart_init hrun
  have hacc := reorder_queue_accounting hreach
  exact ⟨d, taken, hreach, hd.1, hacc.1, hd.2, hacc.2.2.2.2.2.1 _ _ _ hd.2⟩

/-- The packet that fills the queue is parsed and freed by the call that queued
it: neither the caller nor the queue owns it afterwards. -/
theorem filling_packet_has_no_owner :
    ∃ d taken, (custody Unit).Reachable (d, taken) ∧ handsOwn d (arrives 3 7) = true ∧
      let out := ffRtpParsePacket plainEnv d.ctx .blank (some (rtpPacket 3 7))
      out.2 = none ∧ addresses out.1.ctx.queue = [2] ∧ frees out.1.ctx.calls = [3] := by
  have hview : ((custody Unit).run [arrives 1 5, arrives 2 8] custodyStart).map
      (fun x =>
        let out := ffRtpParsePacket plainEnv x.1.ctx .blank (some (rtpPacket 3 7))
        (handsOwn x.1 (arrives 3 7), out.2, addresses out.1.ctx.queue, frees out.1.ctx.calls)) =
      some (true, none, [2], [3]) := by
    decide +kernel
  obtain ⟨⟨d, taken⟩, hrun, hd⟩ := Option.map_eq_some_iff.mp hview
  simp only [Prod.mk.injEq] at hd
  exact ⟨d, taken, .of_run custodyStart_init hrun, hd.1, hd.2⟩

end P2PFFmpeg.Rtp
