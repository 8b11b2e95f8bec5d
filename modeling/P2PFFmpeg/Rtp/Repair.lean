import P2PFFmpeg.Rtp.Nack

namespace P2PFFmpeg.Rtp

open Util Library.Serial Library.Transition

variable {σ : Type}

def rtpMaxPacketLength : Nat := 8192

/-- What the outside does for one request: whether its steps succeed, the buffer of
the answer, and the body, where it can be read. -/
structure Exchange where
  avAsprintf : Bool
  avioOpen2 : Bool
  avMalloc : Option Nat
  avioRead : Option (List UInt8)
  env : Env

/-- The decoder with what the repair keeps. -/
structure Repairing (σ : Type) where
  decoder : Decoder σ
  repairRtpPktUrl : Option String
  lastRepairTime : Int
  repairAttempts : Int
  repairSuccesses : Int

def Repairing.ctx (r : Repairing σ) : RTPDemuxContext σ := r.decoder.ctx

def Repairing.withCtx (r : Repairing σ) (ctx : RTPDemuxContext σ) : Repairing σ :=
  { r with decoder := { r.decoder with ctx := ctx } }

/-- rtp_http_fetch_and_enqueue up to the checks of the answer; another number than the
one asked for is only logged. -/
def fetched (url : Option String) (ssrc : UInt32) (x : Exchange) : Option Buffer :=
  if url.isNone ∨ ¬x.avAsprintf ∨ ¬x.avioOpen2 then none
  else
    match x.avMalloc, x.avioRead with
    | some addr, some body =>
        let data := body.take rtpMaxPacketLength
        if data.length < 12 then none
        else if ¬isVersion2 data then none
        else if ssrc ≠ 0 ∧ avRb32 data 8 ≠ ssrc then none
        else some ⟨addr, data⟩
    | _, _ => none

/-- The address is taken from the metadata the first time. -/
def rtpHttpFetchAndEnqueue (metadata : Option String) (x : Exchange) (r : Repairing σ) : Nat × Repairing σ :=
  let url := r.repairRtpPktUrl <|> metadata
  match fetched url r.ctx.ssrc x with
  | none => (0, { r with repairRtpPktUrl := url })
  | some buf =>
      let (ret, ctx) := enqueuePacket x.env r.ctx buf
      let r := { r.withCtx ctx with repairRtpPktUrl := url }
      if ret < 0 then (0, r) else (1, { r with repairSuccesses := r.repairSuccesses + 1 })

def fetchAll (metadata : Option String) (answers : UInt16 → Exchange) : List UInt16 → Nat × Repairing σ → Nat × Repairing σ
  | [], out => out
  | seq :: rest, (repaired, r) =>
      let (ret, r) := rtpHttpFetchAndEnqueue metadata (answers seq) r
      fetchAll metadata answers rest (repaired + ret, r)

def requests (firstMissing mask : UInt16) : List UInt16 :=
  firstMissing :: ((List.range' 1 16).filter fun i => mask.toNat.testBit (i - 1)).map fun i =>
    firstMissing + UInt16.ofNat i

def rtpTryHttpRepair (now : Int) (metadata : Option String) (answers : UInt16 → Exchange) (r : Repairing σ) :
    Nat × Repairing σ :=
  if r.lastRepairTime ≠ 0 ∧ now - r.lastRepairTime < minFeedbackInterval then (0, r)
  else
    match findMissingPackets r.ctx with
    | none => (0, r)
    | some (firstMissing, mask) =>
        let seqs := requests firstMissing mask
        let attempted := { r with repairAttempts := r.repairAttempts + seqs.length }
        let (repaired, r) := fetchAll metadata answers seqs (0, attempted)
        (repaired, if 0 < repaired then { r with lastRepairTime := now } else r)

inductive RepairLabel
  | call (l : RtpLabel)
  | repair (now : Int) (metadata : Option String) (answers : UInt16 → Exchange)

def repairing (σ : Type) : System (Repairing σ) RepairLabel where
  init r := (decoder σ).init r.decoder ∧ r.repairRtpPktUrl = none ∧ r.lastRepairTime = 0 ∧
    r.repairAttempts = 0 ∧ r.repairSuccesses = 0
  next r l := match l with
    | .call l => ((decoder σ).next r.decoder l).map fun d => { r with decoder := d }
    | .repair now metadata answers => some (rtpTryHttpRepair now metadata answers r).2

def asked (now : Int) (r : Repairing σ) : List UInt16 :=
  if r.lastRepairTime ≠ 0 ∧ now - r.lastRepairTime < minFeedbackInterval then []
  else
    match findMissingPackets r.ctx with
    | none => []
    | some (firstMissing, mask) => requests firstMissing mask

def files (metadata : Option String) (r : Repairing σ) (x : Exchange) : Option Buffer :=
  if x.env.avMallocz then fetched (r.repairRtpPktUrl <|> metadata) r.ctx.ssrc x else none

def AddsOnly (seq : UInt16) (s t : RTPDemuxContext σ) : Prop :=
  t.queue = s.queue ∨ ∃ packet : RTPPacket, packet.seq = seq ∧ seqOf packet.buf.data = seq ∧
    t.queue.Perm (packet :: s.queue) ∧ s.queue.Sublist t.queue

/-- What a call of rtp_try_http_repair keeps. -/
structure RepairSound (now : Int) (metadata : Option String) (answers : UInt16 → Exchange) (r t : Repairing σ) : Prop where
  fetches : ∀ done seq rest, asked now r = done ++ seq :: rest →
    let before := (fetchAll metadata answers done (0, r)).2
    AddsOnly seq before.ctx (rtpHttpFetchAndEnqueue metadata (answers seq) before).2.ctx
  sorted : t.ctx.queue.Pairwise fun a b => Precedes a.seq b.seq
  shorter : 0 < t.ctx.queueSize → t.ctx.queue.length < t.ctx.queueSize
  kept : r.ctx.queue.Sublist t.ctx.queue
  counted : t.repairSuccesses ≤ t.repairAttempts

structure Answered (now : Int) (metadata : Option String) (answers : UInt16 → Exchange) (r : Repairing σ) : Prop where
  own : ∀ seq ∈ asked now r, ∀ buf, files metadata r (answers seq) = some buf → seqOf buf.data = seq
  room : asked now r ≠ [] →
    r.ctx.queue.length + (asked now r).countP (fun seq => (files metadata r (answers seq)).isSome) < r.ctx.queueSize

def RepairsInBounds (r : Repairing σ) : RepairLabel → Prop
  | .call l => Unrepeated r.decoder l
  | .repair now metadata answers => Answered now metadata answers r

section Fetch

variable {metadata : Option String} {x : Exchange} {r t : Repairing σ} {seq : UInt16}

structure SameRepair (metadata : Option String) (r t : Repairing σ) : Prop where
  url : t.repairRtpPktUrl = (r.repairRtpPktUrl <|> metadata)
  ssrc : t.ctx.ssrc = r.ctx.ssrc
  attempts : t.repairAttempts = r.repairAttempts

inductive Fetches (metadata : Option String) (x : Exchange) (r : Repairing σ) : Nat × Repairing σ → Prop
  | nothing {t : Repairing σ} (none : files metadata r x = none) (same : SameRepair metadata r t) (ctx : t.ctx = r.ctx)
      (successes : t.repairSuccesses = r.repairSuccesses) : Fetches metadata x r (0, t)
  | one {t : Repairing σ} (buf : Buffer) (some : files metadata r x = some buf) (same : SameRepair metadata r t)
      (joins : Joins r.ctx t.ctx ⟨seqOf buf.data, buf, x.env.now⟩)
      (successes : t.repairSuccesses = r.repairSuccesses + 1) : Fetches metadata x r (1, t)

theorem fetch_fetches (metadata : Option String) (x : Exchange) (r : Repairing σ) :
    Fetches metadata x r (rtpHttpFetchAndEnqueue metadata x r) := by
  unfold rtpHttpFetchAndEnqueue
  dsimp only
  cases hanswer : fetched (r.repairRtpPktUrl <|> metadata) r.ctx.ssrc x with
  | none =>
      have hnone : files metadata r x = none := by
        unfold files
        rw [hanswer, ite_self]
      exact .nothing hnone ⟨rfl, rfl, rfl⟩ rfl rfl
  | some buf =>
      cases hmalloc : x.env.avMallocz with
      | false =>
          have hnone : files metadata r x = none := by
            unfold files
            rw [hmalloc, if_neg Bool.false_ne_true]
          have henqueue : enqueuePacket x.env r.ctx buf = (averrorEnomem, r.ctx) := by
            simp [enqueuePacket, hmalloc]
          dsimp only
          rw [henqueue]
          exact .nothing hnone ⟨rfl, rfl, rfl⟩ rfl rfl
      | true =>
          have hsome : files metadata r x = some buf := by
            unfold files
            rw [hmalloc, if_pos rfl, hanswer]
          obtain ⟨hrv, hjoins⟩ := enqueuePacket_some x.env r.ctx buf hmalloc
          have hssrc : (enqueuePacket x.env r.ctx buf).2.ssrc = r.ctx.ssrc := by
            simp [enqueuePacket, hmalloc]
          dsimp only
          rw [hrv, if_neg (by decide)]
          exact .one buf hsome ⟨rfl, hssrc, rfl⟩ hjoins rfl

variable {out : Nat × Repairing σ}

theorem Fetches.same (h : Fetches metadata x r out) : SameRepair metadata r out.2 := by
  cases h with
  | nothing _ same => exact same
  | one _ _ same => exact same

structure Askable (r : Repairing σ) (seqs : List UInt16) : Prop where
  filed : Filed r.ctx
  nodup : seqs.Nodup
  ahead : ∀ seq ∈ seqs, Precedes r.ctx.seq seq
  absent : ∀ seq ∈ seqs, ¬IsQueued r.ctx seq

theorem SameRepair.files_eq (h : SameRepair metadata r t) (x : Exchange) : files metadata t x = files metadata r x := by
  unfold files
  rw [h.url, h.ssrc]
  cases r.repairRtpPktUrl <;> cases metadata <;> rfl

theorem isQueued_joins {s t : RTPDemuxContext σ} {packet : RTPPacket} (h : Joins s t packet) {x : UInt16} :
    IsQueued t x ↔ packet.seq = x ∨ IsQueued s x := by
  unfold IsQueued
  rw [h.queue]
  constructor
  · rintro ⟨p, hp, rfl⟩
    rcases (List.mem_orderedInsert _).mp hp with rfl | hp
    · exact .inl rfl
    · exact .inr ⟨p, hp, rfl⟩
  · rintro (rfl | ⟨p, hp, rfl⟩)
    · exact ⟨packet, (List.mem_orderedInsert _).mpr (.inl rfl), rfl⟩
    · exact ⟨p, (List.mem_orderedInsert _).mpr (.inr hp), rfl⟩

theorem Askable.fetch {seqs : List UInt16} (h : Askable r (seq :: seqs))
    (hown : ∀ buf, files metadata r x = some buf → seqOf buf.data = seq) (hf : Fetches metadata x r out) :
    Askable out.2 seqs := by
  obtain ⟨hnew, hnodup⟩ := List.nodup_cons.mp h.nodup
  have hrest : ∀ q ∈ seqs, q ∈ seq :: seqs := fun q hq => List.mem_cons_of_mem seq hq
  cases hf with
  | nothing _ _ ctx _ =>
      exact ⟨ctx ▸ h.filed, hnodup, fun q hq => ctx ▸ h.ahead q (hrest q hq), fun q hq => ctx ▸ h.absent q (hrest q hq)⟩
  | one buf hfiles _ joins _ =>
      have hseq := hown buf hfiles
      refine ⟨joins.filed h.filed rfl ?_ ?_, hnodup, ?_, ?_⟩
      · intro p hp heq
        exact h.absent seq (by simp) ⟨p, hp, heq.trans hseq⟩
      · dsimp only
        rw [hseq]
        exact h.ahead seq (by simp)
      · intro q hq
        rw [joins.seq]
        exact h.ahead q (hrest q hq)
      · intro q hq hqueued
        rcases (isQueued_joins joins).mp hqueued with heq | hold
        · exact hnew ((heq.symm.trans hseq) ▸ hq)
        · exact h.absent q (hrest q hq) hold

theorem AddsOnly.of_fetches (hown : ∀ buf, files metadata r x = some buf → seqOf buf.data = seq)
    (hf : Fetches metadata x r out) : AddsOnly seq r.ctx out.2.ctx := by
  cases hf with
  | nothing _ _ ctx _ => exact .inl (by rw [ctx])
  | one buf hfiles _ joins _ =>
      have hseq := hown buf hfiles
      refine .inr ⟨⟨seqOf buf.data, buf, x.env.now⟩, hseq, hseq, ?_, ?_⟩
      · rw [joins.queue]
        exact List.perm_orderedInsert _ _ _
      · rw [joins.queue]
        exact List.sublist_orderedInsert _ _

end Fetch

section Batch

variable {metadata : Option String} {answers : UInt16 → Exchange} {r : Repairing σ} {seqs : List UInt16}

def filing (metadata : Option String) (answers : UInt16 → Exchange) (r : Repairing σ) (seqs : List UInt16) : Nat :=
  seqs.countP fun seq => (files metadata r (answers seq)).isSome

/-- What requests that file `n` packets leave. -/
structure Batch (n : Nat) (r t : Repairing σ) : Prop where
  length : t.ctx.queue.length = r.ctx.queue.length + n
  queueLen : t.ctx.queueLen = r.ctx.queueLen + n
  queueSize : t.ctx.queueSize = r.ctx.queueSize
  successes : t.repairSuccesses = r.repairSuccesses + n
  attempts : t.repairAttempts = r.repairAttempts
  kept : r.ctx.queue.Sublist t.ctx.queue

theorem Batch.refl (r : Repairing σ) : Batch 0 r r :=
  ⟨rfl, (Int.add_zero _).symm, rfl, (Int.add_zero _).symm, rfl, .refl _⟩

theorem Batch.trans {m n : Nat} {r t u : Repairing σ} (h : Batch m r t) (g : Batch n t u) : Batch (m + n) r u where
  length := by
    rw [g.length, h.length, Nat.add_assoc]
  queueLen := by
    rw [g.queueLen, h.queueLen, Int.natCast_add, Int.add_assoc]
  queueSize := g.queueSize.trans h.queueSize
  successes := by
    rw [g.successes, h.successes, Int.natCast_add, Int.add_assoc]
  attempts := g.attempts.trans h.attempts
  kept := h.kept.trans g.kept

theorem Fetches.batch {x : Exchange} {out : Nat × Repairing σ} (h : Fetches metadata x r out) :
    Batch (if (files metadata r x).isSome then 1 else 0) r out.2 := by
  cases h with
  | nothing none same ctx successes =>
      rw [none]
      exact ⟨by rw [ctx]; rfl, by rw [ctx]; exact (Int.add_zero _).symm, by rw [ctx],
        successes.trans (Int.add_zero _).symm, same.attempts, by rw [ctx]⟩
  | one buf some same joins successes =>
      rw [some]
      refine ⟨?_, joins.queueLen, joins.queueSize, successes, same.attempts, ?_⟩
      · rw [joins.queue, List.orderedInsert_length]
        rfl
      · rw [joins.queue]
        exact List.sublist_orderedInsert _ _

theorem fetchAll_cons (repaired : Nat) (seq : UInt16) :
    fetchAll metadata answers (seq :: seqs) (repaired, r) =
      fetchAll metadata answers seqs (repaired + (rtpHttpFetchAndEnqueue metadata (answers seq) r).1,
        (rtpHttpFetchAndEnqueue metadata (answers seq) r).2) := rfl

theorem fetchAll_askable (done : List UInt16) (h : Askable r (done ++ seqs))
    (hown : ∀ seq ∈ done, ∀ buf, files metadata r (answers seq) = some buf → seqOf buf.data = seq) (repaired : Nat) :
    Askable (fetchAll metadata answers done (repaired, r)).2 seqs := by
  induction done generalizing r repaired with
  | nil => exact h
  | cons seq rest ih =>
      have hf := fetch_fetches metadata (answers seq) r
      have hnext := Askable.fetch h (hown seq (by simp)) hf
      rw [fetchAll_cons]
      refine ih hnext (fun q hq buf hbuf => ?_) _
      rw [hf.same.files_eq] at hbuf
      exact hown q (by simp [hq]) buf hbuf

theorem files_fetchAll (done : List UInt16) (x : Exchange) (repaired : Nat) :
    files metadata (fetchAll metadata answers done (repaired, r)).2 x = files metadata r x := by
  induction done generalizing r repaired with
  | nil => rfl
  | cons seq rest ih => rw [fetchAll_cons, ih, (fetch_fetches metadata (answers seq) r).same.files_eq]

theorem fetchAll_batch (seqs : List UInt16) (r : Repairing σ) (repaired : Nat) :
    Batch (filing metadata answers r seqs) r (fetchAll metadata answers seqs (repaired, r)).2 := by
  induction seqs generalizing r repaired with
  | nil => exact .refl r
  | cons seq rest ih =>
      have hf := fetch_fetches metadata (answers seq) r
      have hrest := ih (rtpHttpFetchAndEnqueue metadata (answers seq) r).2
        (repaired + (rtpHttpFetchAndEnqueue metadata (answers seq) r).1)
      have hcount : filing metadata answers (rtpHttpFetchAndEnqueue metadata (answers seq) r).2 rest =
          filing metadata answers r rest := by
        unfold filing
        simp only [hf.same.files_eq]
      rw [hcount] at hrest
      have hsum : filing metadata answers r (seq :: rest) =
          (if (files metadata r (answers seq)).isSome then 1 else 0) + filing metadata answers r rest := by
        unfold filing
        rw [List.countP_cons, Nat.add_comm]
      rw [hsum]
      exact hf.batch.trans hrest

end Batch

section Calls

variable {now : Int} {metadata : Option String} {answers : UInt16 → Exchange} {r : Repairing σ}

theorem mem_requests {firstMissing mask x : UInt16} : x ∈ requests firstMissing mask ↔ Names firstMissing mask x := by
  unfold requests Names
  simp only [List.mem_cons, List.mem_map, List.mem_filter, List.mem_range'_1]
  refine or_congr_right ⟨?_, ?_⟩
  · rintro ⟨i, ⟨⟨hlow, hhigh⟩, hbit⟩, rfl⟩
    exact ⟨i, hlow, by omega, hbit, rfl⟩
  · rintro ⟨i, hlow, hhigh, hbit, rfl⟩
    exact ⟨i, ⟨⟨hlow, by omega⟩, hbit⟩, rfl⟩

theorem requests_nodup (firstMissing mask : UInt16) : (requests firstMissing mask).Nodup := by
  unfold requests
  have hinj : ∀ i j : Nat, i ≤ 16 → j ≤ 16 → firstMissing + UInt16.ofNat i = firstMissing + UInt16.ofNat j → i = j := by
    intro i j hi hj heq
    have hi' := ahead_add_ofNat firstMissing (by omega : i < 65536)
    have hj' := ahead_add_ofNat firstMissing (by omega : j < 65536)
    rw [← hi', heq, hj']
  refine List.nodup_cons.mpr ⟨?_, ?_⟩
  · simp only [List.mem_map, List.mem_filter, List.mem_range'_1]
    rintro ⟨i, ⟨⟨hlow, hhigh⟩, _⟩, heq⟩
    have hzero := hinj i 0 (by omega) (by omega) (heq.trans (UInt16.add_zero _).symm)
    omega
  · refine List.Nodup.map_on ?_ ((List.nodup_range').filter _)
    intro i hi j hj heq
    simp only [List.mem_filter, List.mem_range'_1] at hi hj
    exact hinj i j (by omega) (by omega) heq

theorem askable_asked (h : Filed r.ctx) : Askable r (asked now r) := by
  have hnone : Askable r [] := ⟨h, .nil, nofun, nofun⟩
  unfold asked
  split
  · exact hnone
  split
  · exact hnone
  · next firstMissing mask hfind =>
      have hmissing : ∀ x ∈ requests firstMissing mask, InWindow r.ctx x ∧ ¬IsQueued r.ctx x :=
        fun x hx => (names_iff h.spread hfind x).mp (mem_requests.mp hx)
      refine ⟨h, requests_nodup _ _, fun x hx => ?_, fun x hx => (hmissing x hx).2⟩
      obtain ⟨k, hk, hle, rfl⟩ := (hmissing x hx).1.1
      rw [precedes_iff, ahead_add_ofNat _ (by omega)]
      omega

theorem rtpTryHttpRepair_eq (now : Int) (metadata : Option String) (answers : UInt16 → Exchange) (r : Repairing σ) :
    ∃ time, (rtpTryHttpRepair now metadata answers r).2 =
      { (fetchAll metadata answers (asked now r)
          (0, { r with repairAttempts := r.repairAttempts + (asked now r).length })).2 with lastRepairTime := time } := by
  unfold rtpTryHttpRepair asked
  split
  · exact ⟨r.lastRepairTime, by simp [fetchAll]⟩
  split
  · exact ⟨r.lastRepairTime, by simp [fetchAll]⟩
  · next firstMissing mask _ =>
      dsimp only
      split
      · exact ⟨now, rfl⟩
      · exact ⟨_, rfl⟩

theorem Askable.of_ctx {t : Repairing σ} {seqs : List UInt16} (h : Askable r seqs) (ctx : t.ctx = r.ctx) :
    Askable t seqs :=
  ⟨ctx ▸ h.filed, h.nodup, ctx ▸ h.ahead, ctx ▸ h.absent⟩

/-- The queue is in order with room, and no more packets were repaired than asked for. -/
structure Repairing.Sound (r : Repairing σ) : Prop where
  buffered : Buffered r.ctx
  counted : r.repairSuccesses ≤ r.repairAttempts

theorem spread_sorted {s : RTPDemuxContext σ} (h : Spread RTPPacket.seq s.seq s.queue) :
    s.queue.Pairwise fun a b => Precedes a.seq b.seq := by
  refine h.sorted.imp_of_mem fun {a b} ha hb hlt => ?_
  exact (precedes_iff_ahead (precedes_iff.mp (h.near a ha)).2 (precedes_iff.mp (h.near b hb)).2).mpr hlt

theorem Room.batch {s t : RTPDemuxContext σ} {n : Nat} (h : Room s) (hlength : t.queue.length = s.queue.length + n)
    (hlen : t.queueLen = s.queueLen + n) (hsize : t.queueSize = s.queueSize)
    (hroom : 1 < s.queueSize → s.queueLen + n < s.queueSize) (hoff : s.queueSize ≤ 1 → n = 0) : Room t where
  count := by
    rw [hlen, hlength, h.count, Int.natCast_add]
  room hs := by
    rw [hsize] at hs ⊢
    rw [hlen]
    exact hroom hs
  off hs := by
    rw [hsize] at hs
    rw [h.off hs, hoff hs] at hlength
    exact List.length_eq_zero_iff.mp hlength

theorem asked_nil (h : r.ctx.queue = []) : asked now r = [] := by
  have hnone : findMissingPackets r.ctx = none := by
    unfold findMissingPackets
    rw [h]
  unfold asked
  rw [hnone]
  exact ite_self _

theorem fetches_add (ha : Answered now metadata answers r) {done rest : List UInt16} {seq : UInt16}
    (heq : asked now r = done ++ seq :: rest) :
    let before := (fetchAll metadata answers done (0, r)).2
    AddsOnly seq before.ctx (rtpHttpFetchAndEnqueue metadata (answers seq) before).2.ctx := by
  intro before
  refine AddsOnly.of_fetches (fun buf hbuf => ?_) (fetch_fetches metadata (answers seq) before)
  rw [files_fetchAll] at hbuf
  exact ha.own seq (by simp [heq]) buf hbuf

theorem repair_step (h : r.Sound) (ha : Answered now metadata answers r) :
    (rtpTryHttpRepair now metadata answers r).2.Sound ∧
      RepairSound now metadata answers r (rtpTryHttpRepair now metadata answers r).2 := by
  obtain ⟨time, ht⟩ := rtpTryHttpRepair_eq now metadata answers r
  generalize hstart : ({ r with repairAttempts := r.repairAttempts + (asked now r).length } : Repairing σ) = start at ht
  have hctx : start.ctx = r.ctx := hstart ▸ rfl
  have hfiles : ∀ x, files metadata start x = files metadata r x := fun x => hstart ▸ rfl
  have hask := @askable_asked _ now r h.buffered.filed
  have hbatch := @fetchAll_batch _ metadata answers (asked now r) start 0
  have hend := @fetchAll_askable _ metadata answers start [] (asked now r)
    (by rw [List.append_nil]; exact hask.of_ctx hctx) (fun seq hs buf hb => ha.own seq hs buf (hfiles _ ▸ hb)) 0
  generalize (fetchAll metadata answers (asked now r) (0, start)).2 = last at ht hbatch hend
  have hfiling : filing metadata answers start (asked now r) =
      (asked now r).countP fun seq => (files metadata r (answers seq)).isSome := by
    unfold filing
    simp only [hfiles]
  rw [hfiling] at hbatch
  have hcount := h.buffered.room.count
  have hroom : Room last.ctx := by
    refine h.buffered.room.batch (hctx ▸ hbatch.length) (hctx ▸ hbatch.queueLen) (hctx ▸ hbatch.queueSize) ?_ ?_
    · intro hsize
      by_cases hnil : asked now r = []
      · rw [hnil]
        exact (Int.add_zero _).symm ▸ h.buffered.room.room hsize
      · rw [hcount]
        exact ha.room hnil
    · intro hsize
      rw [asked_nil (h.buffered.room.off hsize)]
      rfl
  have hsuccesses : last.repairSuccesses ≤ last.repairAttempts := by
    have hle := @List.countP_le_length _ (fun seq => (files metadata r (answers seq)).isSome) (asked now r)
    have hbefore := h.counted
    rw [hbatch.successes, hbatch.attempts, ← hstart]
    dsimp only
    omega
  rw [ht]
  refine ⟨⟨⟨hend.filed, hroom⟩, hsuccesses⟩, ?_⟩
  exact
    { fetches := fun _ _ _ heq => fetches_add ha heq
      sorted := spread_sorted hend.filed.spread
      shorter := fun hsize => by
        change (last.ctx.queue.length : Int) < last.ctx.queueSize
        rcases Int.lt_or_le 1 last.ctx.queueSize with hmany | hone
        · rw [← hroom.count]
          exact hroom.room hmany
        · rw [hroom.off hone]
          exact hsize
      kept := hctx ▸ hbatch.kept
      counted := hsuccesses }

end Calls

theorem sound_repairing {r : Repairing σ} (h : ((repairing σ).restrict RepairsInBounds).Reachable r) : r.Sound := by
  refine System.Reachable.invariant Repairing.Sound ?_ ?_ h
  · rintro r ⟨⟨_, nbStreams, st, payloadType, queueSize, data, handler, crypto, hopen⟩, _, _, hattempts, hsuccesses⟩
    refine ⟨?_, by rw [hattempts, hsuccesses]⟩
    unfold Repairing.ctx
    rw [hopen]
    exact buffered_opened ..
  · intro r l t _ hsound hn
    obtain ⟨hbounds, hnext⟩ := System.restrict_next.mp hn
    cases l with
    | call l =>
        obtain ⟨d, hd, rfl⟩ := Option.map_eq_some_iff.mp hnext
        exact ⟨hsound.buffered.call hbounds hd, hsound.counted⟩
    | repair now metadata answers =>
        obtain rfl := Option.some.inj hnext
        exact (repair_step hsound hbounds).1

/-- In every run without repeated packets whose filed answers carry the numbers asked
for and fit in the queue, every repair keeps the queue sound. -/
theorem repair_keeps_queue {r t : Repairing σ} {now : Int} {metadata : Option String} {answers : UInt16 → Exchange}
    (h : ((repairing σ).restrict RepairsInBounds).Reachable r)
    (hn : ((repairing σ).restrict RepairsInBounds).next r (.repair now metadata answers) = some t) :
    RepairSound now metadata answers r t := by
  obtain ⟨hbounds, hnext⟩ := System.restrict_next.mp hn
  obtain rfl := Option.some.inj hnext
  exact (repair_step (sound_repairing h) hbounds).2

section Examples

def repairingStart : Repairing Unit := ⟨reordererStart, none, 0, 0, 0⟩

theorem repairingStart_init : (repairing Unit).init repairingStart := ⟨reordererStart_init.1, rfl, rfl, rfl, rfl⟩

def serving (seq : UInt16) (_ : UInt16) : Exchange := ⟨true, true, some 9, some (rtpPacket 9 seq).data, plainEnv⟩

def waitingForFour : List RepairLabel := [.call (arrives 1 3), .call (arrives 2 5)]

def repairsInBoundsCheck (r : Repairing σ) : RepairLabel → Bool
  | .call l => unrepeatedCheck r.decoder l
  | .repair _ _ _ => false

theorem repairsInBounds_of_check (r : Repairing σ) (l : RepairLabel) (h : repairsInBoundsCheck r l = true) :
    RepairsInBounds r l := by
  cases l with
  | call l => exact unrepeated_of_check r.decoder l h
  | repair _ _ _ => exact absurd h Bool.false_ne_true

theorem repair_keeps_queue_missing : ∃ r t : Repairing Unit,
    ((repairing Unit).restrict RepairsInBounds).next r (.repair 1 (some "url") (serving 4)) = some t ∧
      asked 1 r = [4] ∧ RepairSound 1 (some "url") (serving 4) r t := by
  have hview : (((repairing Unit).guard repairsInBoundsCheck).run waitingForFour repairingStart).map (fun r =>
      (asked 1 r, files (some "url") r (serving 4 4), (r.ctx.queue.length, r.ctx.queueSize))) =
        some ([4], some (rtpPacket 9 4), (1, 10)) := by
    decide +kernel
  obtain ⟨r, hrun, hr⟩ := Option.map_eq_some_iff.mp hview
  obtain ⟨hasked, hrest⟩ := Prod.mk.inj hr
  obtain ⟨hfiles, hlength⟩ := Prod.mk.inj hrest
  obtain ⟨hlen, hsize⟩ := Prod.mk.inj hlength
  have hreach := @System.Reachable.of_guard _ _ (repairing Unit) _ _ repairsInBounds_of_check _ _ _
    repairingStart_init hrun
  have hanswered : Answered 1 (some "url") (serving 4) r := by
    constructor
    · intro seq hseq buf hbuf
      rw [hasked, List.mem_singleton] at hseq
      subst hseq
      rw [hfiles] at hbuf
      cases hbuf
      decide
    · intro _
      rw [hasked, hlen, hsize, List.countP_singleton, hfiles]
      decide
  have hn : ((repairing Unit).restrict RepairsInBounds).next r (.repair 1 (some "url") (serving 4)) =
      some (rtpTryHttpRepair 1 (some "url") (serving 4) r).2 :=
    System.restrict_next.mpr ⟨hanswered, rfl⟩
  exact ⟨r, _, hn, hasked, repair_keeps_queue hreach hn⟩

/-- The server answers another packet than the one asked for, and it is queued twice. -/
theorem other_answer_queued_twice :
    ¬∀ (r t : Repairing Unit) (now : Int) (metadata : Option String) (answers : UInt16 → Exchange),
      (repairing Unit).Reachable r → (repairing Unit).next r (.repair now metadata answers) = some t →
        RepairSound now metadata answers r t := by
  intro hall
  have hview : ((repairing Unit).run waitingForFour repairingStart).map (fun r =>
      (rtpTryHttpRepair 1 (some "url") (serving 5) r).2.ctx.queue.map RTPPacket.seq) = some [5, 5] := by
    decide +kernel
  obtain ⟨r, hrun, hqueue⟩ := Option.map_eq_some_iff.mp hview
  have hsorted := (hall r _ 1 (some "url") (serving 5) (.of_run repairingStart_init hrun) rfl).sorted
  have hnumbers := List.pairwise_map.mpr hsorted
  rw [hqueue] at hnumbers
  revert hnumbers
  decide

end Examples

end P2PFFmpeg.Rtp
