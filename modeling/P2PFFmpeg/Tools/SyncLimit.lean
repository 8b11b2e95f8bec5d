import P2PFFmpeg.Tools.FrameOrder
import P2PFFmpeg.Tools.SyncOrder

namespace P2PFFmpeg.Tools

open Library Library.Transition Util

/-- A stream counts nothing more, and is at most finished. -/
structure Uncounted (st st' : SyncQueueStream) : Prop where
  sent : st'.framesSent = st.framesSent
  limit : st'.framesMax = st.framesMax
  finished : st.finished = true → st'.finished = true

theorem Uncounted.refl (st : SyncQueueStream) : Uncounted st st := ⟨rfl, rfl, id⟩

theorem Uncounted.trans {st st' st'' : SyncQueueStream} (h : Uncounted st st')
    (g : Uncounted st' st'') : Uncounted st st'' where
  sent := g.sent.trans h.sent
  limit := g.limit.trans h.limit
  finished hf := g.finished (h.finished hf)

section Uncounted

variable {sq sq' : SyncQueue} {i : Nat}

theorem set_uncounted {st : SyncQueueStream} (h : Uncounted (sq.streams i) st) (j : Nat) :
    Uncounted (sq.streams j) ((sq.set i st).streams j) := by
  by_cases hj : j = i
  · subst hj
    rw [set_same]
    exact h
  · rw [set_other sq st hj]
    exact .refl _

theorem markFinished_uncounted (sq : SyncQueue) (i j : Nat) :
    Uncounted (sq.streams j) ((markFinished sq i).streams j) :=
  @set_uncounted sq i { sq.streams i with finished := true } ⟨rfl, rfl, fun _ => rfl⟩ j

theorem finishAhead_uncounted (head : Nat) (sq : SyncQueue) (is : List Nat) (j : Nat) :
    Uncounted (sq.streams j) ((finishAhead head sq is).streams j) := by
  induction is generalizing sq with
  | nil => exact .refl _
  | cons i is ih =>
      simp only [finishAhead, List.foldl_cons]
      split
      · exact (markFinished_uncounted sq i j).trans (ih _)
      · exact ih sq

theorem finishStream_uncounted (sq : SyncQueue) (i j : Nat) :
    Uncounted (sq.streams j) ((finishStream sq i).streams j) := by
  have hmark := markFinished_uncounted sq i j
  simp only [finishStream]
  split
  · refine hmark.trans ?_
    exact finishAhead_uncounted _ { markFinished sq i with headFinishedStream := some _ } _ j
  · exact hmark

theorem raiseHead_uncounted (sq : SyncQueue) (i : Nat) (ts : Int) (j : Nat) :
    Uncounted (sq.streams j) ((raiseHead sq i ts).streams j) := by
  have hset : Uncounted (sq.streams j)
      ((sq.set i { sq.streams i with headTs := ts }).streams j) :=
    @set_uncounted sq i { sq.streams i with headTs := ts } ⟨rfl, rfl, id⟩ j
  simp only [raiseHead]
  split
  · split
    · exact hset.trans (finishStream_uncounted _ i j)
    · exact hset
  · exact hset

theorem queueHeadUpdate_streams (sq : SyncQueue) : (queueHeadUpdate sq).streams = sq.streams := by
  simp only [queueHeadUpdate]
  split <;> rfl

theorem streamUpdateTs_uncounted (sq : SyncQueue) (i : Nat) (ts : Int) (j : Nat) :
    Uncounted (sq.streams j) ((streamUpdateTs sq i ts).streams j) := by
  simp only [streamUpdateTs]
  split
  · exact .refl _
  · split
    · rw [queueHeadUpdate_streams]
      exact raiseHead_uncounted sq i ts j
    · exact raiseHead_uncounted sq i ts j

theorem beats_uncounted (i : Nat) (tail : Int) (is : List Nat) (sq : SyncQueue) (j : Nat) :
    Uncounted (sq.streams j) ((is.foldl (beat i tail) sq).streams j) := by
  induction is generalizing sq with
  | nil => exact .refl _
  | cons k is ih =>
      have hbeat : Uncounted (sq.streams j) ((beat i tail sq k).streams j) := by
        simp only [beat]
        split
        · exact .refl _
        · exact streamUpdateTs_uncounted sq k _ j
      exact hbeat.trans (ih _)

theorem overflowHeartbeat_uncounted (sq : SyncQueue) (streamIdx : Option Nat) (j : Nat) :
    Uncounted (sq.streams j) ((overflowHeartbeat sq streamIdx).2.streams j) := by
  simp only [overflowHeartbeat]
  split
  · exact .refl _
  · split
    · exact .refl _
    · exact beats_uncounted ..

theorem tbUpdate_uncounted {tb : AVRational} (h : tbUpdate sq i tb = some sq') (j : Nat) :
    Uncounted (sq.streams j) (sq'.streams j) := by
  simp only [tbUpdate] at h
  split at h
  · cases h
  · split at h
    · obtain rfl := Option.some.inj h
      exact .refl _
    · split at h
      · cases h
      · obtain rfl := Option.some.inj h
        apply set_uncounted
        exact ⟨rfl, rfl, id⟩

end Uncounted

section Packets

variable {sq sq' : SyncQueue} {i j : Nat} {m : UInt64}

structure Limits (m : UInt64) (st : SyncQueueStream) (taken : Nat) : Prop where
  limit : st.framesMax = m
  sent : st.framesSent.toNat = taken
  within : taken ≤ m.toNat
  finished : taken = m.toNat → st.finished = true

theorem Limits.uncounted {st st' : SyncQueueStream} {taken : Nat} (h : Limits m st taken)
    (g : Uncounted st st') : Limits m st' taken where
  limit := g.limit.trans h.limit
  sent := by
    rw [g.sent]
    exact h.sent
  within := h.within
  finished heq := g.finished (h.finished heq)

def SyncQueueStream.counted (st : SyncQueueStream) : SyncQueueStream :=
  { st with framesSent := st.framesSent + 1 }

theorem countSent_eq (sq : SyncQueue) (i : Nat) : Tools.countSent sq i =
      if (sq.streams i).counted.framesSent ≥ (sq.streams i).framesMax then
        finishStream (sq.set i (sq.streams i).counted) i
      else sq.set i (sq.streams i).counted := by
  simp only [Tools.countSent, set_same]
  rfl

theorem Limits.countSent {taken : Nat} (h : Limits m (sq.streams i) taken) (hless : taken < m.toNat) :
    Limits m ((countSent sq i).streams i) (taken + 1) := by
  have hm := m.toNat_lt
  have hsent : (sq.streams i).counted.framesSent.toNat = taken + 1 := by
    rw [SyncQueueStream.counted, UInt64.toNat_add, h.sent]
    exact Nat.mod_eq_of_lt (by simp only [UInt64.reduceToNat]; omega)
  rw [countSent_eq, h.limit]
  split
  · have hkept := finishStream_uncounted (sq.set i (sq.streams i).counted) i i
    rw [set_same] at hkept
    exact ⟨hkept.limit.trans h.limit, by rw [hkept.sent]; exact hsent, hless,
      fun _ => finishStream_finished _ i⟩
  · next hfew =>
      rw [set_same]
      refine ⟨h.limit, hsent, hless, fun heq => absurd ?_ hfew⟩
      exact UInt64.le_iff_toNat_le.mpr (hsent.symm ▸ heq.ge)

theorem countSent_other (sq : SyncQueue) (h : j ≠ i) :
    Uncounted (sq.streams j) ((countSent sq i).streams j) := by
  have hset := set_other sq (sq.streams i).counted h
  rw [countSent_eq]
  split
  · have hkept := finishStream_uncounted (sq.set i (sq.streams i).counted) i j
    rw [hset] at hkept
    exact hkept
  · rw [hset]
    exact .refl _

theorem sqSend_counts {frame : SyncPacket} {allocated fifoAllocated : Bool} {ret : Int}
    (h : sqSend sq i (some frame) allocated fifoAllocated = some (ret, sq')) :
    (ret < 0 ∧ ∀ j, Uncounted (sq.streams j) (sq'.streams j)) ∨
      ret = 0 ∧ (sq.streams i).finished ≠ true ∧
        ∃ stored, (∀ j, Uncounted (sq.streams j) (stored.streams j)) ∧ sq' = countSent stored i := by
  rw [sqSend] at h
  split at h
  · cases h
    exact .inl ⟨by decide, fun _ => .refl _⟩
  · next hopen =>
      obtain ⟨timed, htimed, hrest⟩ := Option.map_eq_some_iff.mp h
      have htimed := tbUpdate_uncounted htimed
      split at hrest
      · next hmem =>
          cases hrest
          exact .inl ⟨hmem, htimed⟩
      · have hstored : ∀ j, Uncounted (timed.streams j) ((timed.set i { timed.streams i with
            fifo := (avFifoWrite (timed.streams i).fifo [frame] fifoAllocated).2 }).streams j) := by
          intro j
          apply set_uncounted
          exact ⟨rfl, rfl, id⟩
        dsimp only at hrest
        split at hrest
        · next hfull =>
            cases hrest
            exact .inl ⟨hfull, fun j => (htimed j).trans (hstored j)⟩
        · obtain ⟨rfl, rfl⟩ := Prod.mk.inj hrest
          refine .inr ⟨rfl, hopen, _, fun j => ?_, rfl⟩
          exact ((htimed j).trans (hstored j)).trans (streamUpdateTs_uncounted _ i _ j)

theorem sqReceive_uncounted {limiting : List Bool} {packets : Nat → List SyncPacket}
    (h : Stored limiting sq packets) {streamIdx : Option Nat}
    (hidx : ∀ i ∈ streamIdx, i < sq.nbStreams) (j : Nat) :
    Uncounted (sq.streams j) ((sqReceive sq streamIdx).state.streams j) := by
  obtain ⟨turn, hturn, hgot⟩ := h.receive hidx
  have hbefore : Uncounted (sq.streams j) (turn.streams j) := by
    obtain rfl | rfl := hturn
    · exact .refl _
    · exact overflowHeartbeat_uncounted sq streamIdx j
  generalize sqReceive sq streamIdx = received at hgot
  cases hgot with
  | released =>
      refine hbefore.trans ?_
      apply set_uncounted
      exact ⟨rfl, rfl, id⟩
  | nothing => exact hbefore

def SyncQueueStream.limited (st : SyncQueueStream) (frames : UInt64) : SyncQueueStream :=
  { st with framesMax := frames }

theorem sqLimitFrames_eq (sq : SyncQueue) (i : Nat) (frames : UInt64) : sqLimitFrames sq i frames =
      if (sq.streams i).framesSent ≥ frames then
        finishStream (sq.set i ((sq.streams i).limited frames)) i
      else sq.set i ((sq.streams i).limited frames) := by
  simp only [sqLimitFrames, set_same]
  rfl

theorem sqLimitFrames_sent (sq : SyncQueue) (i : Nat) (frames : UInt64) (j : Nat) :
    ((sqLimitFrames sq i frames).streams j).framesSent = (sq.streams j).framesSent ∧
      (j ≠ i → Uncounted (sq.streams j) ((sqLimitFrames sq i frames).streams j)) := by
  have hset : ((sq.set i ((sq.streams i).limited frames)).streams j).framesSent =
        (sq.streams j).framesSent ∧
      (j ≠ i → Uncounted (sq.streams j)
        ((sq.set i ((sq.streams i).limited frames)).streams j)) := by
    by_cases hj : j = i
    · subst hj
      rw [set_same]
      exact ⟨rfl, fun hne => absurd rfl hne⟩
    · rw [set_other sq _ hj]
      exact ⟨rfl, fun _ => .refl _⟩
  rw [sqLimitFrames_eq]
  split
  · have hfinish := finishStream_uncounted (sq.set i ((sq.streams i).limited frames)) i j
    exact ⟨hfinish.sent.trans hset.1, fun hne => (hset.2 hne).trans hfinish⟩
  · exact hset

theorem sqLimitFrames_limits (h : (sq.streams i).framesSent = 0) :
    Limits m ((sqLimitFrames sq i m).streams i) 0 := by
  have hsent : ((sq.streams i).limited m).framesSent.toNat = 0 := by
    rw [SyncQueueStream.limited, h]
    rfl
  rw [sqLimitFrames_eq]
  split
  · have hfinish := finishStream_uncounted (sq.set i ((sq.streams i).limited m)) i i
    rw [set_same] at hfinish
    exact ⟨hfinish.limit, by rw [hfinish.sent]; exact hsent, Nat.zero_le _,
      fun _ => finishStream_finished _ i⟩
  · next hfew =>
      rw [set_same]
      refine ⟨rfl, hsent, Nat.zero_le _, fun heq => absurd ?_ hfew⟩
      exact UInt64.le_iff_toNat_le.mpr (heq ▸ Nat.zero_le _)

end Packets

section PacketRuns

variable {bufSizeUs : Int} {limiting : List Bool} {i : Nat} {m : UInt64} {sq : SyncQueue}
  {packets : Nat → List SyncPacket} {call : SqCall} {received : SqReceived}

theorem SqCall.run_others (hstored : Stored limiting sq packets)
    (hsend : ∀ frame allocated fifoAllocated, call ≠ .send i (some frame) allocated fifoAllocated)
    (hlimit : ∀ frames, call ≠ .limitFrames i frames) (hrun : call.run sq = some received) :
    Uncounted (sq.streams i) (received.state.streams i) ∧
      sentTo i [⟨call, received.ret, received.frame⟩] = [] := by
  cases call with
  | send j frame allocated fifoAllocated =>
      simp only [SqCall.run] at hrun
      split at hrun
      · obtain ⟨⟨ret, sq'⟩, hsent, rfl⟩ := Option.map_eq_some_iff.mp hrun
        cases frame with
        | none =>
            cases hsent
            exact ⟨finishStream_uncounted sq j i, rfl⟩
        | some frame =>
            have hij : j ≠ i := by
              rintro rfl
              exact hsend frame allocated fifoAllocated rfl
            refine ⟨?_, by simp [sentTo, hij]⟩
            obtain ⟨_, hsame⟩ | ⟨_, _, stored, hbefore, rfl⟩ := sqSend_counts hsent
            · exact hsame i
            · exact (hbefore i).trans (countSent_other stored hij.symm)
      · cases hrun
  | limitFrames j frames =>
      simp only [SqCall.run] at hrun
      split at hrun
      · obtain rfl := Option.some.inj hrun
        have hij : i ≠ j := by
          rintro rfl
          exact hlimit frames rfl
        exact ⟨(sqLimitFrames_sent sq j frames i).2 hij, rfl⟩
      · cases hrun
  | receive streamIdx =>
      simp only [SqCall.run] at hrun
      split at hrun
      · next hidx =>
          obtain rfl := Option.some.inj hrun
          exact ⟨sqReceive_uncounted hstored hidx i, rfl⟩
      · cases hrun

theorem SqCall.run_limits {taken : Nat} (hstored : Stored limiting sq packets)
    (h : Limits m (sq.streams i) taken) (hlimit : ∀ frames, call ≠ .limitFrames i frames)
    (hrun : call.run sq = some received) : Limits m (received.state.streams i)
      (taken + (sentTo i [⟨call, received.ret, received.frame⟩]).length) := by
  by_cases hsend : ∃ frame allocated fifoAllocated,
      call = .send i (some frame) allocated fifoAllocated
  · obtain ⟨frame, allocated, fifoAllocated, rfl⟩ := hsend
    simp only [SqCall.run] at hrun
    split at hrun
    · obtain ⟨⟨ret, sq'⟩, hsent, rfl⟩ := Option.map_eq_some_iff.mp hrun
      obtain ⟨hneg, hsame⟩ | ⟨rfl, hopen, stored, hbefore, rfl⟩ := sqSend_counts hsent
      · have hne : ret ≠ 0 := by omega
        simp only [sentTo, List.filterMap_cons, hne, and_false, if_false, List.filterMap_nil,
          List.length_nil, Nat.add_zero]
        exact h.uncounted (hsame i)
      · have hless : taken < m.toNat :=
          lt_of_le_of_ne h.within fun hlast => hopen (h.finished hlast)
        simp only [sentTo, List.filterMap_cons, and_self, if_true, List.filterMap_nil,
          List.length_singleton]
        exact (h.uncounted (hbefore i)).countSent hless
    · cases hrun
  · have hother : ∀ frame allocated fifoAllocated,
        call ≠ .send i (some frame) allocated fifoAllocated := fun frame allocated fifoAllocated heq =>
      hsend ⟨frame, allocated, fifoAllocated, heq⟩
    obtain ⟨hsame, hnone⟩ := SqCall.run_others hstored hother hlimit hrun
    rw [hnone]
    exact h.uncounted hsame

theorem syncing_next {s t : SyncQueue × List SqEvent}
    (h : ((syncing bufSizeUs limiting).observed sqEvents).next s call = some t) :
    ∃ received, call.run s.1 = some received ∧ t.1 = received.state ∧
      t.2 = s.2 ++ [⟨call, received.ret, received.frame⟩] := by
  obtain ⟨hnext, hev⟩ := System.observed_next.mp h
  obtain ⟨received, hrun, hstate⟩ := Option.map_eq_some_iff.mp hnext
  refine ⟨received, hrun, hstate.symm, ?_⟩
  rw [hev, sqEvents, hrun]
  rfl

/-- A stream that was limited before it was sent a packet takes no more packets
than its limit. -/
theorem syncing_limits {before after : List SqCall} {s₀ s : SyncQueue × List SqEvent}
    (hinit : ((syncing bufSizeUs limiting).observed sqEvents).init s₀)
    (hrun : ((syncing bufSizeUs limiting).observed sqEvents).Run s₀
      (before ++ .limitFrames i m :: after) s) (hbefore : ∀ frame allocated fifoAllocated,
      .send i (some frame) allocated fifoAllocated ∉ before)
    (hafter : ∀ frames, .limitFrames i frames ∉ after) : Limits m (s.1.streams i) (sentTo i s.2).length := by
  let S := (syncing bufSizeUs limiting).observed sqEvents
  obtain ⟨u, v, hu, hlimit, hs⟩ := hrun.split
  have hunsent : S.Reachable u ∧ (u.1.streams i).framesSent = 0 ∧ sentTo i u.2 = [] := by
    refine hu.keeps (I := fun s => S.Reachable s ∧ (s.1.streams i).framesSent = 0 ∧
      sentTo i s.2 = []) ?_ ⟨.init hinit, ?_, ?_⟩
    · rintro call hcall a b ⟨hreach, hzero, hnone⟩ hnext
      obtain ⟨received, hreceived, hstate, hev⟩ := syncing_next hnext
      obtain ⟨packets, hrecorded⟩ := syncing_recorded hreach
      refine ⟨hreach.step hnext, ?_⟩
      rw [hstate, hev, sentTo_append, hnone, List.nil_append]
      by_cases hmine : ∃ frames, call = .limitFrames i frames
      · obtain ⟨frames, rfl⟩ := hmine
        simp only [SqCall.run] at hreceived
        split at hreceived
        · obtain rfl := Option.some.inj hreceived
          exact ⟨(sqLimitFrames_sent a.1 i frames i).1.trans hzero, rfl⟩
        · cases hreceived
      · obtain ⟨hsame, hsent⟩ := SqCall.run_others hrecorded.stored
          (fun frame allocated fifoAllocated heq =>
            hbefore frame allocated fifoAllocated (heq ▸ hcall))
          (fun frames heq => hmine ⟨frames, heq⟩) hreceived
        exact ⟨hsame.sent.trans hzero, hsent⟩
    · obtain ⟨hopen, _⟩ := hinit
      rw [show s₀.1 = sqOpen bufSizeUs limiting from hopen, (opened bufSizeUs limiting).streams i]
      rfl
    · rw [hinit.2]
      rfl
  obtain ⟨hreach, hzero, hnone⟩ := hunsent
  have hlimited : S.Reachable v ∧ Limits m (v.1.streams i) (sentTo i v.2).length := by
    refine ⟨hreach.step hlimit, ?_⟩
    obtain ⟨received, hreceived, hstate, hev⟩ := syncing_next hlimit
    rw [hstate, hev, sentTo_append, hnone, List.nil_append]
    simp only [SqCall.run] at hreceived
    split at hreceived
    · obtain rfl := Option.some.inj hreceived
      exact sqLimitFrames_limits hzero
    · cases hreceived
  have hall : S.Reachable s ∧ Limits m (s.1.streams i) (sentTo i s.2).length := by
    refine hs.keeps (I := fun s => S.Reachable s ∧ Limits m (s.1.streams i) (sentTo i s.2).length)
      ?_ hlimited
    rintro call hcall a b ⟨hreach, hlimits⟩ hnext
    obtain ⟨received, hreceived, hstate, hev⟩ := syncing_next hnext
    obtain ⟨packets, hrecorded⟩ := syncing_recorded hreach
    refine ⟨hreach.step hnext, ?_⟩
    rw [hstate, hev, sentTo_append, List.length_append]
    exact SqCall.run_limits hrecorded.stored hlimits
      (fun frames heq => hafter frames (heq ▸ hcall)) hreceived
  exact hall.2

end PacketRuns

/-- The samples that a call offers to a stream stay within its limit, or are not
taken. -/
def FrameCall.WithinLimit (m i : Nat) (sq : FrameQueue) (call : FrameCall) : Prop :=
  ∀ f ∈ call.offers i, sq.Finished i ∨ (sq.streams i).frameSamples = 0 ∨
    0 < f.nbSamples ∧ (sq.streams i).samplesSent + f.nbSamples ≤ m * (sq.streams i).frameSamples

instance (m i : Nat) (sq : FrameQueue) (call : FrameCall) :
    Decidable (call.WithinLimit m i sq) :=
  inferInstanceAs (Decidable (∀ f ∈ call.offers i, _ ∨ _ ∨ _))

structure CutWithin (m n : Nat) (sq : FrameQueue) (i : Nat) (sent received : List AVFrame) : Prop
    extends Counted n sq i sent received where
  samples : (sq.streams i).samplesSent = samplesIn sent
  within : samplesIn sent ≤ m * n

structure WholeWithin (m : Nat) (sq : FrameQueue) (i : Nat) (received : List AVFrame) : Prop where
  size : (sq.streams i).frameSamples = 0
  limit : (sq.streams i).framesMax = m
  count : received.length + (sq.streams i).fifo.length = (sq.streams i).framesSent
  within : (sq.streams i).framesSent ≤ m
  finished : (sq.streams i).framesSent = m → sq.Finished i

section Frames

variable {sq sq' : FrameQueue} {i m n : Nat} {sent received sent' received' : List AVFrame}

theorem samplesIn_full {fs : List AVFrame} (h : ∀ f ∈ fs, f.nbSamples = n) :
    samplesIn fs = fs.length * n := by
  induction fs with
  | nil => rw [samplesIn_nil, List.length_nil, Nat.zero_mul]
  | cons f fs ih =>
      rw [samplesIn_cons, h f List.mem_cons_self, ih fun g hg => h g (List.mem_cons_of_mem f hg),
        List.length_cons, Nat.succ_mul, Nat.add_comm]

theorem CutWithin.few (h : CutWithin m n sq i sent received) (hn : 0 < n) : received.length ≤ m := by
  have hsamples : samplesIn received ≤ m * n := by
    have htotal := h.total
    have hwithin := h.within
    omega
  obtain hall | ⟨_, _, full, last, rfl, hfull, hpositive, _⟩ := h.shape
  · rw [samplesIn_full hall] at hsamples
    exact Nat.le_of_mul_le_mul_right hsamples hn
  · rw [samplesIn_append, samplesIn_full hfull, samplesIn_cons, samplesIn_nil] at hsamples
    have hless : full.length * n < m * n := by omega
    rw [List.length_append, List.length_singleton]
    exact Nat.lt_of_mul_lt_mul_right hless

theorem CutWithin.steps (h : CutWithin m n sq i sent received) (hn : 0 < n)
    (hgoes : Goes sq.timing sq'.timing) (hsteps : Steps sq sq' i sent' received')
    (hwithin : ∀ f ∈ sent', sq.Finished i ∨ (sq.streams i).frameSamples = 0 ∨
      0 < f.nbSamples ∧
        (sq.streams i).samplesSent + f.nbSamples ≤ m * (sq.streams i).frameSamples) :
    CutWithin m n sq' i (sent ++ sent') (received ++ received') := by
  have hsize := h.size
  have hsamples := h.samples
  cases hsteps with
  | still hsame =>
      refine ⟨h.toCounted.steps hn hgoes (.still hsame) (by simp), ?_, ?_⟩
      · rw [hsame, List.append_nil, hsamples]
      · rw [List.append_nil]
        exact h.within
  | @sent frame hopen hput hlimit =>
      obtain hend | hzero | ⟨hpositive, hle⟩ := hwithin frame List.mem_cons_self
      · exact absurd hend hopen
      · omega
      · rw [hsize, hsamples] at hle
        have hmany : samplesIn (sent ++ [frame]) = samplesIn sent + frame.nbSamples := by
          rw [samplesIn_append, samplesIn_cons, samplesIn_nil, Nat.add_zero]
        refine ⟨h.toCounted.steps hn hgoes (.sent hopen hput hlimit) ?_, ?_, ?_⟩
        · simpa using hpositive
        · rw [hput, hmany, ← hsamples]
          rfl
        · rw [hmany]
          exact hle
  | released hstreams htiming htaken =>
      refine ⟨h.toCounted.steps hn hgoes (.released hstreams htiming htaken) (by simp), ?_, ?_⟩
      · rw [htaken.takes.sent, hstreams, List.append_nil, hsamples]
      · rw [List.append_nil]
        exact h.within

theorem WholeWithin.steps (h : WholeWithin m sq i received) (hgoes : Goes sq.timing sq'.timing)
    (hsteps : Steps sq sq' i sent' received') : WholeWithin m sq' i (received ++ received') := by
  cases hsteps with
  | still hsame =>
      rw [List.append_nil]
      refine ⟨hsame ▸ h.size, hsame ▸ h.limit, hsame ▸ h.count, hsame ▸ h.within, fun hfull => ?_⟩
      exact hgoes.finished i (h.finished (hsame ▸ hfull))
  | @sent frame hopen hput hlimit =>
      have hless : (sq.streams i).framesSent < m :=
        lt_of_le_of_ne h.within fun hfull => hopen (h.finished hfull)
      have hcount := h.count
      have hsent : (sq'.streams i).framesSent = (sq.streams i).framesSent + 1 := by
        rw [hput]
        simp only [FrameStream.put, FrameStream.counted, h.size, ne_eq, not_true, if_false]
      rw [List.append_nil]
      refine ⟨?_, ?_, ?_, hsent.le.trans hless, fun hfull => hlimit ?_⟩
      · rw [hput]
        exact h.size
      · rw [hput]
        exact h.limit
      · rw [hsent, hput]
        simp only [FrameStream.put, List.length_append, List.length_singleton]
        omega
      · rw [h.limit, hfull]
  | @released turn g hstreams htiming htaken =>
      obtain ⟨_, _, htakes, hsize⟩ := htaken
      have hzero : nextSamples turn i = 0 := by
        simp only [nextSamples, hstreams, h.size, Nat.zero_min, ite_self]
      have hcount := h.count
      rw [hstreams] at htakes hsize
      have hfifo := (hsize.resolve_left fun hsome => hsome.1 hzero).2
      rw [hfifo, List.length_cons] at hcount
      refine ⟨htakes.size.trans h.size, htakes.limit.trans h.limit, ?_, ?_, fun hfull => ?_⟩
      · rw [htakes.frames, List.length_append, List.length_singleton]
        omega
      · rw [htakes.frames]
        exact h.within
      · exact hgoes.finished i (h.finished (htakes.frames ▸ hfull))

theorem regrouping_within {bufSizeUs : Int} {maxAlign : Nat} {setup before after : List SetupCall}
    {s : FrameQueue × List FrameEvent} (hsetup : setup = before ++ .limitFrames i m :: after)
    (hlast : ∀ k, .limitFrames i k ∉ after)
    (h : (((regrouping bufSizeUs maxAlign setup).observed frameEvents).restrict
      fun s call => call.WithinLimit m i s.1).Reachable s) :
    (∃ n > 0, CutWithin m n s.1 i (framesSentTo i s.2) (framesReceivedFrom i s.2)) ∨
      WholeWithin m s.1 i (framesReceivedFrom i s.2) := by
  refine System.Reachable.invariant (fun s => (∃ n > 0, CutWithin m n s.1 i (framesSentTo i s.2)
    (framesReceivedFrom i s.2)) ∨ WholeWithin m s.1 i (framesReceivedFrom i s.2)) ?_ ?_ h
  · rintro ⟨sq, ev⟩ ⟨hopen, hev⟩
    obtain rfl : ev = [] := hev
    have hopen : frameQueueOpen bufSizeUs maxAlign setup = some sq := hopen
    obtain ⟨hnone, hqueued, hsamples, hframes, hlimit⟩ := open_idle hopen i
    have hmax := open_framesMax hsetup hlast hopen
    obtain hsize | hsize := Nat.eq_zero_or_pos (sq.streams i).frameSamples
    · refine .inr ⟨hsize, hmax, ?_, ?_, fun hfull => hlimit ?_⟩
      · rw [hnone, hframes]
        rfl
      · rw [hframes]
        exact Nat.zero_le m
      · rw [hmax, ← hfull, hframes]
    · refine .inl ⟨_, hsize, ⟨rfl, ?_, ?_, ?_, ?_⟩, hsamples, Nat.zero_le _⟩
      · rw [hqueued, hnone, samplesIn_nil]
      · simp [hnone]
      · rw [hnone]
        rfl
      · exact .inl (by simp [framesReceivedFrom])
  · rintro s call t _ hs hnext
    obtain ⟨hwithin, received, hcalled, hstate, hev⟩ := regrouping_next hnext
    have hsteps := hcalled.steps i
    have hgoes := hcalled.goes
    rw [← hstate] at hsteps hgoes
    rw [hev, framesSentTo_append, framesReceivedFrom_append]
    obtain ⟨n, hn, hcut⟩ | hwhole := hs
    · exact .inl ⟨n, hn, hcut.steps hn hgoes hsteps fun f hf => hwithin f (sent_of_offered hf)⟩
    · exact .inr (hwhole.steps hgoes hsteps)

end Frames

/-- At most as many packets as its limit come from a stream that was limited before
it was sent one, and at most as many frames when the samples that it took do not
exceed those of as many frames. -/
theorem limited_stream_gives_few (bufSizeUs : Int) (i : Nat) :
    (∀ (limiting : List Bool) (m : UInt64) (before after : List SqCall)
        (s₀ s : SyncQueue × List SqEvent),
      ((syncing bufSizeUs limiting).observed sqEvents).init s₀ →
      ((syncing bufSizeUs limiting).observed sqEvents).Run s₀
        (before ++ .limitFrames i m :: after) s →
      (∀ frame allocated fifoAllocated,
        .send i (some frame) allocated fifoAllocated ∉ before) →
      (∀ frames, .limitFrames i frames ∉ after) → (receivedFrom i s.2).length ≤ m.toNat) ∧
    ∀ (maxAlign m : Nat) (before after : List SetupCall) (s : FrameQueue × List FrameEvent),
      (∀ frames, .limitFrames i frames ∉ after) →
      (((regrouping bufSizeUs maxAlign (before ++ .limitFrames i m :: after)).observed
        frameEvents).restrict fun s call => call.WithinLimit m i s.1).Reachable s →
      (framesReceivedFrom i s.2).length ≤ m := by
  constructor
  · intro limiting m before after s₀ s hinit hrun hbefore hafter
    have hlimits := syncing_limits hinit hrun hbefore hafter
    obtain ⟨packets, hrecorded⟩ := syncing_recorded ⟨s₀, _, hinit, hrun⟩
    have hwithin := hlimits.within
    rw [hrecorded.order i, List.length_append] at hwithin
    omega
  · intro maxAlign m before after s hlast h
    obtain ⟨n, hn, hcut⟩ | hwhole := regrouping_within rfl hlast h
    · exact hcut.few hn
    · have hcount := hwhole.count
      have hwithin := hwhole.within
      omega

/-- A limit of one packet, and one of two frames of ten samples. -/
theorem limited_stream_gives_few_each :
    (∃ s, ((syncing 0 [false]).observed sqEvents).Reachable s ∧
      receivedFrom 0 s.2 = [packetAt 1 ⟨1, 1⟩] ∧ (receivedFrom 0 s.2).length ≤ 1) ∧
    ∃ s : FrameQueue × List FrameEvent,
      (framesReceivedFrom 0 s.2).map AVFrame.nbSamples = [10, 5] ∧
        (framesReceivedFrom 0 s.2).length ≤ 2 := by
  constructor
  · have hrun : (((syncing 0 [false]).observed sqEvents).run
        ([] ++ .limitFrames 0 1 :: [sendAt 0 1 ⟨1, 1⟩, sendAt 0 2 ⟨1, 1⟩, .receive none,
          .receive none]) (sqOpen 0 [false], [])).map (fun s => receivedFrom 0 s.2) =
        some [packetAt 1 ⟨1, 1⟩] := by
      decide +kernel
    obtain ⟨s, hs, hview⟩ := Option.map_eq_some_iff.mp hrun
    have hinit : ((syncing 0 [false]).observed sqEvents).init (sqOpen 0 [false], []) := ⟨rfl, rfl⟩
    have htheorem := (limited_stream_gives_few 0 0).1 [false] 1 [] _ _ s hinit
      (System.Run.of_run hs) (by simp) (by simp [sendAt])
    exact ⟨s, System.Reachable.of_run hinit hs, hview, htheorem⟩
  · have hrun : ((frameQueueOpen 0 16
        ([.addStream false] ++ .limitFrames 0 2 :: [.frameSamples 0 10])).bind fun sq =>
        ((((regrouping 0 16 ([.addStream false] ++ .limitFrames 0 2 ::
          [.frameSamples 0 10])).observed frameEvents).guard
            fun s call => decide (call.WithinLimit 2 0 s.1)).run
          [sendFrame (audioFrame bytesMono 15 (List.replicate 15 7)), .receive none enoughMemory,
            .send 0 none true 0, .receive none enoughMemory] (sq, [])).map
          fun s => (framesReceivedFrom 0 s.2).map AVFrame.nbSamples) = some [10, 5] := by
      decide +kernel
    obtain ⟨sq, hopen, hview⟩ := Option.bind_eq_some_iff.mp hrun
    obtain ⟨s, hs, hview⟩ := Option.map_eq_some_iff.mp hview
    have hinit : ((regrouping 0 16 ([.addStream false] ++ .limitFrames 0 2 ::
      [.frameSamples 0 10])).observed frameEvents).init (sq, []) := ⟨hopen, rfl⟩
    have hreach := @System.Reachable.of_guard _ _ _ (fun s call => call.WithinLimit 2 0 s.1) _
      (fun _ _ => of_decide_eq_true) _ _ _ hinit hs
    exact ⟨s, hview, (limited_stream_gives_few 0 0).2 16 2 [.addStream false] _ s (by simp) hreach⟩

/-- The samples over the limit are given as well: three frames of a stream that was
limited to one. -/
theorem limit_of_one_gives_three : ∃ s : FrameQueue × List FrameEvent,
    ((regrouping 0 16 [.addStream false, .limitFrames 0 1, .frameSamples 0 10]).observed
      frameEvents).Reachable s ∧
    (framesSentTo 0 s.2).map AVFrame.nbSamples = [25] ∧
      (framesReceivedFrom 0 s.2).map AVFrame.nbSamples = [10, 10, 5] := by
  have hrun : ((frameQueueOpen 0 16 [.addStream false, .limitFrames 0 1, .frameSamples 0 10]).bind
      fun sq => (((regrouping 0 16 [.addStream false, .limitFrames 0 1,
        .frameSamples 0 10]).observed frameEvents).run
          [sendFrame (audioFrame bytesMono 25 (List.replicate 25 7)), .receive none enoughMemory,
            .receive none enoughMemory, .receive none enoughMemory] (sq, [])).map
        fun s : FrameQueue × List FrameEvent => ((framesSentTo 0 s.2).map AVFrame.nbSamples,
          (framesReceivedFrom 0 s.2).map AVFrame.nbSamples)) = some ([25], [10, 10, 5]) := by
    decide +kernel
  obtain ⟨sq, hopen, hview⟩ := Option.bind_eq_some_iff.mp hrun
  obtain ⟨s, hs, hview⟩ := Option.map_eq_some_iff.mp hview
  simp only [Prod.mk.injEq] at hview
  have hinit : ((regrouping 0 16 [.addStream false, .limitFrames 0 1,
    .frameSamples 0 10]).observed frameEvents).init (sq, []) := ⟨hopen, rfl⟩
  exact ⟨s, System.Reachable.of_run hinit hs, hview⟩

end P2PFFmpeg.Tools
