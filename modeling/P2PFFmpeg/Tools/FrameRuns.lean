import P2PFFmpeg.Tools.FrameRegrouping

namespace P2PFFmpeg.Tools

open Library Library.Transition Util

structure Goes (sq sq' : SyncQueue) : Prop where
  nbStreams : sq'.nbStreams = sq.nbStreams
  finished : ∀ i, (sq.streams i).finished = true → (sq'.streams i).finished = true

section Goes

variable {sq sq' sq'' : SyncQueue}

theorem Goes.refl (sq : SyncQueue) : Goes sq sq := ⟨rfl, fun _ => id⟩

theorem Goes.trans (h : Goes sq sq') (g : Goes sq' sq'') : Goes sq sq'' where
  nbStreams := g.nbStreams.trans h.nbStreams
  finished i hi := g.finished i (h.finished i hi)

theorem Kept.goes (h : Kept sq sq') : Goes sq sq' :=
  ⟨h.nbStreams, fun i => (h.streams i).finished⟩

end Goes

def FrameStream.counted (st : FrameStream) (nbSamples : Nat) : FrameStream :=
  { st with
    samplesQueued := st.samplesQueued + nbSamples
    samplesSent := st.samplesSent + nbSamples
    framesSent :=
      if st.frameSamples ≠ 0 then (st.samplesSent + nbSamples) / st.frameSamples
      else st.framesSent + 1 }

def FrameStream.put (st : FrameStream) (frame : AVFrame) : FrameStream :=
  { st.counted frame.nbSamples with fifo := st.fifo ++ [frame.timed] }

section Send

variable {sq sq' : FrameQueue} {i : Nat}

@[simp] theorem frameSet_same (sq : FrameQueue) (i : Nat) (st : FrameStream) :
    (sq.set i st).streams i = st := Function.update_self ..

theorem frameSet_other (sq : FrameQueue) {i j : Nat} (st : FrameStream) (h : j ≠ i) :
    (sq.set i st).streams j = sq.streams j := Function.update_of_ne h ..

theorem frameTbUpdate_goes {tb : AVRational} (h : frameTbUpdate sq i tb = some sq') :
    sq'.streams = sq.streams ∧ sq'.alignMask = sq.alignMask ∧ Goes sq.timing sq'.timing ∧
      (sq'.Finished i → sq.Finished i) := by
  simp only [frameTbUpdate] at h
  split at h
  · cases h
  · split at h
    · obtain rfl := Option.some.inj h
      exact ⟨rfl, rfl, .refl _, id⟩
    · split at h
      · cases h
      · obtain rfl := Option.some.inj h
        refine ⟨rfl, rfl, ⟨rfl, fun j hj => ?_⟩, fun hi => ?_⟩
        · by_cases hji : j = i
          · subst hji
            rw [set_same]
            exact hj
          · rw [set_other _ _ hji]
            exact hj
        · simpa only [FrameQueue.Finished, set_same] using hi

theorem countFrame_eq (sq : FrameQueue) (i nbSamples : Nat) : countFrame sq i nbSamples =
      if ((sq.streams i).counted nbSamples).framesSent ≥ (sq.streams i).framesMax then
        (sq.set i ((sq.streams i).counted nbSamples)).finish i
      else sq.set i ((sq.streams i).counted nbSamples) := by
  simp only [countFrame, frameSet_same]
  rfl

theorem countFrame_spec (sq : FrameQueue) (i nbSamples : Nat) : (countFrame sq i nbSamples).streams =
        Function.update sq.streams i ((sq.streams i).counted nbSamples) ∧
      (countFrame sq i nbSamples).alignMask = sq.alignMask ∧
      Goes sq.timing (countFrame sq i nbSamples).timing ∧
      ((sq.streams i).framesMax ≤ ((sq.streams i).counted nbSamples).framesSent →
        (countFrame sq i nbSamples).Finished i) := by
  rw [countFrame_eq]
  split
  · exact ⟨rfl, rfl, (finishStream_alike _ i).toKept.goes, fun _ => finishStream_finished _ i⟩
  · next hfew => exact ⟨rfl, rfl, .refl _, fun hmany => absurd hmany hfew⟩

/-- A send is refused and leaves the streams as they are, or the frame is the last
one of its stream, which is finished at its limit. -/
theorem frameSend_some {frame : AVFrame} {allocated : Bool} {written ret : Int}
    (h : frameSend sq i (some frame) allocated written = some (ret, sq')) :
    sq'.alignMask = sq.alignMask ∧ Goes sq.timing sq'.timing ∧
      (ret < 0 ∧ sq'.streams = sq.streams ∨
        ret = 0 ∧ ¬ sq.Finished i ∧
          sq'.streams = Function.update sq.streams i ((sq.streams i).put frame) ∧
          ((sq.streams i).framesMax ≤ ((sq.streams i).put frame).framesSent → sq'.Finished i)) := by
  rw [frameSend] at h
  split at h
  · cases h
    exact ⟨rfl, .refl _, .inl ⟨by decide, rfl⟩⟩
  · next hopen =>
      obtain ⟨timed, htimed, h⟩ := Option.bind_eq_some_iff.mp h
      obtain ⟨hstreams, halign, hgoes, _⟩ := frameTbUpdate_goes htimed
      split at h
      · next hmem =>
          cases h
          exact ⟨halign, hgoes, .inl ⟨hmem, hstreams⟩⟩
      · split at h
        · cases h
        · split at h
          · next hfailed =>
              cases h
              exact ⟨halign, hgoes, .inl ⟨hfailed, hstreams⟩⟩
          · obtain ⟨rfl, rfl⟩ := Prod.mk.inj (Option.some.inj h)
            obtain ⟨hcount, hsame, hends, hlimit⟩ := countFrame_spec
              { timed.set i { timed.streams i with
                  fifo := (timed.streams i).fifo ++ [frame.timed] } with
                timing := streamUpdateTs timed.timing i (frame.timed.endTs 0) } i frame.nbSamples
            have hput : Function.update timed.streams i ((timed.streams i).put frame) =
                Function.update sq.streams i ((sq.streams i).put frame) := by rw [hstreams]
            simp only [frameSet_same] at hcount hlimit
            refine ⟨hsame.trans halign, hgoes.trans ((streamUpdateTs_kept _ i _).goes.trans hends),
              .inr ⟨rfl, hopen, ?_, fun hmany => hlimit ?_⟩⟩
            · refine hcount.trans (Eq.trans ?_ hput)
              simp only [FrameQueue.set, Function.update_idem]
              rfl
            · rw [hstreams]
              exact hmany

end Send

section Step

variable {sq : FrameQueue} {call : FrameCall} {received : FrameReceived} {i : Nat}

def FrameCall.offers (i : Nat) : FrameCall → List AVFrame
  | .send j (some frame) _ _ => if j = i then [frame] else []
  | _ => []

inductive Steps (sq sq' : FrameQueue) (i : Nat) : List AVFrame → List AVFrame → Prop
  | still (h : sq'.streams i = sq.streams i) : Steps sq sq' i [] []
  | sent {frame} (hopen : ¬ sq.Finished i) (h : sq'.streams i = (sq.streams i).put frame)
      (hlimit : (sq.streams i).framesMax ≤ (sq'.streams i).framesSent → sq'.Finished i) :
      Steps sq sq' i [frame] []
  | released {turn g} (hstreams : turn.streams = sq.streams) (htiming : sq'.timing = turn.timing)
      (h : Taken turn i g (sq'.streams i)) : Steps sq sq' i [] [g]

structure Called (sq : FrameQueue) (call : FrameCall) (received : FrameReceived) : Prop where
  align : received.state.alignMask = sq.alignMask
  goes : Goes sq.timing received.state.timing
  steps : ∀ i, Steps sq received.state i
    (framesSentTo i [⟨call, received.ret, received.frame⟩])
    (framesReceivedFrom i [⟨call, received.ret, received.frame⟩])

theorem called_send {frame : AVFrame} {allocated : Bool} {written ret : Int} {sq' : FrameQueue}
    (h : frameSend sq i (some frame) allocated written = some (ret, sq')) :
    Called sq (.send i (some frame) allocated written) ⟨ret, none, sq'⟩ := by
  obtain ⟨halign, hgoes, hsent⟩ := frameSend_some h
  refine ⟨halign, hgoes, fun j => ?_⟩
  obtain ⟨hret, hsame⟩ | ⟨rfl, hopen, hput, hlimit⟩ := hsent
  · have hnone : framesSentTo j [⟨.send i (some frame) allocated written, ret, none⟩] = [] := by
      have hne : ¬ (i = j ∧ ret = 0) := fun hyes => absurd hret (by omega)
      simp only [framesSentTo, List.filterMap_cons, if_neg hne, List.filterMap_nil]
    rw [hnone]
    exact .still (congrFun hsame j)
  · by_cases hij : i = j
    · subst hij
      have hone : framesSentTo i [⟨.send i (some frame) allocated written, 0, none⟩] = [frame] := by
        simp [framesSentTo]
      have hnew : sq'.streams i = (sq.streams i).put frame := by
        rw [hput, Function.update_self]
      rw [hone]
      exact .sent hopen hnew (fun hmany => hlimit (hnew ▸ hmany))
    · have hnone : framesSentTo j [⟨.send i (some frame) allocated written, 0, none⟩] = [] := by
        simp [framesSentTo, hij]
      rw [hnone]
      exact .still (by rw [hput, Function.update_of_ne (Ne.symm hij)])

theorem called_receive {streamIdx : Option Nat} {memory : FrameMemory}
    (hidx : ∀ i ∈ streamIdx, i < sq.timing.nbStreams) (h : frameReceive sq streamIdx memory = some received) :
    Called sq (.receive streamIdx memory) received := by
  obtain ⟨turn, hbeaten, ⟨ret, hret, rfl⟩ | ⟨i, _, g, st', rfl, htaken⟩⟩ := frameReceive_taken hidx h
  · refine ⟨hbeaten.align, hbeaten.timing.goes, fun j => ?_⟩
    have hnone : framesReceivedFrom j [⟨.receive streamIdx memory, ret, none⟩] = [] := by
      simp [framesReceivedFrom]
    rw [hnone]
    exact .still (congrFun hbeaten.streams j)
  · refine ⟨hbeaten.align, hbeaten.timing.goes, fun j => ?_⟩
    by_cases hij : i = j
    · subst hij
      have hone : framesReceivedFrom i [⟨.receive streamIdx memory, i, some g⟩] = [g] := by
        simp [framesReceivedFrom]
      rw [hone]
      refine .released hbeaten.streams rfl ?_
      rw [frameSet_same]
      exact htaken
    · have hnone : framesReceivedFrom j [⟨.receive streamIdx memory, i, some g⟩] = [] := by
        simp [framesReceivedFrom, hij]
      rw [hnone]
      refine .still ?_
      rw [frameSet_other turn st' (Ne.symm hij), hbeaten.streams]

theorem FrameCall.called (h : call.run sq = some received) : Called sq call received := by
  cases call with
  | send i frame allocated written =>
      simp only [FrameCall.run] at h
      split at h
      · obtain ⟨⟨ret, sq'⟩, hsend, rfl⟩ := Option.map_eq_some_iff.mp h
        cases frame with
        | none =>
            cases hsend
            exact ⟨rfl, (finishStream_alike _ i).toKept.goes, fun j => .still rfl⟩
        | some frame => exact called_send hsend
      · cases h
  | receive streamIdx memory =>
      simp only [FrameCall.run] at h
      split at h
      · next hidx => exact called_receive hidx h
      · cases h

theorem sent_of_offered {ret : Int} {out : Option AVFrame} {f : AVFrame}
    (h : f ∈ framesSentTo i [⟨call, ret, out⟩]) : f ∈ call.offers i := by
  cases call with
  | receive streamIdx memory => simp [framesSentTo] at h
  | send j frame allocated written =>
      cases frame with
      | none => simp [framesSentTo] at h
      | some frame =>
          by_cases hj : j = i ∧ ret = 0
          · simpa [framesSentTo, FrameCall.offers, hj] using h
          · simp [framesSentTo, hj] at h

end Step

section Setup

variable {bufSizeUs : Int} {maxAlign i : Nat} {setup before after : List SetupCall}
  {call : SetupCall} {sq sq' : FrameQueue}

theorem setup_keeps {P : FrameQueue → Prop}
    (hstep : ∀ call ∈ setup, ∀ sq sq', P sq → call.run maxAlign sq = some sq' → P sq')
    (h : setup.foldlM (SetupCall.run maxAlign) sq = some sq') (hp : P sq) : P sq' := by
  induction setup generalizing sq with
  | nil =>
      obtain rfl := Option.some.inj h
      exact hp
  | cons call setup ih =>
      rw [List.foldlM_cons] at h
      obtain ⟨next, hnext, h⟩ := Option.bind_eq_some_iff.mp h
      refine ih (fun c hc => hstep c (List.mem_cons_of_mem call hc)) h ?_
      exact hstep call List.mem_cons_self sq next hp hnext

inductive SetUp (sq sq' : FrameQueue) (i : Nat) : SetupCall → Prop
  | added {limiting} (hi : i = sq.timing.nbStreams) (h : sq'.streams i = .fresh) :
      SetUp sq sq' i (.addStream limiting)
  | limited {frames} (h : sq'.streams i = { sq.streams i with framesMax := frames })
      (hlimit : frames ≤ (sq.streams i).framesSent → sq'.Finished i) :
      SetUp sq sq' i (.limitFrames i frames)
  | sized {samples} (h : sq'.streams i = { sq.streams i with frameSamples := samples })
      (hfinished : sq.Finished i → sq'.Finished i) : SetUp sq sq' i (.frameSamples i samples)
  | other {c : SetupCall} (hlimit : ∀ frames, c ≠ .limitFrames i frames)
      (hsize : ∀ samples, c ≠ .frameSamples i samples)
      (h : sq'.streams i = sq.streams i) (hfinished : sq.Finished i → sq'.Finished i) :
      SetUp sq sq' i c

theorem limitFrameStream_eq (sq : FrameQueue) (i frames : Nat) :
    (limitFrameStream sq i frames).streams =
        Function.update sq.streams i { sq.streams i with framesMax := frames } ∧
      Goes sq.timing (limitFrameStream sq i frames).timing ∧
      (frames ≤ (sq.streams i).framesSent → (limitFrameStream sq i frames).Finished i) := by
  simp only [limitFrameStream]
  split
  · exact ⟨rfl, (finishStream_alike _ i).toKept.goes, fun _ => finishStream_finished _ i⟩
  · next hfew => exact ⟨rfl, .refl _, fun hmany => absurd hmany hfew⟩

theorem SetupCall.run_setUp (h : call.run maxAlign sq = some sq') (i : Nat) :
    SetUp sq sq' i call ∧ sq.timing.nbStreams ≤ sq'.timing.nbStreams := by
  cases call with
  | addStream limiting =>
      obtain rfl := Option.some.inj h
      refine ⟨?_, Nat.le_succ _⟩
      by_cases hi : i = sq.timing.nbStreams
      · exact .added hi (hi ▸ frameSet_same ..)
      · refine .other (by rintro _ ⟨⟩) (by rintro _ ⟨⟩) (frameSet_other sq .fresh hi) fun hfinished => ?_
        simp only [FrameQueue.Finished, sqAddStream, set_other _ _ hi]
        exact hfinished
  | limitFrames j frames =>
      simp only [SetupCall.run] at h
      split at h
      · obtain rfl := Option.some.inj h
        obtain ⟨hstreams, hgoes, hlimit⟩ := limitFrameStream_eq sq j frames
        refine ⟨?_, hgoes.nbStreams.ge⟩
        by_cases hi : j = i
        · subst hi
          exact .limited (by rw [hstreams, Function.update_self]) hlimit
        · refine .other (fun _ heq => hi ?_) (by rintro _ ⟨⟩) ?_ (hgoes.finished i)
          · cases heq
            rfl
          · rw [hstreams, Function.update_of_ne (Ne.symm hi)]
      · cases h
  | frameSamples j samples =>
      simp only [SetupCall.run] at h
      split at h
      · obtain rfl := Option.some.inj h
        refine ⟨?_, Nat.le_refl _⟩
        by_cases hi : j = i
        · subst hi
          exact .sized (frameSet_same ..) id
        · refine .other (by rintro _ ⟨⟩) (fun _ heq => hi ?_) (frameSet_other _ _ (Ne.symm hi)) id
          cases heq
          rfl
      · cases h

/-- A stream that no frame was sent to; it takes none when its limit is zero. -/
structure Idle (sq : FrameQueue) (i : Nat) : Prop where
  fifo : (sq.streams i).fifo = []
  queued : (sq.streams i).samplesQueued = 0
  samples : (sq.streams i).samplesSent = 0
  frames : (sq.streams i).framesSent = 0
  limit : (sq.streams i).framesMax = 0 → sq.Finished i

theorem idle_fresh (h : sq.streams i = .fresh) : Idle sq i := by
  have hmax : FrameStream.fresh.framesMax ≠ 0 := by decide
  refine ⟨by rw [h]; rfl, by rw [h]; rfl, by rw [h]; rfl, by rw [h]; rfl, fun hzero => ?_⟩
  rw [h] at hzero
  exact absurd hzero hmax

theorem SetUp.idle (h : SetUp sq sq' i call) (hidle : Idle sq i) : Idle sq' i := by
  cases h with
  | added _ h => exact idle_fresh h
  | limited h hlimit =>
      refine ⟨by rw [h]; exact hidle.fifo, by rw [h]; exact hidle.queued,
        by rw [h]; exact hidle.samples, by rw [h]; exact hidle.frames, fun hzero => hlimit ?_⟩
      rw [h] at hzero
      exact hzero.le.trans (Nat.zero_le _)
  | sized h hfinished =>
      refine ⟨by rw [h]; exact hidle.fifo, by rw [h]; exact hidle.queued,
        by rw [h]; exact hidle.samples, by rw [h]; exact hidle.frames, fun hzero => ?_⟩
      rw [h] at hzero
      exact hfinished (hidle.limit hzero)
  | other _ _ h hfinished =>
      refine ⟨h ▸ hidle.fifo, h ▸ hidle.queued, h ▸ hidle.samples, h ▸ hidle.frames,
        fun hzero => ?_⟩
      exact hfinished (hidle.limit (h ▸ hzero))

theorem open_idle (h : frameQueueOpen bufSizeUs maxAlign setup = some sq) (i : Nat) : Idle sq i :=
  setup_keeps (P := fun sq => Idle sq i)
    (fun _ _ _ _ hidle hrun => (SetupCall.run_setUp hrun i).1.idle hidle) h (idle_fresh rfl)

theorem open_last {P : FrameStream → Prop} (hsplit : setup = before ++ call :: after)
    (hset : ∀ sq sq', call.run maxAlign sq = some sq' → i < sq.timing.nbStreams ∧ P (sq'.streams i))
    (hkeep : ∀ next ∈ after, ∀ sq sq', SetUp sq sq' i next → i < sq.timing.nbStreams →
      P (sq.streams i) → P (sq'.streams i))
    (h : frameQueueOpen bufSizeUs maxAlign setup = some sq) : P (sq.streams i) := by
  rw [frameQueueOpen, hsplit, List.foldlM_append] at h
  obtain ⟨start, _, h⟩ := Option.bind_eq_some_iff.mp h
  rw [List.foldlM_cons] at h
  obtain ⟨next, hnext, h⟩ := Option.bind_eq_some_iff.mp h
  obtain ⟨hi, hp⟩ := hset start next hnext
  have hadded := (SetupCall.run_setUp hnext i).2
  have hall : i < sq.timing.nbStreams ∧ P (sq.streams i) := by
    refine setup_keeps (P := fun sq => i < sq.timing.nbStreams ∧ P (sq.streams i)) ?_ h
      ⟨hi.trans_le hadded, hp⟩
    rintro call hcall sq sq' ⟨hlt, hsq⟩ hrun
    obtain ⟨hsetUp, hmore⟩ := SetupCall.run_setUp hrun i
    exact ⟨hlt.trans_le hmore, hkeep call hcall sq sq' hsetUp hlt hsq⟩
  exact hall.2

theorem open_frameSamples {n : Nat} (hsplit : setup = before ++ .frameSamples i n :: after)
    (hlast : ∀ k, .frameSamples i k ∉ after)
    (h : frameQueueOpen bufSizeUs maxAlign setup = some sq) : (sq.streams i).frameSamples = n := by
  refine open_last (P := fun st => st.frameSamples = n) hsplit ?_ ?_ h
  · intro sq sq' hrun
    simp only [SetupCall.run] at hrun
    split at hrun
    · next hi =>
        obtain rfl := Option.some.inj hrun
        exact ⟨hi, by dsimp only; rw [frameSet_same]⟩
    · cases hrun
  · intro next hmem sq sq' hnext hi hn
    cases hnext with
    | added heq => omega
    | limited h => rw [h]; exact hn
    | sized => exact absurd hmem (hlast _)
    | other _ _ h => rw [h]; exact hn

theorem open_alignMask {n : Nat} (hsplit : setup = before ++ .frameSamples i n :: after)
    (h : frameQueueOpen bufSizeUs maxAlign setup = some sq) : sq.alignMask = maxAlign - 1 := by
  rw [frameQueueOpen, hsplit, List.foldlM_append] at h
  obtain ⟨start, _, h⟩ := Option.bind_eq_some_iff.mp h
  rw [List.foldlM_cons] at h
  obtain ⟨next, hnext, h⟩ := Option.bind_eq_some_iff.mp h
  refine setup_keeps (P := fun sq => sq.alignMask = maxAlign - 1) ?_ h ?_
  · intro call _ sq sq' halign hrun
    cases call with
    | addStream limiting =>
        obtain rfl := Option.some.inj hrun
        exact halign
    | limitFrames j frames =>
        simp only [SetupCall.run, limitFrameStream] at hrun
        split at hrun
        · obtain rfl := Option.some.inj hrun
          split <;> exact halign
        · cases hrun
    | frameSamples j samples =>
        simp only [SetupCall.run] at hrun
        split at hrun
        · obtain rfl := Option.some.inj hrun
          rfl
        · cases hrun
  · simp only [SetupCall.run] at hnext
    split at hnext
    · obtain rfl := Option.some.inj hnext
      rfl
    · cases hnext

theorem open_framesMax {m : Nat} (hsplit : setup = before ++ .limitFrames i m :: after)
    (hlast : ∀ k, .limitFrames i k ∉ after)
    (h : frameQueueOpen bufSizeUs maxAlign setup = some sq) : (sq.streams i).framesMax = m := by
  refine open_last (P := fun st => st.framesMax = m) hsplit ?_ ?_ h
  · intro sq sq' hrun
    simp only [SetupCall.run] at hrun
    split at hrun
    · next hi =>
        obtain rfl := Option.some.inj hrun
        refine ⟨hi, ?_⟩
        rw [(limitFrameStream_eq sq i m).1, Function.update_self]
    · cases hrun
  · intro next hmem sq sq' hnext hi hm
    cases hnext with
    | added heq => omega
    | limited => exact absurd hmem (hlast _)
    | sized h => rw [h]; exact hm
    | other _ _ h => rw [h]; exact hm

end Setup

theorem framesSentTo_append (i : Nat) (ev ev' : List FrameEvent) :
    framesSentTo i (ev ++ ev') = framesSentTo i ev ++ framesSentTo i ev' := List.filterMap_append

theorem framesReceivedFrom_append (i : Nat) (ev ev' : List FrameEvent) :
    framesReceivedFrom i (ev ++ ev') = framesReceivedFrom i ev ++ framesReceivedFrom i ev' :=
  List.filterMap_append

theorem regrouping_next {bufSizeUs : Int} {maxAlign : Nat} {setup : List SetupCall}
    {C : FrameQueue × List FrameEvent → FrameCall → Prop} {s t : FrameQueue × List FrameEvent}
    {call : FrameCall}
    (h : (((regrouping bufSizeUs maxAlign setup).observed frameEvents).restrict C).next s call =
      some t) : C s call ∧ ∃ received, Called s.1 call received ∧ t.1 = received.state ∧
      t.2 = s.2 ++ [⟨call, received.ret, received.frame⟩] := by
  obtain ⟨hcall, hn⟩ := System.restrict_next.mp h
  obtain ⟨hnext, hev⟩ := System.observed_next.mp hn
  obtain ⟨received, hrun, hstate⟩ := Option.map_eq_some_iff.mp hnext
  refine ⟨hcall, received, FrameCall.called hrun, hstate.symm, ?_⟩
  rw [hev, frameEvents, hrun]
  rfl

end P2PFFmpeg.Tools
