import P2PFFmpeg.Output.Restream

namespace P2PFFmpeg.Output

open Util Library.Program Library.Transition

section TimeBases

def KeepsTimeBases (c d : MuxCall) : Prop :=
  d.context.streams.map (·.timeBase) = c.context.streams.map (·.timeBase)

instance : IsPreorder MuxCall KeepsTimeBases where
  refl _ := rfl
  trans _ _ _ h g := g.trans h

theorem answer_keeps : Keeps KeepsTimeBases answer := by
  apply keeps_get_bind
  intro call
  apply keeps_bind
  · exact keeps_modify fun _ => rfl
  · intro _
    exact keeps_pure _

theorem attempt_keeps : Keeps KeepsTimeBases attempt := by
  apply keeps_bind answer_keeps
  intro ret
  by_cases h : ret < 0
  · rw [if_pos h]
    exact keeps_throw ret
  · rw [if_neg h]
    exact keeps_pure ()

theorem avPacketUnref_keeps : Keeps KeepsTimeBases avPacketUnref := keeps_modify fun _ => rfl

theorem writePacket_keeps : Keeps KeepsTimeBases writePacket := by
  apply keeps_bind answer_keeps
  intro ret
  apply keeps_bind avPacketUnref_keeps
  intro _
  by_cases h : ret < 0
  · rw [if_pos h]
    exact keeps_throw ret
  · rw [if_neg h]
    exact keeps_pure ()

theorem ffInterleaveAddPacket_keeps : Keeps KeepsTimeBases ffInterleaveAddPacket := by
  apply keeps_bind answer_keeps
  intro allocated
  split
  · exact keeps_bind avPacketUnref_keeps fun _ => keeps_throw _
  · apply keeps_bind answer_keeps
    intro refcounted
    split
    · exact keeps_bind avPacketUnref_keeps fun _ => keeps_throw _
    · exact keeps_modify fun _ => rfl

theorem drain_keeps (flush : Bool) (buffer : List AVPacket) : Keeps KeepsTimeBases (drain flush buffer) := by
  induction buffer with
  | nil => exact keeps_pure ()
  | cons top rest ih =>
      apply keeps_get_bind
      intro call
      split
      · apply keeps_bind
        · exact keeps_modify fun _ => rfl
        · intro _
          exact keeps_bind writePacket_keeps fun _ => ih
      · exact keeps_pure ()

theorem interleavedWritePacket_keeps (flush hasPacket : Bool) :
    Keeps KeepsTimeBases (interleavedWritePacket flush hasPacket) := by
  apply keeps_get_bind
  intro call
  cases call.context.interleavePacket with
  | passthrough => exact keeps_doWhen hasPacket writePacket_keeps
  | perDts =>
      apply keeps_bind (keeps_doWhen hasPacket ffInterleaveAddPacket_keeps)
      intro _
      exact keeps_get_bind fun added => drain_keeps flush _

theorem makeUpTimestamps_timeBase (st : AVStream) (pkt : AVPacket) :
    (makeUpTimestamps st pkt).1.timeBase = st.timeBase := by
  simp only [makeUpTimestamps]
  repeat' split
  all_goals rfl

theorem computeMuxerPktFields_timeBase (of : AVOutputFormat) (st : AVStream) (pkt : AVPacket) :
    (computeMuxerPktFields of st pkt).2.1.timeBase = st.timeBase := by
  rw [← makeUpTimestamps_timeBase st pkt]
  simp only [computeMuxerPktFields]
  repeat' split
  all_goals rfl

theorem setStream_timeBases {s : AVFormatContext} {i : Int} {st st' : AVStream}
    (h : s.stream i = some st) (htb : st'.timeBase = st.timeBase) :
    (s.setStream i st').streams.map (·.timeBase) = s.streams.map (·.timeBase) := by
  simp only [AVFormatContext.stream] at h
  split at h
  · obtain ⟨hlt, hget⟩ := List.getElem?_eq_some_iff.mp h
    simp only [AVFormatContext.setStream, List.map_set]
    apply List.ext_getElem?
    intro n
    rw [List.getElem?_set, List.getElem?_map]
    by_cases hn : i.toNat = n
    · subst hn
      simp [htb, hlt, hget]
    · simp [hn]
  · cases h

theorem writePacketCommon_keeps : Keeps KeepsTimeBases writePacketCommon := by
  intro c
  simp only [writePacketCommon, after_get_bind]
  cases hst : c.context.stream c.pkt.streamIndex with
  | none => rfl
  | some st =>
      apply related_bind
      · simp only [after_modify, KeepsTimeBases]
        exact setStream_timeBases hst (computeMuxerPktFields_timeBase _ _ _)
      · intro _ _
        split
        · rfl
        · split
          · rfl
          · exact interleavedWritePacket_keeps false true _

theorem writeFiltered_keeps (filtered : List AVPacket) : Keeps KeepsTimeBases (writeFiltered filtered) := by
  induction filtered with
  | nil => exact keeps_bind avPacketUnref_keeps fun _ => attempt_keeps
  | cons p ps ih =>
      apply keeps_bind
      · exact keeps_modify fun _ => rfl
      · intro _
        exact keeps_bind writePacketCommon_keeps fun _ => ih

theorem prepareInputPacket_keeps : Keeps KeepsTimeBases prepareInputPacket := by
  apply keeps_bind
  · apply keeps_modify
    intro c
    split <;> rfl
  · intro _
    exact attempt_keeps

theorem writePacketsCommon_keeps : Keeps KeepsTimeBases writePacketsCommon := by
  apply keeps_get_bind
  intro call
  split
  · exact keeps_throw _
  · apply keeps_bind prepareInputPacket_keeps
    intro _
    apply keeps_bind attempt_keeps
    intro _
    cases call.filtered with
    | none => exact writePacketCommon_keeps
    | some filtered => exact keeps_bind attempt_keeps fun _ => writeFiltered_keeps filtered

theorem interleavedWrite_timeBases (oc : AVFormatContext) (pkt : AVPacket)
    (filtered : Option (List AVPacket)) (answers : List Int) :
    (interleavedWrite oc pkt filtered answers).2.1.streams.map (·.timeBase) =
      oc.streams.map (·.timeBase) := by
  have hkept := writePacketsCommon_keeps ⟨oc, pkt, filtered, answers⟩
  simp only [after, KeepsTimeBases] at hkept
  simp only [interleavedWrite, avInterleavedWriteFrame, tryCatch, tryCatchThe, MonadExceptOf.tryCatch,
    EStateM.tryCatch, EStateM.run] at hkept ⊢
  cases hrun : writePacketsCommon ⟨oc, pkt, filtered, answers⟩ with
  | ok u call =>
      rw [hrun] at hkept
      exact hkept
  | error ret call =>
      rw [hrun] at hkept
      exact hkept

end TimeBases

section Send

variable {o : OutputState} {opkt : AVPacket} {a : WriteAnswers}

theorem outputSend_state (o : OutputState) (opkt : AVPacket) (a : WriteAnswers) :
    ∃ oc headerWritten, (outputSend o opkt a).state =
      { o with oc := oc, headerWritten := headerWritten } := by
  have hheader : ∃ oc headerWritten, (outputWriteHeaderIfNeeded o a.header).2 =
      { o with oc := oc, headerWritten := headerWritten } := by
    simp only [outputWriteHeaderIfNeeded]
    split
    · exact ⟨o.oc, o.headerWritten, rfl⟩
    · split
      · exact ⟨o.oc, o.headerWritten, rfl⟩
      · split
        · exact ⟨_, o.headerWritten, rfl⟩
        · exact ⟨_, true, rfl⟩
  obtain ⟨oc, headerWritten, hstate⟩ := hheader
  simp only [outputSend]
  split
  · exact ⟨oc, headerWritten, hstate⟩
  · split
    · exact ⟨oc, headerWritten, hstate⟩
    · rw [hstate]
      exact ⟨_, headerWritten, rfl⟩

theorem outputSend_timeBases (o : OutputState) (opkt : AVPacket) (a : WriteAnswers) :
    (outputSend o opkt a).state.timeBases =
      (outputWriteHeaderIfNeeded o a.header).2.timeBases := by
  simp only [outputSend]
  split
  · rfl
  · split
    · rfl
    · rename_i oc hoc
      simp only [OutputState.timeBases, hoc]
      exact interleavedWrite_timeBases oc opkt a.filtered a.muxer

theorem outputSend_headerWritten (o : OutputState) (opkt : AVPacket) (a : WriteAnswers) :
    (outputSend o opkt a).state.headerWritten =
      (outputWriteHeaderIfNeeded o a.header).2.headerWritten := by
  simp only [outputSend]
  split
  · rfl
  · split <;> rfl

theorem outputSend_enabled (o : OutputState) (opkt : AVPacket) (a : WriteAnswers) :
    (outputSend o opkt a).state.enabled = o.enabled := by
  obtain ⟨oc, headerWritten, hstate⟩ := outputSend_state o opkt a
  rw [hstate]

theorem outputSend_videoOutIndex (o : OutputState) (opkt : AVPacket) (a : WriteAnswers) :
    (outputSend o opkt a).state.videoOutIndex = o.videoOutIndex := by
  obtain ⟨oc, headerWritten, hstate⟩ := outputSend_state o opkt a
  rw [hstate]

end Send

def OutputState.videoTimeBase (o : OutputState) : Option AVRational :=
  timeBaseAt o.timeBases o.videoOutIndex

theorem outputWriteHeaderIfNeeded_videoOutIndex (o : OutputState) (a : HeaderAnswer) :
    (outputWriteHeaderIfNeeded o a).2.videoOutIndex = o.videoOutIndex := by
  simp only [outputWriteHeaderIfNeeded]
  repeat' split
  all_goals rfl

theorem outputSend_videoTimeBase (o : OutputState) (opkt : AVPacket) (a : WriteAnswers) :
    (outputSend o opkt a).state.videoTimeBase =
      (outputWriteHeaderIfNeeded o a.header).2.videoTimeBase := by
  simp only [OutputState.videoTimeBase, outputSend_videoOutIndex,
    outputWriteHeaderIfNeeded_videoOutIndex, outputSend_timeBases]

def KeepsVideo (o : OutputState) (a : HeaderAnswer) : Prop :=
  o.headerWritten = false → ∀ tb ∈ timeBaseAt a.timeBases o.videoOutIndex,
    o.videoTimeBase = some tb

instance (o : OutputState) (a : HeaderAnswer) : Decidable (KeepsVideo o a) :=
  inferInstanceAs (Decidable (_ → _))

theorem avformatWriteHeader_timeBases (s : AVFormatContext) (a : HeaderAnswer) :
    (avformatWriteHeader s a).2.streams.map (·.timeBase) =
      s.streams.zipIdx.map fun (st, i) => a.timeBases.getD i st.timeBase := by
  have hinit : ∀ st : AVStream, (initPts st).timeBase = st.timeBase := by
    intro st
    simp only [initPts]
    split <;> rfl
  simp only [avformatWriteHeader]
  split
  · simp
  · split
    · simp
    · simp [Function.comp_def, hinit]

theorem outputWriteHeaderIfNeeded_videoTimeBase {o : OutputState} {a : HeaderAnswer} (h : KeepsVideo o a) :
    (outputWriteHeaderIfNeeded o a).2.videoTimeBase = o.videoTimeBase := by
  simp only [outputWriteHeaderIfNeeded]
  split
  · rfl
  · rename_i oc hoc
    by_cases hskip : (!o.enabled || o.headerWritten) = true
    · rw [if_pos hskip]
    · rw [if_neg hskip]
      have hwritten : o.headerWritten = false := by
        cases hw : o.headerWritten with
        | false => rfl
        | true => simp [hw] at hskip
      have hsame : timeBaseAt ((avformatWriteHeader oc a).2.streams.map (·.timeBase))
          o.videoOutIndex = o.videoTimeBase := by
        have hkept := h hwritten
        simp only [OutputState.videoTimeBase, OutputState.timeBases, hoc, timeBaseAt] at hkept ⊢
        rw [avformatWriteHeader_timeBases]
        split
        · rename_i hpos
          simp only [hpos, if_true] at hkept
          cases hst : oc.streams[o.videoOutIndex.toNat]? with
          | none => simp [hst]
          | some st =>
              simp only [List.getElem?_map, List.getElem?_zipIdx, hst, Option.map_some, Nat.zero_add,
                List.getD_eq_getElem?_getD] at hkept ⊢
              cases htb : a.timeBases[o.videoOutIndex.toNat]? with
              | none => rfl
              | some tb => simpa [htb, eq_comm] using hkept tb htb
        · rfl
      split <;> exact hsame

end P2PFFmpeg.Output
