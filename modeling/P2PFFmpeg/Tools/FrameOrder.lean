import P2PFFmpeg.Tools.FrameRuns

namespace P2PFFmpeg.Tools

open Library Library.Transition Util

@[simp] theorem timed_nbSamples (f : AVFrame) : f.timed.nbSamples = f.nbSamples := by
  rw [AVFrame.timed]
  split <;> rfl

@[simp] theorem timed_content (f : AVFrame) (p : Nat) : content f.timed p = content f p := by
  rw [AVFrame.timed]
  split <;> rfl

theorem Sound.timed {fmt : SampleFormat} {f : AVFrame} (h : Sound fmt f) : Sound fmt f.timed := by
  rw [AVFrame.timed]
  split
  · exact ⟨h.format, h.inside⟩
  · exact h

theorem samplesIn_eq_zero {fs : List AVFrame} (hpositive : ∀ f ∈ fs, 0 < f.nbSamples)
    (h : samplesIn fs = 0) : fs = [] := by
  cases fs with
  | nil => rfl
  | cons f fs =>
      have hf := hpositive f List.mem_cons_self
      rw [samplesIn_cons] at h
      omega

def Remainder (n : Nat) (fs : List AVFrame) : Prop :=
  ∃ full last, fs = full ++ [last] ∧ (∀ f ∈ full, f.nbSamples = n) ∧
    0 < last.nbSamples ∧ last.nbSamples ≤ n

structure Counted (n : Nat) (sq : FrameQueue) (i : Nat) (sent received : List AVFrame) : Prop where
  size : (sq.streams i).frameSamples = n
  queued : (sq.streams i).samplesQueued = samplesIn (sq.streams i).fifo
  positive : ∀ f ∈ (sq.streams i).fifo, 0 < f.nbSamples
  total : samplesIn sent = samplesIn received + samplesIn (sq.streams i).fifo
  shape : (∀ f ∈ received, f.nbSamples = n) ∨
    sq.Finished i ∧ (sq.streams i).fifo = [] ∧ Remainder n received

structure Ordered (fmt : SampleFormat) (sq : FrameQueue) (i : Nat) (sent received : List AVFrame) :
    Prop where
  queued : ∀ f ∈ (sq.streams i).fifo, Sound fmt f
  given : ∀ f ∈ received, Sound fmt f
  order : ∀ p < fmt.planes, contents sent p = contents received p ++ contents (sq.streams i).fifo p

section Steps

variable {sq sq' : FrameQueue} {i n : Nat} {fmt : SampleFormat}
  {sent received sent' received' : List AVFrame}

theorem Counted.released {turn : FrameQueue} {g : AVFrame} (h : Counted n sq i sent received)
    (hn : 0 < n) (hstreams : turn.streams = sq.streams) (htiming : sq'.timing = turn.timing)
    (htaken : Taken turn i g (sq'.streams i)) : Counted n sq' i sent (received ++ [g]) := by
  obtain ⟨hnonempty, hready, htakes, hsize⟩ := htaken
  have hfinished : sq'.Finished i ↔ turn.Finished i := by
    rw [FrameQueue.Finished, htiming]
    rfl
  rw [hstreams] at hnonempty hready htakes hsize
  rw [h.size, ← hfinished] at hready
  have htotal := htakes.total
  have hpositive := htakes.positive h.positive
  have hsome : 0 < samplesIn (sq.streams i).fifo := by
    refine Nat.pos_of_ne_zero fun hzero => ?_
    exact hnonempty (samplesIn_eq_zero h.positive hzero)
  have hnext : nextSamples turn i =
      if sq'.Finished i then min n (samplesIn (sq.streams i).fifo) else n := by
    simp only [nextSamples, hstreams, h.size, h.queued, hfinished]
  have hg : g.nbSamples = nextSamples turn i := by
    obtain ⟨_, hsize⟩ | ⟨hzero, _⟩ := hsize
    · exact hsize
    · rw [hnext] at hzero
      split at hzero <;> omega
  have hall : ∀ f ∈ received, f.nbSamples = n := by
    obtain hall | ⟨_, hempty, _⟩ := h.shape
    · exact hall
    · exact absurd hempty hnonempty
  refine ⟨htakes.size.trans h.size, htakes.queued h.queued, hpositive, ?_, ?_⟩
  · have hbefore := h.total
    rw [samplesIn_append, samplesIn_cons, samplesIn_nil]
    omega
  · by_cases hfull : g.nbSamples = n
    · refine .inl fun f hf => ?_
      obtain hf | hf := List.mem_append.mp hf
      · exact hall f hf
      · rw [List.mem_singleton.mp hf, hfull]
    · -- only a finished stream gives less, and then all that it has
      have hend : sq'.Finished i := by
        by_contra hopen
        rw [hnext, if_neg hopen] at hg
        exact hfull hg
      rw [hnext, if_pos hend] at hg
      have hnone : samplesIn (sq'.streams i).fifo = 0 := by omega
      refine .inr ⟨hend, samplesIn_eq_zero hpositive hnone, received, g, rfl, hall, ?_, ?_⟩ <;> omega

theorem Counted.steps (h : Counted n sq i sent received) (hn : 0 < n)
    (hgoes : Goes sq.timing sq'.timing) (hsteps : Steps sq sq' i sent' received')
    (hpositive : ∀ f ∈ sent', 0 < f.nbSamples) : Counted n sq' i (sent ++ sent') (received ++ received') := by
  cases hsteps with
  | still hsame =>
      rw [List.append_nil, List.append_nil]
      refine ⟨hsame ▸ h.size, hsame ▸ h.queued, hsame ▸ h.positive, hsame ▸ h.total, ?_⟩
      refine h.shape.imp_right fun ⟨hend, hempty, hlast⟩ => ?_
      exact ⟨hgoes.finished i hend, hsame ▸ hempty, hlast⟩
  | @sent frame hopen hput _ =>
      rw [List.append_nil]
      have hframe := hpositive frame List.mem_cons_self
      have htotal := h.total
      have hqueued := h.queued
      refine ⟨by rw [hput]; exact h.size, ?_, ?_, ?_, ?_⟩
      · rw [hput]
        simp only [FrameStream.put, FrameStream.counted, samplesIn_append, samplesIn_cons,
          samplesIn_nil, timed_nbSamples]
        omega
      · rw [hput]
        intro f hf
        obtain hf | hf := List.mem_append.mp hf
        · exact h.positive f hf
        · rw [List.mem_singleton.mp hf, timed_nbSamples]
          exact hframe
      · rw [hput]
        simp only [FrameStream.put, FrameStream.counted, samplesIn_append, samplesIn_cons,
          samplesIn_nil, timed_nbSamples]
        omega
      · obtain hall | ⟨hend, _⟩ := h.shape
        · exact .inl hall
        · exact absurd hend hopen
  | released hstreams htiming htaken =>
      rw [List.append_nil]
      exact h.released hn hstreams htiming htaken

theorem Ordered.steps (h : Ordered fmt sq i sent received)
    (hsteps : Steps sq sq' i sent' received') (hsound : ∀ f ∈ sent', Sound fmt f) :
    Ordered fmt sq' i (sent ++ sent') (received ++ received') := by
  cases hsteps with
  | still hsame =>
      rw [List.append_nil, List.append_nil]
      exact ⟨hsame ▸ h.queued, h.given, hsame ▸ h.order⟩
  | @sent frame _ hput _ =>
      rw [List.append_nil]
      refine ⟨?_, h.given, fun p hp => ?_⟩
      · rw [hput]
        intro f hf
        obtain hf | hf := List.mem_append.mp hf
        · exact h.queued f hf
        · rw [List.mem_singleton.mp hf]
          exact (hsound frame List.mem_cons_self).timed
      · rw [hput, contents_append, h.order p hp]
        simp only [FrameStream.put, contents_append, contents_cons, contents_nil, timed_content,
          List.append_nil, List.append_assoc]
  | @released turn g hstreams _ htaken =>
      rw [List.append_nil]
      have htakes := htaken.takes
      rw [hstreams] at htakes
      obtain ⟨hg, hrest⟩ := htakes.sound fmt h.queued
      refine ⟨hrest, fun f hf => ?_, fun p hp => ?_⟩
      · obtain hf | hf := List.mem_append.mp hf
        · exact h.given f hf
        · exact List.mem_singleton.mp hf ▸ hg
      · rw [h.order p hp, ← htakes.order fmt h.queued p hp]
        simp only [contents_append, contents_cons, contents_nil, List.append_nil,
          List.append_assoc]

end Steps

section Returns

variable {fmt : SampleFormat} {st : FrameStream} {sq : FrameQueue} {memory : FrameMemory}
  {f dst : AVFrame} {i n rounds alignMask : Nat} {sent received : List AVFrame}

theorem offsetAudio_returns (hf : Sound fmt f) (hbps : 0 < fmt.bytesPerSample)
    (hn : n < f.nbSamples) : ∃ g, offsetAudio f n = some g := by
  simp only [offsetAudio, hf.format]
  rw [if_neg (by omega)]
  exact ⟨_, rfl⟩

theorem samplesCopy_returns (hdst : dst.format = fmt) (hf : Sound fmt f) (hn : n ≤ f.nbSamples) :
    ∃ dst', samplesCopy dst f n = some dst' ∧ dst'.format = fmt ∧
      dst'.nbSamples = dst.nbSamples + n := by
  have hinside : ∀ p < fmt.planes, f.offset + n * fmt.block ≤ (f.planes p).length := by
    intro p hp
    have hp := hf.inside p hp
    have hle : n * fmt.block ≤ f.nbSamples * fmt.block := Nat.mul_le_mul_right _ hn
    omega
  simp only [samplesCopy, hdst]
  rw [if_pos hinside]
  exact ⟨_, rfl, rfl, rfl⟩

theorem fillFrame_returns (hbps : 0 < fmt.bytesPerSample) (hdst : dst.format = fmt)
    (hs : ∀ f ∈ st.fifo, Sound fmt f) (henough : n ≤ dst.nbSamples + samplesIn st.fifo)
    (hrounds : st.fifo.length < rounds) : ∃ filled, fillFrame n rounds dst st = some filled := by
  induction rounds generalizing dst st with
  | zero => exact absurd hrounds (Nat.not_lt_zero _)
  | succ rounds ih =>
      rw [fillFrame]
      by_cases hmore : dst.nbSamples < n
      · rw [if_pos hmore]
        cases hfifo : st.fifo with
        | nil =>
            rw [hfifo, samplesIn_nil] at henough
            omega
        | cons src rest =>
            rw [hfifo, samplesIn_cons] at henough
            rw [hfifo, List.length_cons] at hrounds
            have hsrc := hs src (hfifo ▸ List.mem_cons_self)
            obtain ⟨dst1, hcopy, hdst1, hcount⟩ :=
              samplesCopy_returns hdst hsrc (Nat.min_le_right (n - dst.nbSamples) src.nbSamples)
            simp only [hcopy, Option.bind_eq_bind, Option.bind_some]
            by_cases hcut : min (n - dst.nbSamples) src.nbSamples < src.nbSamples
            · obtain ⟨src1, hsrc1⟩ := offsetAudio_returns hsrc hbps hcut
              rw [if_pos hcut, hsrc1, Option.bind_some]
              cases rounds with
              | zero => omega
              | succ rounds =>
                  rw [fillFrame, if_neg (by omega)]
                  exact ⟨_, rfl⟩
            · rw [if_neg hcut]
              refine ih hdst1 (fun f hf => hs f ?_) ?_ ?_
              · exact hfifo ▸ List.mem_cons_of_mem src hf
              · dsimp only
                omega
              · exact Nat.lt_of_succ_lt_succ hrounds
      · rw [if_neg hmore]
        exact ⟨_, rfl⟩

theorem frameIsAligned_returns (hf : 0 < f.nbSamples) (halign : alignMask ≠ 0) :
    ∃ b, frameIsAligned alignMask f = some b := by
  rw [frameIsAligned, if_neg (by omega)]
  exact ⟨_, rfl⟩

theorem receiveSamples_returns (hbps : 0 < fmt.bytesPerSample) (hs : ∀ f ∈ st.fifo, Sound fmt f)
    (hpositive : ∀ f ∈ st.fifo, 0 < f.nbSamples) (hqueued : st.samplesQueued = samplesIn st.fifo)
    (halign : alignMask ≠ 0) (hn : 0 < n) (henough : n ≤ st.samplesQueued) :
    ∃ r, receiveSamples alignMask st n memory = some r := by
  rw [receiveSamples, if_neg (by omega)]
  cases hfifo : st.fifo with
  | nil =>
      rw [hfifo, samplesIn_nil] at hqueued
      omega
  | cons src rest =>
      have hsrc := hs src (hfifo ▸ List.mem_cons_self)
      have hmay : ∃ b, mayReference alignMask src n = some b ∧ (b = true → n < src.nbSamples) := by
        rw [mayReference]
        split
        · next hmore =>
            obtain ⟨b, hb⟩ := frameIsAligned_returns (hpositive src (hfifo ▸ List.mem_cons_self)) halign
            exact ⟨b, hb, fun _ => hmore⟩
        · exact ⟨false, rfl, fun h => absurd h Bool.false_ne_true⟩
      obtain ⟨reference, hreference, hcut⟩ := hmay
      simp only [hreference, Option.bind_eq_bind, Option.bind_some]
      cases reference with
      | true =>
          rw [if_pos rfl]
          split
          · exact ⟨_, rfl⟩
          · obtain ⟨left, hleft⟩ := offsetAudio_returns hsrc hbps (hcut rfl)
            rw [hleft]
            exact ⟨_, rfl⟩
      | false =>
          rw [if_neg Bool.false_ne_true]
          split
          · exact ⟨_, rfl⟩
          · have hmany : n ≤ (src.blankLike memory).nbSamples + samplesIn st.fifo :=
              (henough.trans hqueued.le).trans (Nat.le_add_left _ _)
            have hdst : (src.blankLike memory).format = fmt := hsrc.format
            obtain ⟨filled, hfilled⟩ :=
              fillFrame_returns hbps hdst hs hmany (Nat.lt_add_one st.fifo.length)
            rw [← hfifo, hfilled]
            exact ⟨_, rfl⟩

theorem receiveFrameFor_returns (hc : Counted n sq i sent received)
    (ho : Ordered fmt sq i sent received) (hn : 0 < n) (hbps : 0 < fmt.bytesPerSample)
    (halign : sq.alignMask ≠ 0) : ∃ r, receiveFrameFor sq i memory = some r := by
  simp only [receiveFrameFor]
  cases hfifo : (sq.streams i).fifo with
  | nil => exact ⟨_, rfl⟩
  | cons peek rest =>
      dsimp only
      split
      · next hready =>
          have hpeek := hc.positive peek (hfifo ▸ List.mem_cons_self)
          have hqueued := hc.queued
          rw [hfifo, samplesIn_cons] at hqueued
          have hready := hready.1
          rw [hc.size] at hready
          have hnext : 0 < nextSamples sq i ∧ nextSamples sq i ≤ (sq.streams i).samplesQueued := by
            simp only [nextSamples, hc.size]
            split
            · omega
            · next hopen =>
                have hmany := hready.resolve_right hopen
                omega
          have hregroup : ∃ b, mustRegroup sq.alignMask (nextSamples sq i) peek = some b := by
            obtain ⟨b, hb⟩ := frameIsAligned_returns hpeek halign
            rw [mustRegroup, if_neg (by omega)]
            split
            · exact ⟨true, rfl⟩
            · rw [hb]
              exact ⟨_, rfl⟩
          obtain ⟨regroup, hregroup⟩ := hregroup
          simp only [releaseFrame, hregroup, Option.bind_eq_bind, Option.bind_some]
          cases regroup with
          | true =>
              have hreceive : ∃ r, receiveSamples sq.alignMask (sq.streams i) (nextSamples sq i)
                  memory = some r :=
                receiveSamples_returns hbps ho.queued hc.positive hc.queued halign hnext.1 hnext.2
              obtain ⟨r, hr⟩ := hreceive
              rw [if_pos rfl, hr]
              exact ⟨_, rfl⟩
          | false =>
              rw [if_neg Bool.false_ne_true, if_neg (by omega)]
              exact ⟨_, rfl⟩
      · exact ⟨_, rfl⟩

theorem frameReceive_returns (hc : Counted n sq i sent received)
    (ho : Ordered fmt sq i sent received) (hn : 0 < n) (hbps : 0 < fmt.bytesPerSample)
    (halign : sq.alignMask ≠ 0) : ∃ r, frameReceive sq (some i) memory = some r := by
  have hinternal : ∀ {turn : FrameQueue}, Beaten sq turn →
      ∃ r, receiveFrameInternal turn memory (some i) = some r := by
    intro turn hbeaten
    have hstill : Steps sq turn i [] [] := .still (congrFun hbeaten.streams i)
    have hc' := hc.steps hn hbeaten.timing.goes hstill (by simp)
    have ho' := ho.steps hstill (by simp)
    obtain ⟨r, hr⟩ := receiveFrameFor_returns hc' ho' hn hbps (hbeaten.align ▸ halign)
    rw [receiveFrameInternal, hr]
    exact ⟨_, rfl⟩
  obtain ⟨first, hfirst⟩ := hinternal (.refl sq)
  simp only [frameReceive, hfirst, Option.bind_eq_bind, Option.bind_some]
  split
  · next hagain =>
      split
      · refine hinternal ?_
        obtain ⟨r, hr, rfl⟩ := Option.map_eq_some_iff.mp hfirst
        obtain ⟨ret, hneg, rfl⟩ | ⟨g, st', rfl, _⟩ := receiveFrameFor_taken hr
        · rw [if_pos hneg]
          exact frameHeartbeat_beaten sq (some i)
        · rw [if_neg (lt_irrefl 0)] at hagain
          simp only [averrorEagain] at hagain
          omega
      · exact ⟨_, rfl⟩
  · exact ⟨_, rfl⟩

end Returns

/-- A call offers a stream nothing but samples of the format. -/
def FrameCall.OffersAudio (fmt : SampleFormat) (i : Nat) (call : FrameCall) : Prop :=
  ∀ f ∈ call.offers i, 0 < f.nbSamples ∧ Sound fmt f

section Runs

variable {bufSizeUs : Int} {maxAlign i n : Nat} {setup before after : List SetupCall}
  {fmt : SampleFormat} {s : FrameQueue × List FrameEvent}

structure Regrouped (maxAlign n : Nat) (fmt : SampleFormat) (i : Nat)
    (s : FrameQueue × List FrameEvent) : Prop where
  align : s.1.alignMask = maxAlign - 1
  counted : Counted n s.1 i (framesSentTo i s.2) (framesReceivedFrom i s.2)
  ordered : Ordered fmt s.1 i (framesSentTo i s.2) (framesReceivedFrom i s.2)

theorem regrouping_regrouped (hsetup : setup = before ++ .frameSamples i n :: after)
    (hlast : ∀ k, .frameSamples i k ∉ after) (hn : 0 < n)
    (h : (((regrouping bufSizeUs maxAlign setup).observed frameEvents).restrict
      fun _ call => call.OffersAudio fmt i).Reachable s) : Regrouped maxAlign n fmt i s := by
  refine System.Reachable.invariant (Regrouped maxAlign n fmt i) ?_ ?_ h
  · rintro ⟨sq, ev⟩ ⟨hopen, hev⟩
    obtain rfl : ev = [] := hev
    have hopen : frameQueueOpen bufSizeUs maxAlign setup = some sq := hopen
    have hidle := open_idle hopen i
    have hnone : (sq.streams i).fifo = [] := hidle.fifo
    refine ⟨open_alignMask hsetup hopen, ⟨open_frameSamples hsetup hlast hopen, ?_, ?_, ?_, ?_⟩,
      ⟨?_, ?_, ?_⟩⟩
    · rw [hidle.queued, hnone, samplesIn_nil]
    · simp [hnone]
    · rw [hnone]
      rfl
    · exact .inl (by simp [framesReceivedFrom])
    · simp [hnone]
    · simp [framesReceivedFrom]
    · intro p _
      rw [hnone]
      rfl
  · rintro s call t _ ⟨halign, hcounted, hordered⟩ hn'
    obtain ⟨haudio, received, hcalled, hstate, hev⟩ := regrouping_next hn'
    have hsteps := hcalled.steps i
    have hoffered : ∀ f ∈ framesSentTo i [⟨call, received.ret, received.frame⟩],
        0 < f.nbSamples ∧ Sound fmt f := fun f hf => haudio f (sent_of_offered hf)
    rw [hstate.symm] at hsteps
    refine ⟨?_, ?_, ?_⟩
    · rw [hstate, hcalled.align, halign]
    · rw [hev, framesSentTo_append, framesReceivedFrom_append]
      refine hcounted.steps hn ?_ hsteps fun f hf => (hoffered f hf).1
      rw [hstate]
      exact hcalled.goes
    · rw [hev, framesSentTo_append, framesReceivedFrom_append]
      exact hordered.steps hsteps fun f hf => (hoffered f hf).2

/-- However the samples of a stream were split into frames, they come out in the
same order and in frames of the size set, the last of which can be smaller; no
receive for the stream fails an assertion, and one that fails changes no stream. -/
theorem regrouping_exact (hsetup : setup = before ++ .frameSamples i n :: after)
    (hlast : ∀ k, .frameSamples i k ∉ after) (hn : 0 < n)
    (h : (((regrouping bufSizeUs maxAlign setup).observed frameEvents).restrict
      fun _ call => call.OffersAudio fmt i).Reachable s) :
    (∀ p < fmt.planes, contents (framesSentTo i s.2) p =
        contents (framesReceivedFrom i s.2) p ++ contents (s.1.streams i).fifo p) ∧
      samplesIn (framesSentTo i s.2) =
        samplesIn (framesReceivedFrom i s.2) + samplesIn (s.1.streams i).fifo ∧
      (∀ f ∈ framesReceivedFrom i s.2, Sound fmt f ∧ 0 < f.nbSamples ∧ f.nbSamples ≤ n) ∧
      (∀ f ∈ (framesReceivedFrom i s.2).dropLast, f.nbSamples = n) ∧
      (s.1.streams i).samplesQueued = samplesIn (s.1.streams i).fifo ∧
      (∀ streamIdx memory received,
        (FrameCall.receive streamIdx memory).run s.1 = some received → received.ret < 0 →
          received.frame = none ∧ received.state.streams = s.1.streams) ∧
      (i < s.1.timing.nbStreams → 0 < fmt.bytesPerSample → 1 < maxAlign → ∀ memory,
        ∃ received, (FrameCall.receive (some i) memory).run s.1 = some received) := by
  obtain ⟨halign, hcounted, hordered⟩ := regrouping_regrouped hsetup hlast hn h
  have hsizes : (∀ f ∈ framesReceivedFrom i s.2, 0 < f.nbSamples ∧ f.nbSamples ≤ n) ∧
      ∀ f ∈ (framesReceivedFrom i s.2).dropLast, f.nbSamples = n := by
    obtain hall | ⟨_, _, full, last, heq, hfull, hpositive, hle⟩ := hcounted.shape
    · exact ⟨fun f hf => ⟨(hall f hf).symm ▸ hn, (hall f hf).le⟩,
        fun f hf => hall f (List.dropLast_subset _ hf)⟩
    · rw [heq, List.dropLast_concat]
      refine ⟨fun f hf => ?_, hfull⟩
      obtain hf | hf := List.mem_append.mp hf
      · exact ⟨(hfull f hf).symm ▸ hn, (hfull f hf).le⟩
      · rw [List.mem_singleton.mp hf]
        exact ⟨hpositive, hle⟩
  refine ⟨hordered.order, hcounted.total, fun f hf => ⟨hordered.given f hf, hsizes.1 f hf⟩,
    hsizes.2, hcounted.queued, ?_, ?_⟩
  · intro streamIdx memory received hrun hret
    simp only [FrameCall.run] at hrun
    split at hrun
    · next hidx =>
        obtain ⟨turn, hbeaten, ⟨ret, _, rfl⟩ | ⟨j, _, g, st', rfl, _⟩⟩ :=
          frameReceive_taken hidx hrun
        · exact ⟨rfl, hbeaten.streams⟩
        · exact absurd hret (by simp)
    · cases hrun
  · intro hi hbps hmax memory
    have hmask : s.1.alignMask ≠ 0 := by omega
    obtain ⟨received, hreceived⟩ := frameReceive_returns hcounted hordered hn hbps hmask
    refine ⟨received, ?_⟩
    rw [FrameCall.run, if_pos (by simpa using hi), hreceived]

end Runs

instance (fmt : SampleFormat) (f : AVFrame) : Decidable (Sound fmt f) :=
  decidable_of_iff
    (f.format = fmt ∧ ∀ p < fmt.planes, f.offset + f.nbSamples * fmt.block ≤ (f.planes p).length)
    ⟨fun ⟨hformat, hinside⟩ => ⟨hformat, hinside⟩, fun h => ⟨h.format, h.inside⟩⟩

instance (fmt : SampleFormat) (i : Nat) (call : FrameCall) :
    Decidable (call.OffersAudio fmt i) :=
  inferInstanceAs (Decidable (∀ f ∈ call.offers i, 0 < f.nbSamples ∧ Sound fmt f))

def audioFrame (format : SampleFormat) (nbSamples : Nat) (bytes : List UInt8) : AVFrame where
  format := format
  planes := fun _ => bytes
  offset := 0
  address := 64
  linesize := 64
  nbSamples := nbSamples
  pts := 0
  duration := 0
  sampleRate := 1
  timeBase := ⟨1, 1⟩

/-- Memory is never short. -/
def enoughMemory : FrameMemory := ⟨true, true, true, true, 128, 64⟩

def sendFrame (f : AVFrame) : FrameCall := .send 0 (some f) true 0

def bytesMono : SampleFormat := ⟨1, false, 1⟩

/-- Two samples and four become frames of three. -/
theorem regrouping_exact_threes : ∃ s : FrameQueue × List FrameEvent,
    (framesReceivedFrom 0 s.2).map (fun f => content f 0) = [[1, 2, 3], [4, 5, 6]] ∧
      samplesIn (framesSentTo 0 s.2) =
        samplesIn (framesReceivedFrom 0 s.2) + samplesIn (s.1.streams 0).fifo := by
  have hrun : ((frameQueueOpen 0 16 [.addStream false, .frameSamples 0 3]).bind fun sq =>
      ((((regrouping 0 16 [.addStream false, .frameSamples 0 3]).observed frameEvents).guard
        fun _ call => decide (call.OffersAudio bytesMono 0)).run
          [sendFrame (audioFrame bytesMono 2 [1, 2]), sendFrame (audioFrame bytesMono 4 [3, 4, 5, 6]),
            .receive none enoughMemory, .send 0 none true 0, .receive none enoughMemory]
          (sq, [])).map fun s => (framesReceivedFrom 0 s.2).map fun f => content f 0) =
      some [[1, 2, 3], [4, 5, 6]] := by
    decide +kernel
  obtain ⟨sq, hopen, hview⟩ := Option.bind_eq_some_iff.mp hrun
  obtain ⟨s, hs, hview⟩ := Option.map_eq_some_iff.mp hview
  have hinit : ((regrouping 0 16 [.addStream false, .frameSamples 0 3]).observed frameEvents).init
      (sq, []) := ⟨hopen, rfl⟩
  have hreach := @System.Reachable.of_guard _ _ _ (fun _ call => call.OffersAudio bytesMono 0) _
    (fun _ _ => of_decide_eq_true) _ _ _ hinit hs
  have htheorem := @regrouping_exact 0 16 0 3 _ [.addStream false] [] bytesMono s rfl (by simp)
    (by decide) hreach
  exact ⟨s, hview, htheorem.2.1⟩

/-- A frame of another format is copied as if it had the one of the first frame,
and what is not copied of it is lost. -/
theorem other_format_loses_bytes : ∃ s : FrameQueue × List FrameEvent,
    ((regrouping 0 16 [.addStream false, .frameSamples 0 3]).observed frameEvents).Reachable s ∧
      (∀ f ∈ framesSentTo 0 s.2, 0 < f.nbSamples) ∧ contents (framesSentTo 0 s.2) 0 = [1, 2, 3, 4, 5] ∧
      contents (framesReceivedFrom 0 s.2) 0 = [1, 2, 3] ∧ contents (s.1.streams 0).fifo 0 = [] := by
  have hrun : ((frameQueueOpen 0 16 [.addStream false, .frameSamples 0 3]).bind fun sq =>
      (((regrouping 0 16 [.addStream false, .frameSamples 0 3]).observed frameEvents).run
          [sendFrame (audioFrame bytesMono 1 [1]),
            sendFrame (audioFrame ⟨2, false, 1⟩ 2 [2, 3, 4, 5]), .receive none enoughMemory]
          (sq, [])).map fun s : FrameQueue × List FrameEvent =>
        (decide (∀ f ∈ framesSentTo 0 s.2, 0 < f.nbSamples), contents (framesSentTo 0 s.2) 0,
          contents (framesReceivedFrom 0 s.2) 0, contents (s.1.streams 0).fifo 0)) =
      some (true, [1, 2, 3, 4, 5], [1, 2, 3], []) := by
    decide +kernel
  obtain ⟨sq, hopen, hview⟩ := Option.bind_eq_some_iff.mp hrun
  obtain ⟨s, hs, hview⟩ := Option.map_eq_some_iff.mp hview
  simp only [Prod.mk.injEq, decide_eq_true_eq] at hview
  have hinit : ((regrouping 0 16 [.addStream false, .frameSamples 0 3]).observed frameEvents).init
      (sq, []) := ⟨hopen, rfl⟩
  exact ⟨s, System.Reachable.of_run hinit hs, hview⟩

end P2PFFmpeg.Tools
