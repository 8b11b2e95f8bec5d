import P2PFFmpeg.Tools.SyncQueue

namespace P2PFFmpeg.Tools

open Library Library.Transition Util

@[simp] theorem set_same (sq : SyncQueue) (i : Nat) (st : SyncQueueStream) :
    (sq.set i st).streams i = st := Function.update_self ..

theorem set_other (sq : SyncQueue) {i j : Nat} (st : SyncQueueStream) (h : j ≠ i) :
    (sq.set i st).streams j = sq.streams j := Function.update_of_ne h ..

structure StreamKept (st st' : SyncQueueStream) : Prop where
  fifo : st'.fifo = st.fifo
  tb : st'.tb = st.tb
  limiting : st'.limiting = st.limiting
  finished : st.finished = true → st'.finished = true

structure Kept (sq sq' : SyncQueue) : Prop where
  streams : ∀ i, StreamKept (sq.streams i) (sq'.streams i)
  nbStreams : sq'.nbStreams = sq.nbStreams
  haveLimiting : sq'.haveLimiting = sq.haveLimiting
  still : sq.finished = true → sq'.finished = true
  finished : sq'.finished = true →
    sq.finished = true ∨ ∀ i < sq.nbStreams, (sq'.streams i).finished = true

structure Alike (sq sq' : SyncQueue) : Prop extends Kept sq sq' where
  headTs : ∀ i, (sq'.streams i).headTs = (sq.streams i).headTs
  headStream : sq'.headStream = sq.headStream

theorem StreamKept.refl (st : SyncQueueStream) : StreamKept st st := ⟨rfl, rfl, rfl, id⟩

theorem StreamKept.trans {st st' st'' : SyncQueueStream} (h : StreamKept st st')
    (g : StreamKept st' st'') : StreamKept st st'' where
  fifo := g.fifo.trans h.fifo
  tb := g.tb.trans h.tb
  limiting := g.limiting.trans h.limiting
  finished hf := g.finished (h.finished hf)

section Kept

variable {sq sq' sq'' : SyncQueue}

theorem Kept.refl (sq : SyncQueue) : Kept sq sq := ⟨fun _ => .refl _, rfl, rfl, id, .inl⟩

theorem Kept.trans (h : Kept sq sq') (g : Kept sq' sq'') : Kept sq sq'' where
  streams i := (h.streams i).trans (g.streams i)
  nbStreams := g.nbStreams.trans h.nbStreams
  haveLimiting := g.haveLimiting.trans h.haveLimiting
  still hf := g.still (h.still hf)
  finished := by
    intro hf
    cases g.finished hf with
    | inl hmid =>
        refine (h.finished hmid).imp_right ?_
        intro hall i hi
        exact (g.streams i).finished (hall i hi)
    | inr hall =>
        rw [h.nbStreams] at hall
        exact .inr hall

theorem Alike.refl (sq : SyncQueue) : Alike sq sq := ⟨.refl sq, fun _ => rfl, rfl⟩

theorem Alike.trans (h : Alike sq sq') (g : Alike sq' sq'') : Alike sq sq'' where
  toKept := h.toKept.trans g.toKept
  headTs i := (g.headTs i).trans (h.headTs i)
  headStream := g.headStream.trans h.headStream

theorem set_kept {i : Nat} {st : SyncQueueStream} (h : StreamKept (sq.streams i) st) :
    Kept sq (sq.set i st) where
  streams := by
    intro j
    by_cases hj : j = i
    · subst hj
      rw [set_same]
      exact h
    · rw [set_other sq st hj]
      exact .refl _
  nbStreams := rfl
  haveLimiting := rfl
  still := id
  finished := .inl

theorem set_alike {i : Nat} {st : SyncQueueStream} (h : StreamKept (sq.streams i) st)
    (hhead : st.headTs = (sq.streams i).headTs) : Alike sq (sq.set i st) where
  toKept := set_kept h
  headTs := by
    intro j
    by_cases hj : j = i
    · subst hj
      rw [set_same]
      exact hhead
    · rw [set_other sq st hj]
  headStream := rfl

theorem markFinished_alike (sq : SyncQueue) (i : Nat) : Alike sq (markFinished sq i) :=
  set_alike ⟨rfl, rfl, rfl, fun _ => rfl⟩ rfl

theorem finishAhead_alike (head : Nat) (sq : SyncQueue) (is : List Nat) :
    Alike sq (finishAhead head sq is) := by
  induction is generalizing sq with
  | nil => exact .refl sq
  | cons i is ih =>
      simp only [finishAhead, List.foldl_cons]
      split
      · exact (markFinished_alike sq i).trans (ih _)
      · exact ih sq

theorem finishStream_alike (sq : SyncQueue) (i : Nat) : Alike sq (finishStream sq i) := by
  simp only [finishStream]
  generalize hahead : (if (sq.streams i).limiting = true ∧ (sq.streams i).headTs ≠ avNoptsValue then
    _ else markFinished sq i) = ahead
  have hsame : Alike sq ahead := by
    rw [← hahead]
    split
    · have hmark := markFinished_alike sq i
      refine Alike.trans ?_ (finishAhead_alike _ _ _)
      exact ⟨⟨hmark.streams, rfl, rfl, id, .inl⟩, hmark.headTs, rfl⟩
    · exact markFinished_alike sq i
  exact
    { hsame with
      still := by
        intro hf
        simp [hsame.still hf]
      finished := by
        intro hf
        simp only [Bool.or_eq_true, List.all_eq_true, List.mem_range] at hf
        cases hf with
        | inl hf => exact hsame.finished hf
        | inr hall => exact .inr hall }

theorem finishStream_finished (sq : SyncQueue) (i : Nat) :
    ((finishStream sq i).streams i).finished = true := by
  have hmarked : ((markFinished sq i).streams i).finished = true := by
    rw [markFinished, set_same]
  simp only [finishStream]
  split
  · exact ((finishAhead_alike _ _ _).streams i).finished hmarked
  · exact hmarked

theorem queueHeadUpdate_kept (sq : SyncQueue) : Kept sq (queueHeadUpdate sq) := by
  simp only [queueHeadUpdate]
  split
  · exact .refl sq
  · exact ⟨fun _ => .refl _, rfl, rfl, id, .inl⟩

theorem raiseHead_alike (sq : SyncQueue) (i : Nat) (ts : Int) :
    Alike (sq.set i { sq.streams i with headTs := ts }) (raiseHead sq i ts) := by
  simp only [raiseHead]
  split
  · split
    · exact finishStream_alike _ i
    · exact .refl _
  · exact .refl _

theorem raiseHead_kept (sq : SyncQueue) (i : Nat) (ts : Int) : Kept sq (raiseHead sq i ts) := by
  have hset : Kept sq (sq.set i { sq.streams i with headTs := ts }) := set_kept ⟨rfl, rfl, rfl, id⟩
  exact hset.trans (raiseHead_alike sq i ts).toKept

theorem streamUpdateTs_kept (sq : SyncQueue) (i : Nat) (ts : Int) : Kept sq (streamUpdateTs sq i ts) := by
  simp only [streamUpdateTs]
  split
  · exact .refl sq
  · split
    · exact (raiseHead_kept sq i ts).trans (queueHeadUpdate_kept _)
    · exact raiseHead_kept sq i ts

theorem beat_kept (i : Nat) (tail : Int) (sq : SyncQueue) (j : Nat) : Kept sq (beat i tail sq j) := by
  simp only [beat]
  split
  · exact .refl sq
  · exact streamUpdateTs_kept sq j _

theorem beats_kept (i : Nat) (tail : Int) (is : List Nat) (sq : SyncQueue) :
    Kept sq (is.foldl (beat i tail) sq) := by
  induction is generalizing sq with
  | nil => exact .refl sq
  | cons j is ih => exact (beat_kept i tail sq j).trans (ih _)

theorem overflowHeartbeat_kept (sq : SyncQueue) (streamIdx : Option Nat) :
    Kept sq (overflowHeartbeat sq streamIdx).2 := by
  simp only [overflowHeartbeat]
  split
  · exact .refl sq
  · split
    · exact .refl sq
    · exact beats_kept ..

theorem countSent_alike (sq : SyncQueue) (i : Nat) : Alike sq (countSent sq i) := by
  have hcounted : Alike sq (sq.set i { sq.streams i with
      framesSent := (sq.streams i).framesSent + 1 }) := set_alike ⟨rfl, rfl, rfl, id⟩ rfl
  simp only [countSent]
  split
  · exact hcounted.trans (finishStream_alike _ i)
  · exact hcounted

theorem sqLimitFrames_alike (sq : SyncQueue) (i : Nat) (frames : UInt64) :
    Alike sq (sqLimitFrames sq i frames) := by
  have hlimited : Alike sq (sq.set i { sq.streams i with framesMax := frames }) :=
    set_alike ⟨rfl, rfl, rfl, id⟩ rfl
  simp only [sqLimitFrames]
  split
  · exact hlimited.trans (finishStream_alike _ i)
  · exact hlimited

end Kept

structure StreamStored (limits : Bool) (st : SyncQueueStream) (ps : List SyncPacket) : Prop where
  limiting : st.limiting = limits
  holds : st.fifo.Holds ps
  room : st.fifo.nbElems ≤ st.fifo.autoGrowLimit
  tb : st.tb.Positive
  timeBase : ∀ p ∈ ps, p.timeBase = st.tb

structure Stored (limiting : List Bool) (sq : SyncQueue) (packets : Nat → List SyncPacket) :
    Prop where
  nbStreams : sq.nbStreams = limiting.length
  haveLimiting : sq.haveLimiting = limiting.any id
  streams : ∀ i, StreamStored (limiting.getD i false) (sq.streams i) (packets i)
  finished : sq.finished = true → ∀ i < sq.nbStreams, (sq.streams i).finished = true

structure Opened (limiting : List Bool) (sq : SyncQueue) : Prop where
  nbStreams : sq.nbStreams = limiting.length
  haveLimiting : sq.haveLimiting = limiting.any id
  streams : ∀ i, sq.streams i = .fresh (limiting.getD i false)
  finished : sq.finished = false
  headStream : sq.headStream = none

theorem Opened.add {limiting : List Bool} {sq : SyncQueue} (h : Opened limiting sq) (last : Bool) :
    Opened (limiting ++ [last]) (sqAddStream sq last) where
  nbStreams := by simp [sqAddStream, h.nbStreams]
  haveLimiting := by simp [sqAddStream, h.haveLimiting]
  streams := by
    intro i
    by_cases hi : i = sq.nbStreams
    · subst hi
      simp [sqAddStream, h.nbStreams]
    · have hsame : (sqAddStream sq last).streams i = sq.streams i := set_other sq _ hi
      rw [hsame, h.streams]
      rw [h.nbStreams] at hi
      simp only [List.getD_eq_getElem?_getD]
      obtain hlt | hgt := Nat.lt_or_gt_of_ne hi
      · rw [List.getElem?_append_left hlt]
      · rw [List.getElem?_eq_none hgt.le, List.getElem?_eq_none (by rw [List.length_append]; exact hgt)]
  finished := h.finished
  headStream := h.headStream

theorem opened (bufSizeUs : Int) (limiting : List Bool) : Opened limiting (sqOpen bufSizeUs limiting) := by
  have hstart : Opened [] (sqAlloc bufSizeUs) := ⟨rfl, rfl, fun _ => rfl, rfl, rfl⟩
  suffices h : ∀ done sq, Opened done sq → Opened (done ++ limiting) (limiting.foldl sqAddStream sq) by
    exact h [] _ hstart
  induction limiting with
  | nil => simp
  | cons l limiting ih =>
      intro done sq hsq
      have hnext := ih (done ++ [l]) (sqAddStream sq l) (hsq.add l)
      rw [List.append_assoc, List.singleton_append] at hnext
      exact hnext

theorem Opened.stored {limiting : List Bool} {sq : SyncQueue} (h : Opened limiting sq) :
    Stored limiting sq fun _ => [] where
  nbStreams := h.nbStreams
  haveLimiting := h.haveLimiting
  streams := by
    intro i
    rw [h.streams i]
    exact
      { limiting := rfl
        holds := avFifoAlloc2_holds (by decide) 8 true
        room := Nat.le_of_ble_eq_true rfl
        tb := ⟨Int.one_pos, Int.one_pos⟩
        timeBase := by simp }
  finished := by
    rw [h.finished]
    simp

theorem StreamStored.kept {limits : Bool} {st st' : SyncQueueStream} {ps : List SyncPacket}
    (h : StreamStored limits st ps) (g : StreamKept st st') : StreamStored limits st' ps where
  limiting := g.limiting.trans h.limiting
  holds := by
    rw [g.fifo]
    exact h.holds
  room := by
    rw [g.fifo]
    exact h.room
  tb := by
    rw [g.tb]
    exact h.tb
  timeBase p hp := (h.timeBase p hp).trans g.tb.symm

section Stored

variable {limiting : List Bool} {sq sq' : SyncQueue} {packets : Nat → List SyncPacket}

theorem Stored.kept (h : Stored limiting sq packets) (g : Kept sq sq') :
    Stored limiting sq' packets where
  nbStreams := g.nbStreams.trans h.nbStreams
  haveLimiting := g.haveLimiting.trans h.haveLimiting
  streams i := (h.streams i).kept (g.streams i)
  finished := by
    intro hf i hi
    rw [g.nbStreams] at hi
    cases g.finished hf with
    | inl hwas => exact (g.streams i).finished (h.finished hwas i hi)
    | inr hall => exact hall i hi

theorem Stored.set (h : Stored limiting sq packets) (i : Nat) {st : SyncQueueStream}
    {ps : List SyncPacket} (hst : StreamStored (limiting.getD i false) st ps)
    (hfinished : (sq.streams i).finished = true → st.finished = true) :
    Stored limiting (sq.set i st) (Function.update packets i ps) where
  nbStreams := h.nbStreams
  haveLimiting := h.haveLimiting
  streams := by
    intro j
    by_cases hj : j = i
    · subst hj
      rw [set_same, Function.update_self]
      exact hst
    · rw [set_other _ _ hj, Function.update_of_ne hj]
      exact h.streams j
  finished := by
    intro hf j hj
    by_cases hji : j = i
    · subst hji
      rw [set_same]
      exact hfinished (h.finished hf j hj)
    · rw [set_other _ _ hji]
      exact h.finished hf j hj

theorem Stored.tbUpdate (h : Stored limiting sq packets) {i : Nat} {tb : AVRational}
    (ht : tbUpdate sq i tb = some sq') : Stored limiting sq' packets ∧ (sq'.streams i).tb = tb ∧
      (sq'.streams i).fifo = (sq.streams i).fifo := by
  simp only [Tools.tbUpdate] at ht
  split at ht
  · cases ht
  · next hpositive =>
      rw [Decidable.not_not] at hpositive
      split at ht
      · next hsame =>
          cases ht
          exact ⟨h, congrArg₂ AVRational.mk hsame.1.symm hsame.2.symm, rfl⟩
      · split at ht
        · cases ht
        · next hempty =>
            rw [Decidable.not_not, (h.streams i).holds.canRead, List.length_eq_zero_iff] at hempty
            cases ht
            have hst := h.streams i
            rw [hempty] at hst
            have hnew : StreamStored (limiting.getD i false) { sq.streams i with
                headTs := if (sq.streams i).headTs ≠ avNoptsValue then
                  avRescaleQ (sq.streams i).headTs (sq.streams i).tb tb else (sq.streams i).headTs
                tb := tb } [] := ⟨hst.limiting, hst.holds, hst.room, hpositive, by simp⟩
            have hset := h.set i hnew id
            have hpackets : Function.update packets i [] = packets := by
              rw [← hempty, Function.update_eq_self]
            rw [hpackets] at hset
            exact ⟨hset, by simp, by simp⟩

theorem Stored.send (h : Stored limiting sq packets) {i : Nat} {frame : SyncPacket}
    {allocated fifoAllocated : Bool} {ret : Int}
    (hsend : sqSend sq i (some frame) allocated fifoAllocated = some (ret, sq')) :
    (ret < 0 ∧ Stored limiting sq' packets) ∨
      (ret = 0 ∧ Stored limiting sq' (Function.update packets i (packets i ++ [frame]))) := by
  simp only [sqSend] at hsend
  split at hsend
  · cases hsend
    exact .inl ⟨by decide, h⟩
  · obtain ⟨timed, htimed, hrest⟩ := Option.map_eq_some_iff.mp hsend
    obtain ⟨hstored, htb, -⟩ := h.tbUpdate htimed
    have hst := hstored.streams i
    split at hrest
    · next hmem =>
        cases hrest
        exact .inl ⟨hmem, hstored⟩
    · obtain ⟨hneg, hsame⟩ | ⟨hpos, hholds, hroom, hlimit⟩ :=
        hst.holds.write hst.room [frame] fifoAllocated
      · rw [if_pos hneg, hsame] at hrest
        cases hrest
        exact .inl ⟨hneg, hstored.kept (set_kept (.refl _))⟩
      · rw [if_neg (Int.not_lt.mpr hpos)] at hrest
        cases hrest
        have hlast : ∀ p ∈ packets i ++ [frame], p.timeBase = (timed.streams i).tb := by
          intro p hp
          cases List.mem_append.mp hp with
          | inl hold => exact hst.timeBase p hold
          | inr hnew => rw [List.mem_singleton.mp hnew, htb]
        have hnew : StreamStored (limiting.getD i false) { timed.streams i with
            fifo := (avFifoWrite (timed.streams i).fifo [frame] fifoAllocated).2 }
            (packets i ++ [frame]) :=
          ⟨hst.limiting, hholds, hlimit ▸ hroom, hst.tb, hlast⟩
        refine .inr ⟨rfl, (hstored.set i hnew id).kept ?_⟩
        exact (streamUpdateTs_kept _ i _).trans (countSent_alike _ i).toKept

/-- A receive from a stream: the first packet, or nothing. -/
inductive ReceivedFor (sq : SyncQueue) (packets : Nat → List SyncPacket) (i : Nat) :
    SqReceived → Prop
  | released {peek rest} (hpackets : packets i = peek :: rest) (hreleasable : Releasable sq i peek) :
      ReceivedFor sq packets i ⟨0, some peek,
        sq.set i { sq.streams i with fifo := avFifoDrain2 (sq.streams i).fifo 1 }⟩
  | nothing (hnone : ∀ peek rest, packets i = peek :: rest → ¬ Releasable sq i peek) :
      ReceivedFor sq packets i (nothingFor sq i)

theorem Stored.receiveForStream (h : Stored limiting sq packets) (i : Nat) :
    ReceivedFor sq packets i (receiveForStream sq i) := by
  have hholds := (h.streams i).holds
  simp only [Tools.receiveForStream, hholds.canRead]
  cases hpackets : packets i with
  | nil =>
      rw [if_neg (by simp)]
      refine .nothing ?_
      intro peek rest hsome
      rw [hpackets] at hsome
      cases hsome
  | cons peek rest =>
      rw [hpackets] at hholds
      obtain ⟨hfew, _⟩ | ⟨_, hpeek⟩ := hholds.peek 1
      · simp at hfew
      · simp only [List.take_succ_cons, List.take_zero, List.map_cons, List.map_nil] at hpeek
        rw [if_pos (by simp), hpeek]
        simp only
        split
        · next hreleasable => exact .released hpackets hreleasable
        · next hnot =>
            refine .nothing ?_
            intro peek' rest' hsome
            rw [hpackets] at hsome
            cases hsome
            exact hnot

theorem Stored.released (h : Stored limiting sq packets) {i : Nat} {peek : SyncPacket}
    {rest : List SyncPacket} (hpackets : packets i = peek :: rest) :
    Stored limiting (sq.set i { sq.streams i with fifo := avFifoDrain2 (sq.streams i).fifo 1 })
      (Function.update packets i rest) := by
  have hst := h.streams i
  rw [hpackets] at hst
  refine h.set i ⟨hst.limiting, ?_, hst.room, hst.tb, ?_⟩ id
  · exact hst.holds.drain (by simp)
  · intro p hp
    exact hst.timeBase p (List.mem_cons_of_mem peek hp)

end Stored

end P2PFFmpeg.Tools
