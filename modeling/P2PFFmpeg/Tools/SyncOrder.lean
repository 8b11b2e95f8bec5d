import P2PFFmpeg.Tools.SyncPrefix

namespace P2PFFmpeg.Tools

open Library Library.Transition Library.Watermark Util

def Member (sq : SyncQueue) (i : Nat) : Prop := i < sq.nbStreams ∧ (sq.streams i).limiting = true

def mark (sq : SyncQueue) (i : Nat) : Option ℚ :=
  if (sq.streams i).headTs = avNoptsValue then none
  else some (timeOf (sq.streams i).headTs (sq.streams i).tb)

def Headed (sq : SyncQueue) : Prop :=
  ∀ h, sq.headStream = some h → Lowest (Member sq) (mark sq) h

def HeadsFit (sq : SyncQueue) : Prop :=
  ∀ i < sq.nbStreams, ∀ j < sq.nbStreams, (sq.streams i).headTs ≠ avNoptsValue →
    Fits (sq.streams i).headTs (sq.streams i).tb (sq.streams j).tb

def EndsFit (sq : SyncQueue) : Prop :=
  ∀ i < sq.nbStreams, ∀ j < sq.nbStreams, ∀ p ∈ (sq.streams i).fifo.elems,
    frameEnd p ≠ avNoptsValue → Fits (frameEnd p) (sq.streams i).tb (sq.streams j).tb

structure SameHeads (sq sq' : SyncQueue) : Prop where
  nbStreams : sq'.nbStreams = sq.nbStreams
  tb : ∀ i, (sq'.streams i).tb = (sq.streams i).tb
  headTs : ∀ i, (sq'.streams i).headTs = (sq.streams i).headTs
  limiting : ∀ i, (sq'.streams i).limiting = (sq.streams i).limiting

section Heads

variable {sq sq' : SyncQueue}

theorem Alike.sameHeads (h : Alike sq sq') : SameHeads sq sq' where
  nbStreams := h.nbStreams
  tb i := (h.streams i).tb
  headTs := h.headTs
  limiting i := (h.streams i).limiting

theorem SameHeads.member (h : SameHeads sq sq') : Member sq' = Member sq := by
  funext i
  rw [Member, Member, h.nbStreams, h.limiting]

theorem SameHeads.mark (h : SameHeads sq sq') : mark sq' = mark sq := by
  funext i
  rw [Tools.mark, Tools.mark, h.headTs, h.tb]

theorem SameHeads.headsFit (h : SameHeads sq sq') : HeadsFit sq' ↔ HeadsFit sq := by
  simp only [HeadsFit, h.nbStreams, h.tb, h.headTs]

theorem Headed.same (h : Headed sq) (g : SameHeads sq sq') (hhead : sq'.headStream = sq.headStream) :
    Headed sq' := by
  intro i hi
  rw [g.member, g.mark]
  exact h i (hhead ▸ hi)

theorem Headed.alike (h : Headed sq) (g : Alike sq sq') : Headed sq' :=
  h.same g.sameHeads g.headStream

theorem sameHeads_setFifo (sq : SyncQueue) (i : Nat) (fifo : AVFifo SyncPacket) :
    SameHeads sq (sq.set i { sq.streams i with fifo := fifo }) := by
  refine ⟨rfl, ?_, ?_, ?_⟩
  all_goals
    intro j
    by_cases hj : j = i
    · subst hj
      rw [set_same]
    · rw [set_other _ _ hj]

theorem fits_self {ts : Int} {tb : AVRational} (htb : tb.Positive) (h : Fits ts tb tb) : -int64Max ≤ ts := by
  have hpos : 0 < tb.num * tb.den := mul_pos htb.1 htb.2
  have habs : (ts.natAbs : Int) ≤ int64Max := le_of_mul_le_mul_right h hpos
  omega

theorem compareHeads_exact (hfit : HeadsFit sq) (htb : ∀ i, (sq.streams i).tb.Positive) {i j : Nat}
    (hi : i < sq.nbStreams) (hj : j < sq.nbStreams) (hmi : (sq.streams i).headTs ≠ avNoptsValue)
    (hmj : (sq.streams j).headTs ≠ avNoptsValue) :
    compareHeads sq i j < 0 ↔ timeOf (sq.streams i).headTs (sq.streams i).tb <
      timeOf (sq.streams j).headTs (sq.streams j).tb :=
  (avCompareTs_exact (htb i) (htb j) (hfit i hi j hj hmi) (hfit j hj i hi hmj)
    (fits_self (htb i) (hfit i hi i hi hmi)) (fits_self (htb j) (hfit j hj j hj hmj))).1

theorem mark_eq_some {i : Nat} {t : ℚ} (h : mark sq i = some t) :
    (sq.streams i).headTs ≠ avNoptsValue ∧ timeOf (sq.streams i).headTs (sq.streams i).tb = t := by
  rw [Tools.mark] at h
  split at h
  · cases h
  · next hmark => exact ⟨hmark, Option.some.inj h⟩

theorem mark_of_ne {i : Nat} (h : (sq.streams i).headTs ≠ avNoptsValue) :
    mark sq i = some (timeOf (sq.streams i).headTs (sq.streams i).tb) := if_neg h

theorem headBelow_below (hfit : HeadsFit sq) (htb : ∀ i, (sq.streams i).tb.Positive) :
    Below (Member sq) (mark sq) (headBelow sq) (List.range sq.nbStreams) where
  lower := by
    intro i hi h low hmember hlow hbelow
    rw [List.mem_range] at hi
    obtain ⟨hmh, rfl⟩ := mark_eq_some hlow
    obtain ⟨hlimiting, hmi, hlt⟩ := of_decide_eq_true hbelow
    exact ⟨⟨hi, hlimiting⟩, _, mark_of_ne hmi,
      (compareHeads_exact hfit htb hi hmember.1 hmi hmh).mp hlt⟩
  least := by
    intro i hi h low t hmember hlow hmemberi ht hbelow
    obtain ⟨hmh, rfl⟩ := mark_eq_some hlow
    obtain ⟨hmi, rfl⟩ := mark_eq_some ht
    have hnot := of_decide_eq_false hbelow
    by_contra hlt
    exact hnot ⟨hmemberi.2, hmi,
      (compareHeads_exact hfit htb hmemberi.1 hmember.1 hmi hmh).mpr (not_le.mp hlt)⟩

theorem firstLimiting_some {is : List Nat} {first : Option Nat} {head : Nat}
    (h : firstLimiting sq is first = some head) :
    (∀ i ∈ is, (sq.streams i).limiting = true → (sq.streams i).headTs ≠ avNoptsValue) ∧
      (first = some head ∨ (head ∈ is ∧ (sq.streams head).limiting = true)) := by
  induction is generalizing first with
  | nil => exact ⟨by simp, .inl h⟩
  | cons i is ih =>
      simp only [firstLimiting] at h
      split at h
      · next hfree =>
          obtain ⟨hmarked, hfound⟩ := ih h
          refine ⟨?_, hfound.imp_right fun hlater => ⟨List.mem_cons_of_mem i hlater.1, hlater.2⟩⟩
          intro j hj hlimiting
          cases hj with
          | head =>
              rw [hfree] at hlimiting
              cases hlimiting
          | tail _ hj => exact hmarked j hj hlimiting
      · next hlimits =>
          rw [Bool.not_eq_false] at hlimits
          split at h
          · cases h
          · next hmark =>
              obtain ⟨hmarked, hfound⟩ := ih h
              refine ⟨List.forall_mem_cons.mpr ⟨fun _ => hmark, hmarked⟩, ?_⟩
              cases first with
              | some first => exact hfound.imp_right fun hlater =>
                  ⟨List.mem_cons_of_mem i hlater.1, hlater.2⟩
              | none =>
                  refine .inr ?_
                  obtain hthis | hlater := hfound
                  · cases hthis
                    exact ⟨List.mem_cons_self, hlimits⟩
                  · exact ⟨List.mem_cons_of_mem i hlater.1, hlater.2⟩

theorem queueHeadUpdate_same (sq : SyncQueue) : SameHeads sq (queueHeadUpdate sq) := by
  simp only [queueHeadUpdate]
  split <;> exact ⟨rfl, fun _ => rfl, fun _ => rfl, fun _ => rfl⟩

theorem queueHeadUpdate_headed (hfit : HeadsFit sq) (htb : ∀ i, (sq.streams i).tb.Positive)
    (hmarked : ∀ h, sq.headStream = some h → Member sq h ∧ ∀ i, Member sq i → ∃ t, mark sq i = some t) :
    Headed (queueHeadUpdate sq) := by
  have hsame := queueHeadUpdate_same sq
  intro h hh
  rw [hsame.member, hsame.mark]
  simp only [queueHeadUpdate] at hh
  split at hh
  · next hnone =>
      rw [hh] at hnone
      cases hnone
  · next head hhead =>
      cases hh
      have hstart : Member sq head ∧ ∀ i, Member sq i → ∃ t, mark sq i = some t := by
        cases hstream : sq.headStream with
        | some old =>
            rw [hstream] at hhead
            cases hhead
            exact hmarked head hstream
        | none =>
            rw [hstream] at hhead
            obtain ⟨hall, hfound⟩ := firstLimiting_some hhead
            obtain hfound | ⟨hin, hlimiting⟩ := hfound
            · cases hfound
            · refine ⟨⟨List.mem_range.mp hin, hlimiting⟩, ?_⟩
              intro i hi
              exact ⟨_, mark_of_ne (hall i (List.mem_range.mpr hi.1) hi.2)⟩
      refine descend_lowest (headBelow_below hfit htb) ?_ hstart.1
      intro i hi
      exact ⟨List.mem_range.mpr hi.1, hstart.2 i hi⟩

end Heads

section Steps

variable {sq sq' : SyncQueue} {limiting : List Bool} {packets : Nat → List SyncPacket}

theorem raiseHead_headTs (sq : SyncQueue) (i : Nat) (ts : Int) (j : Nat) :
    ((raiseHead sq i ts).streams j).headTs = if j = i then ts else (sq.streams j).headTs := by
  rw [(raiseHead_alike sq i ts).headTs]
  by_cases hj : j = i
  · subst hj
    rw [set_same, if_pos rfl]
  · rw [set_other _ _ hj, if_neg hj]

variable {ts : Int} {i : Nat}

theorem raiseHead_mark (hts : ts ≠ avNoptsValue) (j : Nat) : mark (raiseHead sq i ts) j =
      if j = i then some (timeOf ts (sq.streams i).tb) else mark sq j := by
  rw [Tools.mark, raiseHead_headTs, ((raiseHead_kept sq i ts).streams j).tb]
  by_cases hj : j = i
  · subst hj
    rw [if_pos rfl, if_neg hts, if_pos rfl]
  · rw [if_neg hj, if_neg hj, Tools.mark]

theorem raiseHead_member (sq : SyncQueue) (i : Nat) (ts : Int) : Member (raiseHead sq i ts) = Member sq := by
  funext j
  rw [Member, Member, (raiseHead_kept sq i ts).nbStreams, ((raiseHead_kept sq i ts).streams j).limiting]

theorem raiseHead_rises (hts : ts ≠ avNoptsValue) (htb : (sq.streams i).tb.Positive)
    (hrise : ¬ ((sq.streams i).headTs ≠ avNoptsValue ∧ (sq.streams i).headTs ≥ ts)) (j : Nat) {t : ℚ}
    (ht : mark sq j = some t) : ∃ t', mark (raiseHead sq i ts) j = some t' ∧ t ≤ t' := by
  rw [raiseHead_mark hts]
  by_cases hj : j = i
  · subst hj
    obtain ⟨hmark, rfl⟩ := mark_eq_some ht
    have hlt : (sq.streams j).headTs < ts := by
      by_contra hge
      exact hrise ⟨hmark, not_lt.mp hge⟩
    refine ⟨_, if_pos rfl, ?_⟩
    apply le_of_lt
    rw [timeOf_lt htb htb]
    exact mul_lt_mul_of_pos_right hlt (mul_pos htb.1 htb.2)
  · exact ⟨t, by rw [if_neg hj, ht], le_rfl⟩

theorem streamUpdateTs_headed (h : Headed sq) (hfit : HeadsFit (streamUpdateTs sq i ts))
    (htb : ∀ j, (sq.streams j).tb.Positive) : Headed (streamUpdateTs sq i ts) := by
  revert hfit
  simp only [streamUpdateTs]
  split
  · exact fun _ => h
  · next hrise =>
      obtain ⟨hts, hrise⟩ := not_or.mp hrise
      have hstream : (raiseHead sq i ts).headStream = sq.headStream :=
        (raiseHead_alike sq i ts).headStream
      have htb' : ∀ j, ((raiseHead sq i ts).streams j).tb.Positive := by
        intro j
        rw [((raiseHead_kept sq i ts).streams j).tb]
        exact htb j
      split
      · intro hfit
        refine queueHeadUpdate_headed ((queueHeadUpdate_same _).headsFit.mp hfit) htb' ?_
        intro head hhead
        rw [hstream] at hhead
        have hlowest := h head hhead
        rw [raiseHead_member]
        refine ⟨hlowest.member, ?_⟩
        intro j hj
        obtain ⟨_, _, hleast⟩ := hlowest.least
        obtain ⟨t, ht, _⟩ := hleast j hj
        obtain ⟨t', ht', _⟩ := raiseHead_rises hts (htb i) hrise j ht
        exact ⟨t', ht'⟩
      · next hother =>
          intro _ head hhead
          rw [hstream] at hhead
          have hlowest := h head hhead
          -- the head stream is another one, else the head would be looked for again
          have hne : head ≠ i := by
            rintro rfl
            exact hother ⟨hlowest.member.2, .inr hhead⟩
          rw [raiseHead_member]
          refine hlowest.rise ?_ fun j t _ ht => raiseHead_rises hts (htb i) hrise j ht
          rw [raiseHead_mark hts, if_neg hne]

theorem streamUpdateTs_other (sq : SyncQueue) {i j : Nat} (ts : Int) (h : j ≠ i) :
    ((streamUpdateTs sq i ts).streams j).headTs = (sq.streams j).headTs := by
  have hraised := raiseHead_headTs sq i ts j
  rw [if_neg h] at hraised
  simp only [streamUpdateTs]
  split
  · rfl
  · split
    · exact ((queueHeadUpdate_same _).headTs j).trans hraised
    · exact hraised

theorem beat_other (i : Nat) (tail : Int) (sq : SyncQueue) {j k : Nat} (h : k ≠ j) :
    ((beat i tail sq j).streams k).headTs = (sq.streams k).headTs := by
  simp only [beat]
  split
  · rfl
  · exact streamUpdateTs_other sq _ h

theorem beats_other (i : Nat) (tail : Int) {is : List Nat} (sq : SyncQueue) {k : Nat} (h : k ∉ is) :
    ((is.foldl (beat i tail) sq).streams k).headTs = (sq.streams k).headTs := by
  induction is generalizing sq with
  | nil => rfl
  | cons j is ih =>
      obtain ⟨hne, hrest⟩ := not_or.mp (List.mem_cons.not.mp h)
      exact (ih _ hrest).trans (beat_other i tail sq hne)

theorem beat_headed (h : Headed sq) {i j : Nat} {tail : Int} (hfit : HeadsFit (beat i tail sq j))
    (htb : ∀ k, (sq.streams k).tb.Positive) : Headed (beat i tail sq j) := by
  revert hfit
  simp only [beat]
  split
  · exact fun _ => h
  · exact fun hfit => streamUpdateTs_headed h hfit htb

/-- Every stream has its head of before or its head of after a beat, so that the
heads in between fit as well. -/
theorem beats_headed (h : Headed sq) (i : Nat) (tail : Int) {is : List Nat} (hnodup : is.Nodup)
    (hfit : HeadsFit sq) (hfit' : HeadsFit (is.foldl (beat i tail) sq))
    (htb : ∀ k, (sq.streams k).tb.Positive) : Headed (is.foldl (beat i tail) sq) := by
  induction is generalizing sq with
  | nil => exact h
  | cons j is ih =>
      obtain ⟨hj, hrest⟩ := List.nodup_cons.mp hnodup
      have hkept := beat_kept i tail sq j
      have hkept' := beats_kept i tail is (beat i tail sq j)
      have hbetween : HeadsFit (beat i tail sq j) := by
        intro a ha b hb hmark
        rw [hkept.nbStreams] at ha hb
        by_cases haj : a = j
        · subst haj
          have hhead := beats_other i tail (beat i tail sq a) hj
          have hall : (List.foldl (beat i tail) sq (a :: is)).nbStreams = sq.nbStreams :=
            hkept'.nbStreams.trans hkept.nbStreams
          have hthis := hfit' a (hall ▸ ha) b (hall ▸ hb)
          rw [List.foldl_cons, hhead, (hkept'.streams a).tb, (hkept'.streams b).tb] at hthis
          exact hthis hmark
        · rw [beat_other i tail sq haj] at hmark ⊢
          rw [(hkept.streams a).tb, (hkept.streams b).tb]
          exact hfit a ha b hb hmark
      have htb' : ∀ k, ((beat i tail sq j).streams k).tb.Positive := by
        intro k
        rw [(hkept.streams k).tb]
        exact htb k
      exact ih (beat_headed h hbetween htb) hrest hbetween hfit' htb'

theorem overflowHeartbeat_headed (h : Headed sq) {streamIdx : Option Nat} (hfit : HeadsFit sq)
    (hfit' : HeadsFit (overflowHeartbeat sq streamIdx).2)
    (htb : ∀ k, (sq.streams k).tb.Positive) : Headed (overflowHeartbeat sq streamIdx).2 := by
  revert hfit'
  simp only [overflowHeartbeat]
  split
  · exact fun _ => h
  · split
    · exact fun _ => h
    · exact fun hfit' => beats_headed h _ _ List.nodup_range hfit hfit' htb

end Steps

def Representable (sq : SyncQueue) : Prop := HeadsFit sq ∧ EndsFit sq

def KeepsTime (sq : SyncQueue) (i : Nat) (tb : AVRational) : Prop :=
  (sq.streams i).headTs ≠ avNoptsValue → tb ≠ (sq.streams i).tb →
    avRescaleQ (sq.streams i).headTs (sq.streams i).tb tb ≠ avNoptsValue ∧
      timeOf (avRescaleQ (sq.streams i).headTs (sq.streams i).tb tb) tb =
        timeOf (sq.streams i).headTs (sq.streams i).tb

/-- The times stay exact through a call. -/
def Exact (sq : SyncQueue) (call : SqCall) : Prop :=
  Representable sq ∧ (∀ received ∈ call.run sq, Representable received.state) ∧
    match call with
    | .send i (some frame) _ _ => (sq.streams i).finished = false → KeepsTime sq i frame.timeBase
    | _ => True

instance (sq : SyncQueue) : Decidable (Representable sq) :=
  inferInstanceAs (Decidable ((∀ i < sq.nbStreams, ∀ j < sq.nbStreams, _ → _) ∧
    ∀ i < sq.nbStreams, ∀ j < sq.nbStreams, ∀ p ∈ _, _ → _))

instance (sq : SyncQueue) (i : Nat) (tb : AVRational) : Decidable (KeepsTime sq i tb) :=
  inferInstanceAs (Decidable (_ → _ → _ ∧ _))

instance (sq : SyncQueue) (call : SqCall) : Decidable (Exact sq call) :=
  match call with
  | .send i (some frame) a b => inferInstanceAs (Decidable (Representable sq ∧
      (∀ received ∈ (SqCall.send i (some frame) a b).run sq, Representable received.state) ∧
        ((sq.streams i).finished = false → KeepsTime sq i frame.timeBase)))
  | .send i none a b => inferInstanceAs (Decidable (Representable sq ∧
      (∀ received ∈ (SqCall.send i none a b).run sq, Representable received.state) ∧ True))
  | .limitFrames i frames => inferInstanceAs (Decidable (Representable sq ∧
      (∀ received ∈ (SqCall.limitFrames i frames).run sq, Representable received.state) ∧ True))
  | .receive streamIdx => inferInstanceAs (Decidable (Representable sq ∧
      (∀ received ∈ (SqCall.receive streamIdx).run sq, Representable received.state) ∧ True))

section Runs

variable {sq sq' : SyncQueue} {limiting : List Bool} {packets : Nat → List SyncPacket}

theorem tbUpdate_headed (h : Headed sq) {i : Nat} {tb : AVRational} (hkeeps : KeepsTime sq i tb)
    (ht : tbUpdate sq i tb = some sq') : Headed sq' := by
  simp only [tbUpdate] at ht
  split at ht
  · cases ht
  · split at ht
    · cases ht
      exact h
    · next hchange =>
        split at ht
        · cases ht
        · cases ht
          have hnew : tb ≠ (sq.streams i).tb := by
            rintro rfl
            exact hchange ⟨rfl, rfl⟩
          intro head hhead
          have hlowest := h head hhead
          have hmember : Member (sq.set i { sq.streams i with
              headTs := if (sq.streams i).headTs ≠ avNoptsValue then
                avRescaleQ (sq.streams i).headTs (sq.streams i).tb tb else (sq.streams i).headTs
              tb := tb }) = Member sq := by
            funext j
            by_cases hj : j = i
            · subst hj
              simp only [Member, set_same]
              rfl
            · simp only [Member, set_other _ _ hj]
              rfl
          have hmark : mark (sq.set i { sq.streams i with
              headTs := if (sq.streams i).headTs ≠ avNoptsValue then
                avRescaleQ (sq.streams i).headTs (sq.streams i).tb tb else (sq.streams i).headTs
              tb := tb }) = mark sq := by
            funext j
            by_cases hj : j = i
            · subst hj
              simp only [Tools.mark, set_same]
              by_cases hnone : (sq.streams j).headTs = avNoptsValue
              · simp [hnone]
              · obtain ⟨hsome, htime⟩ := hkeeps hnone hnew
                have hnewHead : (if (sq.streams j).headTs ≠ avNoptsValue then
                    avRescaleQ (sq.streams j).headTs (sq.streams j).tb tb else (sq.streams j).headTs) =
                    avRescaleQ (sq.streams j).headTs (sq.streams j).tb tb := if_pos hnone
                rw [hnewHead, if_neg hsome, if_neg hnone, htime]
            · simp only [Tools.mark, set_other _ _ hj]
          rw [hmember, hmark]
          exact hlowest

theorem sqSend_headed (h : Headed sq) (hstored : Stored limiting sq packets) {i : Nat}
    {frame : SyncPacket} {allocated fifoAllocated : Bool} {ret : Int}
    (hkeeps : (sq.streams i).finished = false → KeepsTime sq i frame.timeBase)
    (hsend : sqSend sq i (some frame) allocated fifoAllocated = some (ret, sq'))
    (hfit : HeadsFit sq') : Headed sq' := by
  simp only [sqSend] at hsend
  split at hsend
  · cases hsend
    exact h
  · next hopen =>
      obtain ⟨timed, htimed, hrest⟩ := Option.map_eq_some_iff.mp hsend
      have htimedHeaded := tbUpdate_headed h (hkeeps (Bool.not_eq_true _ ▸ hopen)) htimed
      obtain ⟨htimedStored, _, _⟩ := hstored.tbUpdate htimed
      split at hrest
      · cases hrest
        exact htimedHeaded
      · have hheaded := htimedHeaded.same (sameHeads_setFifo timed i
          (avFifoWrite (timed.streams i).fifo [frame] fifoAllocated).2) rfl
        split at hrest
        · cases hrest
          exact hheaded
        · cases hrest
          have halike := countSent_alike (streamUpdateTs (timed.set i { timed.streams i with
            fifo := (avFifoWrite (timed.streams i).fifo [frame] fifoAllocated).2 }) i
              (frameEnd frame)) i
          refine (streamUpdateTs_headed hheaded (halike.sameHeads.headsFit.mp hfit) ?_).alike halike
          intro j
          rw [(sameHeads_setFifo timed i _).tb]
          exact (htimedStored.streams j).tb

theorem sqReceive_headed (h : Headed sq) (hstored : Stored limiting sq packets)
    {streamIdx : Option Nat} (hidx : ∀ i ∈ streamIdx, i < sq.nbStreams) (hfit : HeadsFit sq)
    (hfit' : HeadsFit (sqReceive sq streamIdx).state) : ∃ turn, Kept sq turn ∧ Headed turn ∧ HeadsFit turn ∧
      Got turn packets streamIdx (sqReceive sq streamIdx) ∧
      SameHeads turn (sqReceive sq streamIdx).state ∧
      (sqReceive sq streamIdx).state.headStream = turn.headStream := by
  obtain ⟨turn, hturn, hgot⟩ := hstored.receive hidx
  have hsame : SameHeads turn (sqReceive sq streamIdx).state ∧
      (sqReceive sq streamIdx).state.headStream = turn.headStream := by
    generalize sqReceive sq streamIdx = received at hgot
    cases hgot with
    | released => exact ⟨sameHeads_setFifo turn _ _, rfl⟩
    | nothing => exact ⟨(Alike.refl turn).sameHeads, rfl⟩
  have hfitTurn : HeadsFit turn := hsame.1.headsFit.mp hfit'
  have htb : ∀ i, (sq.streams i).tb.Positive := fun i => (hstored.streams i).tb
  refine ⟨turn, ?_, ?_, hfitTurn, hgot, hsame⟩
  · obtain rfl | rfl := hturn
    · exact .refl _
    · exact overflowHeartbeat_kept sq streamIdx
  · obtain rfl | rfl := hturn
    · exact h
    · exact overflowHeartbeat_headed h hfit hfitTurn htb

theorem run_headed (h : Headed sq) (hstored : Stored limiting sq packets) {call : SqCall}
    {received : SqReceived} (hexact : Exact sq call) (hrun : call.run sq = some received) :
    Headed received.state := by
  obtain ⟨⟨hfit, _⟩, hafter, hkeeps⟩ := hexact
  have hfit' := (hafter received hrun).1
  cases call with
  | send i frame allocated fifoAllocated =>
      simp only [SqCall.run] at hrun
      split at hrun
      · obtain ⟨⟨ret, sq'⟩, hsend, rfl⟩ := Option.map_eq_some_iff.mp hrun
        cases frame with
        | none =>
            cases hsend
            exact h.alike (finishStream_alike sq i)
        | some frame => exact sqSend_headed h hstored hkeeps hsend hfit'
      · cases hrun
  | limitFrames i frames =>
      simp only [SqCall.run] at hrun
      split at hrun
      · cases hrun
        exact h.alike (sqLimitFrames_alike sq i frames)
      · cases hrun
  | receive streamIdx =>
      simp only [SqCall.run] at hrun
      split at hrun
      · next hidx =>
          cases hrun
          obtain ⟨turn, _, hheaded, _, _, hsame, hhead⟩ :=
            sqReceive_headed h hstored hidx hfit hfit'
          exact hheaded.same hsame hhead
      · cases hrun

theorem run_behind (h : Headed sq) (hstored : Stored limiting sq packets) {call : SqCall}
    {received : SqReceived} (hexact : Exact sq call) (hrun : call.run sq = some received)
    {p : SyncPacket} (hp : received.frame = some p) (hts : frameEnd p ≠ avNoptsValue) {j : Nat}
    (hj : j < limiting.length) (hlimits : limiting.getD j false = true) :
    (received.state.streams j).headTs ≠ avNoptsValue ∧ timeOf (frameEnd p) p.timeBase ≤
      timeOf (received.state.streams j).headTs (received.state.streams j).tb := by
  obtain ⟨⟨hfit, hends⟩, hafter, _⟩ := hexact
  have hfit' := (hafter received hrun).1
  cases call with
  | send i frame allocated fifoAllocated =>
      simp only [SqCall.run] at hrun
      split at hrun
      · obtain ⟨_, _, rfl⟩ := Option.map_eq_some_iff.mp hrun
        cases hp
      · cases hrun
  | limitFrames i frames =>
      simp only [SqCall.run] at hrun
      split at hrun
      · cases hrun
        cases hp
      · cases hrun
  | receive streamIdx =>
      simp only [SqCall.run] at hrun
      split at hrun
      · next hidx =>
          cases hrun
          obtain ⟨turn, hkept, hheaded, hfitTurn, hgot, hsame, _⟩ :=
            sqReceive_headed h hstored hidx hfit hfit'
          have hturn := hstored.kept hkept
          rw [hsame.headTs, hsame.tb]
          generalize sqReceive sq streamIdx = received at hgot hp
          cases hgot with
          | nothing => cases hp
          | @released i peek rest hi hpackets hreleasable =>
              cases hp
              have hlimiting : turn.haveLimiting = true := by
                rw [hturn.haveLimiting, List.any_eq_true]
                rw [List.getD_eq_getElem?_getD, List.getElem?_eq_getElem hj] at hlimits
                exact ⟨limiting[j], List.getElem_mem hj, hlimits⟩
              obtain ⟨_, head, hhead, hcompare⟩ | hnone | hfree := hreleasable
              · have hlowest := hheaded head hhead
                obtain ⟨low, hlow, hleast⟩ := hlowest.least
                obtain ⟨hmarked, rfl⟩ := mark_eq_some hlow
                have hmember : Member turn j := by
                  refine ⟨by rw [hturn.nbStreams]; exact hj, ?_⟩
                  rw [(hturn.streams j).limiting]
                  exact hlimits
                obtain ⟨t, ht, hle⟩ := hleast j hmember
                obtain ⟨hmarkedJ, rfl⟩ := mark_eq_some ht
                refine ⟨hmarkedJ, le_trans ?_ hle⟩
                have htb : ∀ k, (turn.streams k).tb.Positive := fun k => (hturn.streams k).tb
                have hin : p ∈ (sq.streams i).fifo.elems := by
                  rw [(hstored.streams i).holds.elems, hpackets]
                  exact List.mem_cons_self
                have hmemP : p ∈ packets i := by
                  rw [hpackets]
                  exact List.mem_cons_self
                have hfits : ∀ k < turn.nbStreams,
                    Fits (frameEnd p) (turn.streams i).tb (turn.streams k).tb := by
                  intro k hk
                  rw [hkept.nbStreams] at hi hk
                  rw [(hkept.streams i).tb, (hkept.streams k).tb]
                  exact hends i hi k hk p hin hts
                rw [(hturn.streams i).timeBase p hmemP]
                exact (avCompareTs_exact (htb i) (htb head) (hfits head hlowest.member.1)
                  (hfitTurn head hlowest.member.1 i hi hmarked) (fits_self (htb i) (hfits i hi))
                  (fits_self (htb head) (hfitTurn head hlowest.member.1 head hlowest.member.1
                    hmarked))).2.mp hcompare
              · exact absurd hnone hts
              · rw [hlimiting] at hfree
                cases hfree
      · cases hrun

end Runs

theorem exact_headed {bufSizeUs : Int} {limiting : List Bool} {sq : SyncQueue}
    (h : ((syncing bufSizeUs limiting).restrict Exact).Reachable sq) :
    Headed sq ∧ ∃ ev packets, Recorded limiting sq ev packets := by
  refine System.Reachable.invariant
    (fun sq => Headed sq ∧ ∃ ev packets, Recorded limiting sq ev packets) ?_ ?_ h
  · intro sq hsq
    obtain rfl : sq = sqOpen bufSizeUs limiting := hsq
    have hopened := opened bufSizeUs limiting
    refine ⟨?_, [], _, hopened.stored, fun _ => rfl, by simp, by simp⟩
    intro head hhead
    rw [hopened.headStream] at hhead
    cases hhead
  · rintro sq call t _ ⟨hheaded, ev, packets, hrecorded⟩ hn
    obtain ⟨hexact, hnext⟩ := System.restrict_next.mp hn
    obtain ⟨received, hrun, rfl⟩ := Option.map_eq_some_iff.mp hnext
    obtain ⟨packets', hrecorded'⟩ := hrecorded.run hrun
    exact ⟨run_headed hheaded hrecorded.stored hexact hrun, _, packets', hrecorded'⟩

/-- What the calls so far have given: of each stream a prefix of its packets, and
after an end nothing but the end. -/
structure InOrder (ev : List SqEvent) : Prop where
  received : ∀ i, receivedFrom i ev <+: sentTo i ev
  latched : ∀ before e after, ev = before ++ e :: after → (∃ e' ∈ before, e'.Ends) →
    e.call.Asks → e.ret = averrorEof

/-- Any number of streams, any of them limiting, and any calls. -/
theorem sync_queue_order (bufSizeUs : Int) (limiting : List Bool) :
    (∀ s, ((syncing bufSizeUs limiting).observed sqEvents).Reachable s → InOrder s.2) ∧
    ∀ sq call received, ((syncing bufSizeUs limiting).restrict Exact).Reachable sq →
      Exact sq call → call.run sq = some received →
      ∀ p, received.frame = some p → frameEnd p ≠ avNoptsValue →
      ∀ j < limiting.length, limiting.getD j false = true →
        (received.state.streams j).headTs ≠ avNoptsValue ∧ timeOf (frameEnd p) p.timeBase ≤
          timeOf (received.state.streams j).headTs (received.state.streams j).tb := by
  constructor
  · intro s hs
    obtain ⟨packets, hrecorded⟩ := syncing_recorded hs
    refine ⟨?_, hrecorded.latched⟩
    intro i
    rw [hrecorded.order i]
    exact List.prefix_append _ _
  · intro sq call received hreach hexact hrun p hp hts j hj hlimits
    obtain ⟨hheaded, _, _, hrecorded⟩ := exact_headed hreach
    exact run_behind hheaded hrecorded.stored hexact hrun hp hts hj hlimits

def packetAt (ts : Int) (tb : AVRational) : SyncPacket :=
  ⟨⟨some ts, none, [], 0, true, false, 0⟩, tb⟩

def sendAt (i : Nat) (ts : Int) (tb : AVRational) : SqCall := .send i (some (packetAt ts tb)) true true

/-- Two limiting streams with their own time bases. -/
theorem sync_queue_order_two_streams : ∃ sq received,
    SqCall.run sq (.receive none) = some received ∧
      received.frame = some (packetAt 40 ⟨1, 1000⟩) ∧
      (received.state.streams 1).headTs ≠ avNoptsValue ∧
      timeOf (frameEnd (packetAt 40 ⟨1, 1000⟩)) ⟨1, 1000⟩ ≤
        timeOf (received.state.streams 1).headTs (received.state.streams 1).tb := by
  have hrun : (((syncing 10000000 [true, true]).guard fun sq call => decide (Exact sq call)).run
      [sendAt 0 40 ⟨1, 1000⟩, sendAt 1 2 ⟨1001, 30000⟩] (sqOpen 10000000 [true, true])).bind
        (fun sq => ((SqCall.receive none).run sq).map
          fun r => (decide (Exact sq (.receive none)), r.frame)) =
      some (true, some (packetAt 40 ⟨1, 1000⟩)) := by
    decide +kernel
  obtain ⟨sq, hs, hview⟩ := Option.bind_eq_some_iff.mp hrun
  obtain ⟨received, hreceived, hpair⟩ := Option.map_eq_some_iff.mp hview
  rw [Prod.mk.injEq, decide_eq_true_eq] at hpair
  have hreach := System.Reachable.of_guard (C := Exact) (fun _ _ => of_decide_eq_true) rfl hs
  have htheorem := (sync_queue_order 10000000 [true, true]).2 sq _ received hreach hpair.1 hreceived
    _ hpair.2 (by decide) 1 (by decide) rfl
  exact ⟨sq, received, hreceived, hpair.2, htheorem⟩

/-- Three ways to leave the statement that every call of sq_send after an end
returns the end and that no packet is after a head: an end of a stream is taken
at any time; a first packet changes the time base of a head that a heartbeat has
set, here from 16 to 16.016 seconds; and av_compare_ts overflows. -/
theorem end_taken_and_head_overtaken :
    (∃ s, ((syncing 10000000 [true]).observed sqEvents).Reachable s ∧
      s.2 = [⟨.send 0 none true true, 0, none⟩, ⟨.receive none, averrorEof, none⟩,
        ⟨.send 0 none true true, 0, none⟩]) ∧
    (∃ s, ((syncing 10000000 [false, true, true]).observed sqEvents).Reachable s ∧
      s.2.getLast? = some ⟨.receive none, 0, some (packetAt 16012 ⟨1, 1000⟩)⟩ ∧
      (s.1.streams 2).headTs = 16010 ∧ (s.1.streams 2).tb = ⟨1, 1000⟩ ∧
      (s.1.streams 2).limiting = true) ∧
    ∃ s, ((syncing 10000000 [false, true]).observed sqEvents).Reachable s ∧
      s.2.getLast? = some ⟨.receive none, 0, some (packetAt 4611686018427387904 ⟨1, 1⟩)⟩ ∧
      (s.1.streams 1).headTs = 5 ∧ (s.1.streams 1).tb = ⟨1, 1000000⟩ ∧
      (s.1.streams 1).limiting = true := by
  refine ⟨?_, ?_, ?_⟩
  · have hrun : (((syncing 10000000 [true]).observed sqEvents).run
        [.send 0 none true true, .receive none, .send 0 none true true]
        (sqOpen 10000000 [true], [])).map (fun s => s.2) =
        some [⟨.send 0 none true true, 0, none⟩, ⟨.receive none, averrorEof, none⟩,
          ⟨.send 0 none true true, 0, none⟩] := by
      decide +kernel
    obtain ⟨s, hs, hev⟩ := Option.map_eq_some_iff.mp hrun
    have hinit : ((syncing 10000000 [true]).observed sqEvents).init (sqOpen 10000000 [true], []) :=
      ⟨rfl, rfl⟩
    exact ⟨s, System.Reachable.of_run hinit hs, hev⟩
  · have hrun : (((syncing 10000000 [false, true, true]).observed sqEvents).run
        [sendAt 0 15999 ⟨1, 1000⟩, sendAt 0 16012 ⟨1, 1000⟩, sendAt 0 26000 ⟨1, 1000⟩,
          sendAt 2 16010 ⟨1, 1000⟩, .receive none, sendAt 1 3 ⟨1001, 30000⟩, .receive none]
        (sqOpen 10000000 [false, true, true], [])).map (fun s => (s.2.getLast?,
          (s.1.streams 2).headTs, (s.1.streams 2).tb, (s.1.streams 2).limiting)) =
        some (some ⟨.receive none, 0, some (packetAt 16012 ⟨1, 1000⟩)⟩, 16010, ⟨1, 1000⟩, true) := by
      decide +kernel
    obtain ⟨s, hs, hview⟩ := Option.map_eq_some_iff.mp hrun
    simp only [Prod.mk.injEq] at hview
    have hinit : ((syncing 10000000 [false, true, true]).observed sqEvents).init
        (sqOpen 10000000 [false, true, true], []) := ⟨rfl, rfl⟩
    exact ⟨s, System.Reachable.of_run hinit hs, hview⟩
  · have hrun : (((syncing 10000000 [false, true]).observed sqEvents).run
        [sendAt 0 4611686018427387904 ⟨1, 1⟩, sendAt 1 5 ⟨1, 1000000⟩, .receive none]
        (sqOpen 10000000 [false, true], [])).map (fun s => (s.2.getLast?,
          (s.1.streams 1).headTs, (s.1.streams 1).tb, (s.1.streams 1).limiting)) =
        some (some ⟨.receive none, 0, some (packetAt 4611686018427387904 ⟨1, 1⟩)⟩, 5,
          ⟨1, 1000000⟩, true) := by
      decide +kernel
    obtain ⟨s, hs, hview⟩ := Option.map_eq_some_iff.mp hrun
    simp only [Prod.mk.injEq] at hview
    have hinit : ((syncing 10000000 [false, true]).observed sqEvents).init
        (sqOpen 10000000 [false, true], []) := ⟨rfl, rfl⟩
    exact ⟨s, System.Reachable.of_run hinit hs, hview⟩

end P2PFFmpeg.Tools
