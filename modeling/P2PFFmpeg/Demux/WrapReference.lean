import P2PFFmpeg.Seek.Index
import P2PFFmpeg.Sdp.Media
import Mathlib.Data.Int.ModEq
import Mathlib.Data.List.Forall2

namespace P2PFFmpeg.Demux.Wrap

open Util
open Sdp (AVMediaType)

inductive PtsWrapBehavior
  | ignore
  | addOffset
  | subOffset
deriving DecidableEq

structure WrapMark where
  reference : Option Int
  behavior : PtsWrapBehavior
deriving DecidableEq

structure FFStream where
  codecType : AVMediaType
  attachedPic : Bool
  width : Int
  height : Int
  sampleRate : Int
  codecInfoNbFrames : Int
  discardAll : Bool
  timeBase : AVRational
  ptsWrapBits : Nat
  wrap : WrapMark
  firstDts : Option Int
  startTime : Option Int
  curDts : Option Int

structure AVProgram where
  streamIndex : List Nat
  wrap : WrapMark

structure AVFormatContext where
  nbStreams : Nat
  streams : Nat → FFStream
  programs : List AVProgram
  correctTsOverflow : Bool

def wrapTimestamp (st : FFStream) (timestamp : Option Int) : Option Int :=
  match st.wrap.reference, timestamp with
  | some reference, some t =>
      if st.wrap.behavior ≠ .ignore ∧ st.ptsWrapBits < 64 then
        if st.wrap.behavior = .addOffset ∧ t < reference then some (t + 2 ^ st.ptsWrapBits)
        else if st.wrap.behavior = .subOffset ∧ t ≥ reference then some (t - 2 ^ st.ptsWrapBits)
        else some t
      else some t
  | _, _ => timestamp

def programsOf (s : AVFormatContext) (i : Nat) : List Nat :=
  (List.range s.programs.length).filter fun k => ∃ p ∈ s.programs[k]?, i ∈ p.streamIndex

def streamScore (st : FFStream) : Int :=
  (if st.codecType = .video then
      (if st.attachedPic then -400 else 0) + (if st.width ≠ 0 ∧ st.height ≠ 0 then 50 else 0) + 25
    else 0) +
    (if st.codecType = .audio ∧ st.sampleRate ≠ 0 then 50 else 0) +
    (if st.codecInfoNbFrames ≠ 0 then 12 else 0) + (if st.discardAll then 0 else 200)

def avFindDefaultStreamIndex (s : AVFormatContext) : Nat :=
  (List.range s.nbStreams).foldl
    (fun best i => if streamScore (s.streams i) > streamScore (s.streams best) then i else best) 0

def margin (st : FFStream) : Int := avRescale 60 st.timeBase.den st.timeBase.num

/-- What a first timestamp says about the wraps; `ref` is less than `2 ^ bits`. -/
def firstMark (st : FFStream) (ref : Int) : WrapMark where
  reference := some (ref - margin st)
  behavior :=
    if ref < 2 ^ st.ptsWrapBits - 2 ^ (st.ptsWrapBits - 3) ∨
        ref < 2 ^ st.ptsWrapBits - margin st then .addOffset
    else .subOffset

def markProgram (mark : WrapMark) (s : AVFormatContext) (k : Nat) : AVFormatContext :=
  match s.programs[k]? with
  | none => s
  | some p =>
      if p.wrap.reference = mark.reference then s
      else { s with
        streams := fun i =>
          if i ∈ p.streamIndex then { s.streams i with wrap := mark } else s.streams i
        programs := s.programs.set k { p with wrap := mark } }

def programMark (s : AVFormatContext) (programs : List Nat) : Option WrapMark :=
  programs.findSome? fun k =>
    (s.programs[k]?).bind fun p => if p.wrap.reference ≠ none then some p.wrap else none

def placeMark (s : AVFormatContext) (streamIndex : Nat) (mark : WrapMark) : AVFormatContext :=
  match programsOf s streamIndex with
  | [] =>
      let default := (s.streams (avFindDefaultStreamIndex s)).wrap
      if default.reference = none then
        { s with streams := fun i =>
            if i < s.nbStreams ∧ programsOf s i = [] then { s.streams i with wrap := mark }
            else s.streams i }
      else
        { s with streams := fun i =>
            if i = streamIndex then { s.streams i with wrap := default } else s.streams i }
  | programs => programs.foldl (markProgram ((programMark s programs).getD mark)) s

/-- Whether there is a new reference; nothing when the number of bits is too
small for the shift. -/
def updateWrapReference (s : AVFormatContext) (streamIndex : Nat) (pkt : AVPacket) :
    Option (Bool × AVFormatContext) :=
  let st := s.streams streamIndex
  match pkt.dts.or pkt.pts with
  | none => some (false, s)
  | some ref =>
      if st.wrap.reference ≠ none ∨ st.ptsWrapBits ≥ 63 ∨ s.correctTsOverflow = false then
        some (false, s)
      else if st.ptsWrapBits < 3 then none
      else some (true, placeMark s streamIndex (firstMark st (ref % 2 ^ st.ptsWrapBits)))

def wrapUnlessRelative (st : FFStream) (timestamp : Option Int) : Option Int :=
  if ∃ t ∈ timestamp, Seek.isRelative t = true then timestamp else wrapTimestamp st timestamp

def correctFirst (st : FFStream) : FFStream :=
  { st with
    firstDts := wrapUnlessRelative st st.firstDts
    startTime := wrapUnlessRelative st st.startTime
    curDts := wrapUnlessRelative st st.curDts }

def correctStream (s : AVFormatContext) (i : Nat) : AVFormatContext :=
  { s with streams := fun j => if j = i then correctFirst (s.streams j) else s.streams j }

/-- The correction in ff_read_packet; nothing when the index of the stream is
invalid. -/
def ffReadPacket (s : AVFormatContext) (pkt : AVPacket) : Option (AVFormatContext × AVPacket) :=
  if pkt.streamIndex < 0 ∨ (s.nbStreams : Int) ≤ pkt.streamIndex then none
  else do
    let i := pkt.streamIndex.toNat
    let (updated, s) ← updateWrapReference s i pkt
    let st := s.streams i
    let s := (if updated = true ∧ st.wrap.behavior = .subOffset then correctStream s i else s)
    some (s, { pkt with dts := wrapTimestamp st pkt.dts, pts := wrapTimestamp st pkt.pts })

def readPackets : AVFormatContext → List AVPacket → Option (AVFormatContext × List AVPacket)
  | s, [] => some (s, [])
  | s, pkt :: rest => do
      let (s, pkt) ← ffReadPacket s pkt
      let (s, rest) ← readPackets s rest
      some (s, pkt :: rest)

section Windows

variable {m lo x t : Int}

theorem window_unique (hx : lo ≤ x ∧ x < lo + m) (h : x ≡ t [ZMOD m]) : x = t ↔ lo ≤ t ∧ t < lo + m := by
  constructor
  · rintro rfl
    exact hx
  · intro ht
    obtain ⟨k, hk⟩ := h.dvd
    have hm : 0 < m := by omega
    have hlow : k < 1 := by
      by_contra hge
      have hle : m * 1 ≤ m * k := mul_le_mul_of_nonneg_left (by omega) hm.le
      omega
    have hhigh : -1 < k := by
      by_contra hle
      have hge : m * k ≤ m * (-1) := mul_le_mul_of_nonneg_left (by omega) hm.le
      omega
    obtain rfl : k = 0 := by omega
    omega

end Windows

section Mark

variable {st : FFStream} {r x : Int}

def firstShift (st : FFStream) (r : Int) : Int :=
  match (firstMark st r).behavior with
  | .subOffset => -2 ^ st.ptsWrapBits
  | _ => 0

theorem firstMark_behavior (st : FFStream) (r : Int) :
    ((firstMark st r).behavior = .addOffset ∧ firstShift st r = 0) ∨
      ((firstMark st r).behavior = .subOffset ∧ firstShift st r = -2 ^ st.ptsWrapBits) := by
  by_cases h : r < 2 ^ st.ptsWrapBits - 2 ^ (st.ptsWrapBits - 3) ∨
      r < 2 ^ st.ptsWrapBits - margin st
  · have hb : (firstMark st r).behavior = .addOffset := if_pos h
    exact .inl ⟨hb, by rw [firstShift, hb]⟩
  · have hb : (firstMark st r).behavior = .subOffset := if_neg h
    exact .inr ⟨hb, by rw [firstShift, hb]⟩

/-- The corrected number keeps its remainder and is in the window from the margin
before the first timestamp on, or from the smallest number if that is nearer. -/
theorem wrapTimestamp_window (hbits : st.ptsWrapBits < 64) (hw : 0 ≤ margin st)
    (hmark : st.wrap = firstMark st r) (hr : 0 ≤ r ∧ r < 2 ^ st.ptsWrapBits)
    (hx : 0 ≤ x ∧ x < 2 ^ st.ptsWrapBits) :
    ∃ y, wrapTimestamp st (some x) = some y ∧ y ≡ x [ZMOD 2 ^ st.ptsWrapBits] ∧
      (r + firstShift st r - min (margin st) r ≤ y ∧
        y < r + firstShift st r - min (margin st) r + 2 ^ st.ptsWrapBits) ∧
      (x = r → y = r + firstShift st r) := by
  have href : st.wrap.reference = some (r - margin st) := by rw [hmark]; rfl
  obtain ⟨hb, hshift⟩ | ⟨hb, hshift⟩ := firstMark_behavior st r
  · rw [← hmark] at hb
    simp only [wrapTimestamp, href, hb, hshift]
    by_cases hlow : x < r - margin st
    · refine ⟨x + 2 ^ st.ptsWrapBits, ?_, Int.add_modulus_modEq_iff.mpr (Int.ModEq.refl x), by omega, by omega⟩
      rw [if_pos ⟨by decide, hbits⟩, if_pos ⟨trivial, hlow⟩]
    · refine ⟨x, ?_, Int.ModEq.refl x, by omega, by omega⟩
      rw [if_pos ⟨by decide, hbits⟩, if_neg (fun h => hlow h.2), if_neg (fun h => by cases h.1)]
  · rw [← hmark] at hb
    simp only [wrapTimestamp, href, hb, hshift]
    by_cases hlow : x < r - margin st
    · refine ⟨x, ?_, Int.ModEq.refl x, by omega, by omega⟩
      rw [if_pos ⟨by decide, hbits⟩, if_neg (fun h => by cases h.1), if_neg (fun h => by omega)]
    · refine ⟨x - 2 ^ st.ptsWrapBits, ?_, Int.sub_modulus_modEq_iff.mpr (Int.ModEq.refl x), by omega, by omega⟩
      rw [if_pos ⟨by decide, hbits⟩, if_neg (fun h => by cases h.1),
        if_pos ⟨trivial, not_lt.mp hlow⟩]

end Mark

section Frame

structure Keeps (s s' : AVFormatContext) : Prop where
  count : s'.nbStreams = s.nbStreams
  enabled : s'.correctTsOverflow = s.correctTsOverflow
  bits : ∀ j, (s'.streams j).ptsWrapBits = (s.streams j).ptsWrapBits
  timeBase : ∀ j, (s'.streams j).timeBase = (s.streams j).timeBase
  programs : s'.programs.map AVProgram.streamIndex = s.programs.map AVProgram.streamIndex
  referenced : ∀ j, (s.streams j).wrap.reference ≠ none → (s'.streams j).wrap.reference ≠ none

variable {s s' s'' : AVFormatContext} {mark : WrapMark} {i j k : Nat}

theorem Keeps.refl (s : AVFormatContext) : Keeps s s :=
  ⟨rfl, rfl, fun _ => rfl, fun _ => rfl, rfl, fun _ h => h⟩

theorem Keeps.trans (h : Keeps s s') (h' : Keeps s' s'') : Keeps s s'' where
  count := h'.count.trans h.count
  enabled := h'.enabled.trans h.enabled
  bits j := (h'.bits j).trans (h.bits j)
  timeBase j := (h'.timeBase j).trans (h.timeBase j)
  programs := h'.programs.trans h.programs
  referenced j hj := h'.referenced j (h.referenced j hj)

theorem mem_programsOf :
    k ∈ programsOf s i ↔ ∃ l, (s.programs.map AVProgram.streamIndex)[k]? = some l ∧ i ∈ l := by
  simp only [programsOf, List.mem_filter, List.mem_range, decide_eq_true_eq, List.getElem?_map,
    Option.map_eq_some_iff, Option.mem_def]
  constructor
  · rintro ⟨_, p, hp, hi⟩
    exact ⟨p.streamIndex, ⟨p, hp, rfl⟩, hi⟩
  · rintro ⟨_, ⟨p, hp, rfl⟩, hi⟩
    exact ⟨(List.getElem?_eq_some_iff.mp hp).1, p, hp, hi⟩

theorem Keeps.programsOf (h : Keeps s s') (i : Nat) : programsOf s' i = programsOf s i := by
  have hlength : s'.programs.length = s.programs.length := by
    simpa only [List.length_map] using congrArg List.length h.programs
  unfold Wrap.programsOf
  rw [hlength]
  apply List.filter_congr
  intro k hk
  have hiff : k ∈ Wrap.programsOf s' i ↔ k ∈ Wrap.programsOf s i := by
    rw [mem_programsOf, mem_programsOf, h.programs]
  simpa only [Wrap.programsOf, hlength, List.mem_filter, hk, true_and, decide_eq_true_eq,
    decide_eq_decide] using hiff

def Linked (s : AVFormatContext) (i j : Nat) : Prop :=
  (programsOf s i = [] ∧ programsOf s j = []) ∨ ∃ k ∈ programsOf s i, k ∈ programsOf s j

theorem Keeps.linked (h : Keeps s s') : Linked s' i j ↔ Linked s i j := by
  simp only [Linked, h.programsOf]

theorem markProgram_keeps (hmark : mark.reference ≠ none) (s : AVFormatContext) (k : Nat) :
    Keeps s (markProgram mark s k) := by
  cases hp : s.programs[k]? with
  | none =>
      rw [markProgram, hp]
      exact Keeps.refl s
  | some p =>
      by_cases hsame : p.wrap.reference = mark.reference
      · simp only [markProgram, hp, if_pos hsame]
        exact Keeps.refl s
      · simp only [markProgram, hp, if_neg hsame]
        refine ⟨rfl, rfl, fun j => ?_, fun j => ?_, ?_, fun j hj => ?_⟩
        · dsimp only
          split <;> rfl
        · dsimp only
          split <;> rfl
        · apply List.ext_getElem?
          intro m
          rw [List.getElem?_map, List.getElem?_map, List.getElem?_set]
          split
          · next hm =>
              subst hm
              rw [if_pos (List.getElem?_eq_some_iff.mp hp).1, hp]
              rfl
          · rfl
        · dsimp only
          split
          · exact hmark
          · exact hj

theorem markProgram_wrap (mark : WrapMark) (s : AVFormatContext) (k j : Nat) :
    ((markProgram mark s k).streams j).wrap = (s.streams j).wrap ∨
      k ∈ programsOf s j ∧ ((markProgram mark s k).streams j).wrap = mark := by
  cases hp : s.programs[k]? with
  | none =>
      rw [markProgram, hp]
      exact .inl rfl
  | some p =>
      by_cases hsame : p.wrap.reference = mark.reference
      · simp only [markProgram, hp, if_pos hsame]
        exact .inl trivial
      · simp only [markProgram, hp, if_neg hsame]
        by_cases hj : j ∈ p.streamIndex
        · refine .inr ⟨mem_programsOf.mpr ⟨p.streamIndex, ?_, hj⟩, by rw [if_pos hj]⟩
          rw [List.getElem?_map, hp]
          rfl
        · rw [if_neg hj]
          exact .inl rfl

theorem markProgram_marks {p : AVProgram} (hp : s.programs[k]? = some p)
    (hother : p.wrap.reference ≠ mark.reference) (hj : j ∈ p.streamIndex) :
    ((markProgram mark s k).streams j).wrap = mark := by
  simp only [markProgram, hp, if_neg hother, if_pos hj]

theorem markProgram_program (hne : k ≠ j) : (markProgram mark s k).programs[j]? = s.programs[j]? := by
  cases hp : s.programs[k]? with
  | none => rw [markProgram, hp]
  | some p =>
      by_cases hsame : p.wrap.reference = mark.reference
      · simp only [markProgram, hp, if_pos hsame]
      · simp only [markProgram, hp, if_neg hsame]
        exact List.getElem?_set_ne hne

theorem markPrograms_keeps (hmark : mark.reference ≠ none) (ks : List Nat) (s : AVFormatContext) :
    Keeps s (ks.foldl (markProgram mark) s) := by
  induction ks generalizing s with
  | nil => exact Keeps.refl s
  | cons k ks ih => exact (markProgram_keeps hmark s k).trans (ih _)

theorem markPrograms_wrap (hmark : mark.reference ≠ none) (ks : List Nat) (s : AVFormatContext) (j : Nat) :
    ((ks.foldl (markProgram mark) s).streams j).wrap = (s.streams j).wrap ∨
      (∃ k ∈ ks, k ∈ programsOf s j) ∧ ((ks.foldl (markProgram mark) s).streams j).wrap = mark := by
  induction ks generalizing s with
  | nil => exact .inl rfl
  | cons k ks ih =>
      rw [List.foldl_cons]
      obtain hrest | ⟨⟨m, hm, hmem⟩, hrest⟩ := ih (markProgram mark s k)
      · rw [hrest]
        refine (markProgram_wrap mark s k j).imp id ?_
        rintro ⟨hk, hwrap⟩
        exact ⟨⟨k, List.mem_cons_self, hk⟩, hwrap⟩
      · rw [(markProgram_keeps hmark s k).programsOf] at hmem
        exact .inr ⟨⟨m, List.mem_cons_of_mem k hm, hmem⟩, hrest⟩

theorem markPrograms_marks (hmark : mark.reference ≠ none) (ks : List Nat) {p : AVProgram}
    (hk : k ∈ ks) (hp : s.programs[k]? = some p) (hother : p.wrap.reference ≠ mark.reference)
    (hj : j ∈ p.streamIndex) : ((ks.foldl (markProgram mark) s).streams j).wrap = mark := by
  induction ks generalizing s with
  | nil => cases hk
  | cons m ks ih =>
      rw [List.foldl_cons]
      by_cases hm : m = k
      · subst hm
        obtain hrest | ⟨_, hrest⟩ := markPrograms_wrap hmark ks (markProgram mark s m) j
        · rw [hrest, markProgram_marks hp hother hj]
        · exact hrest
      · exact ih ((List.mem_cons.mp hk).resolve_left fun h => hm h.symm)
          ((markProgram_program hm).trans hp)

theorem programMark_referenced {ks : List Nat} (h : programMark s ks = some mark) :
    mark.reference ≠ none := by
  obtain ⟨k, _, hk⟩ := List.exists_of_findSome?_eq_some h
  obtain ⟨p, _, hp⟩ := Option.bind_eq_some_iff.mp hk
  split at hp
  · next hsome =>
      obtain rfl := Option.some.inj hp
      exact hsome
  · cases hp

theorem placedMark_referenced (hmark : mark.reference ≠ none) (ks : List Nat) :
    ((programMark s ks).getD mark).reference ≠ none := by
  cases h : programMark s ks with
  | none => exact hmark
  | some found => exact programMark_referenced h

theorem placeMark_keeps (hmark : mark.reference ≠ none) (s : AVFormatContext) (i : Nat) :
    Keeps s (placeMark s i mark) := by
  unfold placeMark
  split
  · by_cases hdefault : (s.streams (avFindDefaultStreamIndex s)).wrap.reference = none
    · rw [if_pos hdefault]
      refine ⟨rfl, rfl, fun j => ?_, fun j => ?_, rfl, fun j hj => ?_⟩ <;> dsimp only <;> split
      · rfl
      · rfl
      · rfl
      · rfl
      · exact hmark
      · exact hj
    · rw [if_neg hdefault]
      refine ⟨rfl, rfl, fun j => ?_, fun j => ?_, rfl, fun j hj => ?_⟩ <;> dsimp only <;> split
      · rfl
      · rfl
      · rfl
      · rfl
      · exact hdefault
      · exact hj
  · exact markPrograms_keeps (placedMark_referenced hmark _) _ s

theorem placeMark_wrap (hmark : mark.reference ≠ none) (hj : j ≠ i) (hlinked : ¬Linked s i j) :
    ((placeMark s i mark).streams j).wrap = (s.streams j).wrap := by
  unfold placeMark
  split
  · next hnone =>
      have hprograms : programsOf s j ≠ [] := fun h => hlinked (.inl ⟨hnone, h⟩)
      by_cases hdefault : (s.streams (avFindDefaultStreamIndex s)).wrap.reference = none
      · rw [if_pos hdefault]
        dsimp only
        rw [if_neg fun h => hprograms h.2]
      · rw [if_neg hdefault]
        dsimp only
        rw [if_neg hj]
  · next ks hks =>
      obtain hsame | ⟨⟨k, hk, hmem⟩, _⟩ :=
        markPrograms_wrap (placedMark_referenced hmark (programsOf s i)) (programsOf s i) s j
      · exact hsame
      · exact absurd (.inr ⟨k, hk, hmem⟩) hlinked

structure Unreferenced (s : AVFormatContext) (i : Nat) : Prop where
  stream : (s.streams i).wrap.reference = none
  default : (s.streams (avFindDefaultStreamIndex s)).wrap.reference = none
  programs : ∀ k ∈ programsOf s i, ∀ p ∈ s.programs[k]?, p.wrap.reference = none

theorem Unreferenced.programMark (h : Unreferenced s i) : programMark s (programsOf s i) = none := by
  apply List.findSome?_eq_none_iff.mpr
  intro k hk
  cases hp : s.programs[k]? with
  | none => rfl
  | some p =>
      rw [Option.bind_some, if_neg]
      exact not_not.mpr (h.programs k hk p hp)

theorem Unreferenced.placeMark (h : Unreferenced s i) (hmark : mark.reference ≠ none)
    (hj : j < s.nbStreams) (hlinked : Linked s i j) : ((placeMark s i mark).streams j).wrap = mark := by
  unfold Wrap.placeMark
  split
  · next hnone =>
      rw [if_pos h.default]
      dsimp only
      rw [if_pos]
      refine ⟨hj, ?_⟩
      obtain ⟨_, hprograms⟩ | ⟨k, hk, _⟩ := hlinked
      · exact hprograms
      · rw [hnone] at hk
        cases hk
  · next hsome =>
      rw [h.programMark, Option.getD_none]
      obtain ⟨hnone, _⟩ | ⟨k, hk, hmem⟩ := hlinked
      · exact absurd hnone hsome
      · obtain ⟨l, hl, hjl⟩ := mem_programsOf.mp hmem
        rw [List.getElem?_map] at hl
        obtain ⟨p, hp, rfl⟩ := Option.map_eq_some_iff.mp hl
        apply markPrograms_marks hmark _ hk hp _ hjl
        rw [h.programs k hk p hp]
        exact hmark.symm

end Frame

section Runs

variable {s s' : AVFormatContext} {mark : WrapMark} {pkt : AVPacket} {i j k : Nat} {updated : Bool}

structure Settled (s : AVFormatContext) (i : Nat) (mark : WrapMark) : Prop where
  stream : (s.streams i).wrap = mark
  others : ∀ j < s.nbStreams, j = i ∨ Linked s i j → (s.streams j).wrap.reference ≠ none

theorem linked_self (s : AVFormatContext) (i : Nat) : Linked s i i := by
  cases h : programsOf s i with
  | nil => exact .inl ⟨h, h⟩
  | cons k ks => exact .inr ⟨k, by rw [h]; exact List.mem_cons_self, by rw [h]; exact List.mem_cons_self⟩

theorem Linked.symm (h : Linked s i j) : Linked s j i := by
  obtain ⟨hi, hj⟩ | ⟨k, hi, hj⟩ := h
  · exact .inl ⟨hj, hi⟩
  · exact .inr ⟨k, hj, hi⟩

theorem firstMark_referenced (st : FFStream) (ref : Int) : (firstMark st ref).reference ≠ none :=
  Option.some_ne_none _

theorem updateWrapReference_cases (h : updateWrapReference s k pkt = some (updated, s')) :
    s' = s ∨ (s.streams k).wrap.reference = none ∧
      ∃ ref, s' = placeMark s k (firstMark (s.streams k) ref) := by
  simp only [updateWrapReference] at h
  split at h
  · exact .inl (Prod.mk.inj (Option.some.inj h)).2.symm
  · next ref href =>
      split at h
      · exact .inl (Prod.mk.inj (Option.some.inj h)).2.symm
      · next hidle =>
          split at h
          · cases h
          · refine .inr ⟨?_, ref % 2 ^ (s.streams k).ptsWrapBits,
              (Prod.mk.inj (Option.some.inj h)).2.symm⟩
            by_contra hnone
            exact hidle (.inl hnone)

theorem updateWrapReference_keeps (h : updateWrapReference s k pkt = some (updated, s')) : Keeps s s' := by
  obtain rfl | ⟨_, ref, rfl⟩ := updateWrapReference_cases h
  · exact Keeps.refl s'
  · exact placeMark_keeps (firstMark_referenced _ ref) s k

theorem Settled.update (h : Settled s i mark) (hk : k < s.nbStreams)
    (hu : updateWrapReference s k pkt = some (updated, s')) : Settled s' i mark := by
  have hkeeps := updateWrapReference_keeps hu
  refine ⟨?_, fun j hj hlinked => hkeeps.referenced j (h.others j (hkeeps.count ▸ hj)
    (hlinked.imp id hkeeps.linked.mp))⟩
  obtain rfl | ⟨hnone, ref, rfl⟩ := updateWrapReference_cases hu
  · exact h.stream
  · have hother : ¬(k = i ∨ Linked s i k) := fun hlinked => h.others k hk hlinked hnone
    rw [placeMark_wrap (firstMark_referenced _ ref) (fun hik => hother (.inl hik.symm))
      (fun hlinked => hother (.inr hlinked.symm))]
    exact h.stream

theorem correctStream_keeps (s : AVFormatContext) (i : Nat) : Keeps s (correctStream s i) := by
  refine ⟨rfl, rfl, fun j => ?_, fun j => ?_, rfl, fun j hj => ?_⟩ <;>
    simp only [correctStream] <;> split
  · rfl
  · rfl
  · rfl
  · rfl
  · exact hj
  · exact hj

theorem correctStream_wrap (s : AVFormatContext) (i j : Nat) :
    ((correctStream s i).streams j).wrap = (s.streams j).wrap := by
  simp only [correctStream]
  split <;> rfl

theorem updateWrapReference_some (hbits : 3 ≤ (s.streams k).ptsWrapBits) (pkt : AVPacket) :
    ∃ updated s', updateWrapReference s k pkt = some (updated, s') := by
  simp only [updateWrapReference]
  split
  · exact ⟨_, _, rfl⟩
  · split
    · exact ⟨_, _, rfl⟩
    · rw [if_neg (by omega)]
      exact ⟨_, _, rfl⟩

def corrected (st : FFStream) (pkt : AVPacket) : AVPacket :=
  { pkt with dts := wrapTimestamp st pkt.dts, pts := wrapTimestamp st pkt.pts }

theorem ffReadPacket_update (hi : pkt.streamIndex = (k : Int)) (hk : k < s.nbStreams)
    (hu : updateWrapReference s k pkt = some (updated, s')) :
    ∃ s'', ffReadPacket s pkt = some (s'', corrected (s'.streams k) pkt) ∧ Keeps s' s'' ∧
      ∀ j, (s''.streams j).wrap = (s'.streams j).wrap := by
  have hvalid : ¬(pkt.streamIndex < 0 ∨ (s.nbStreams : Int) ≤ pkt.streamIndex) := by omega
  have hindex : pkt.streamIndex.toNat = k := by omega
  simp only [ffReadPacket, if_neg hvalid, hindex, hu, Option.bind_eq_bind, Option.bind_some]
  split
  · exact ⟨_, rfl, correctStream_keeps s' k, correctStream_wrap s' k⟩
  · exact ⟨_, rfl, Keeps.refl s', fun _ => rfl⟩

theorem Settled.read (h : Settled s i mark) (hi : pkt.streamIndex = (k : Int))
    (hk : k < s.nbStreams) (hbits : 3 ≤ (s.streams k).ptsWrapBits) :
    ∃ s' q, ffReadPacket s pkt = some (s', q) ∧ Settled s' i mark ∧ Keeps s s' ∧
      (k = i → ∃ st : FFStream, st.wrap = mark ∧
        st.ptsWrapBits = (s.streams i).ptsWrapBits ∧ q = corrected st pkt) := by
  obtain ⟨updated, s1, hu⟩ := updateWrapReference_some hbits pkt
  obtain ⟨s2, hread, hkeeps, hwrap⟩ := ffReadPacket_update hi hk hu
  have hsettled := h.update hk hu
  have hkeeps1 := updateWrapReference_keeps hu
  refine ⟨s2, _, hread, ⟨(hwrap i).trans hsettled.stream, fun j hj hlinked => ?_⟩,
    hkeeps1.trans hkeeps, ?_⟩
  · exact hkeeps.referenced j (hsettled.others j (hkeeps.count ▸ hj)
      (hlinked.imp id hkeeps.linked.mp))
  · rintro rfl
    exact ⟨s1.streams k, hsettled.stream, hkeeps1.bits k, rfl⟩

theorem wrapTimestamp_congr {st st' : FFStream} (hwrap : st.wrap = st'.wrap)
    (hbits : st.ptsWrapBits = st'.ptsWrapBits) (t : Option Int) :
    wrapTimestamp st t = wrapTimestamp st' t := by
  simp only [wrapTimestamp, hwrap, hbits]

theorem corrected_congr {st st' : FFStream} (hwrap : st.wrap = st'.wrap)
    (hbits : st.ptsWrapBits = st'.ptsWrapBits) (pkt : AVPacket) : corrected st pkt = corrected st' pkt := by
  rw [corrected, corrected, wrapTimestamp_congr hwrap hbits, wrapTimestamp_congr hwrap hbits]

/-- The streams of the packets exist, and the shifts are defined for all streams. -/
def Readable (s : AVFormatContext) (pkts : List AVPacket) : Prop :=
  (∀ j < s.nbStreams, 3 ≤ (s.streams j).ptsWrapBits) ∧
    ∀ pkt ∈ pkts, 0 ≤ pkt.streamIndex ∧ pkt.streamIndex < s.nbStreams

theorem Settled.readPackets (h : Settled s i mark) {st : FFStream} (hwrap : st.wrap = mark)
    (hst : st.ptsWrapBits = (s.streams i).ptsWrapBits) {pkts : List AVPacket} (hread : Readable s pkts) :
    ∃ s' qs, readPackets s pkts = some (s', qs) ∧
      List.Forall₂ (fun p q => p.streamIndex = (i : Int) → q = corrected st p) pkts qs := by
  induction pkts generalizing s with
  | nil => exact ⟨s, [], rfl, List.Forall₂.nil⟩
  | cons p pkts ih =>
      obtain ⟨hbits, hvalid⟩ := hread
      have hp := hvalid p List.mem_cons_self
      obtain ⟨s1, q, hstep, hsettled, hkeeps, hq⟩ :=
        @Settled.read s mark p i p.streamIndex.toNat h (by omega) (by omega) (hbits _ (by omega))
      have hrest : Readable s1 pkts := by
        refine ⟨fun j hj => ?_, fun pkt hpkt => ?_⟩ <;> rw [hkeeps.count] at *
        · rw [hkeeps.bits]
          exact hbits j hj
        · exact hvalid pkt (List.mem_cons_of_mem p hpkt)
      obtain ⟨s2, qs, hrun, hqs⟩ := ih hsettled (hst.trans (hkeeps.bits i).symm) hrest
      refine ⟨s2, q :: qs, ?_, List.Forall₂.cons ?_ hqs⟩
      · simp only [Wrap.readPackets, hstep, hrun, Option.bind_eq_bind, Option.bind_some]
      · intro hindex
        obtain ⟨st', hwrap', hbits', rfl⟩ := hq (by omega)
        exact corrected_congr (hwrap'.trans hwrap.symm) (hbits'.trans hst.symm) p

end Runs

section Shift

variable {s : AVFormatContext} {i : Nat} {first : AVPacket} {rest : List AVPacket} {t0 : Int}

/-- The packet as it is stored: only the low bits of the timestamps. -/
def stored (s : AVFormatContext) (i : Nat) (pkt : AVPacket) : AVPacket :=
  if pkt.streamIndex = (i : Int) then
    { pkt with
      dts := pkt.dts.map (· % 2 ^ (s.streams i).ptsWrapBits)
      pts := pkt.pts.map (· % 2 ^ (s.streams i).ptsWrapBits) }
  else pkt

/-- The packets of the stream are the true ones with all timestamps moved by `c`. -/
def Shifted (i : Nat) (c : Int) (original corrected : List AVPacket) : Prop :=
  List.Forall₂ (fun p q => p.streamIndex = (i : Int) →
    q.dts = p.dts.map (· + c) ∧ q.pts = p.pts.map (· + c)) original corrected

def storedStart (s : AVFormatContext) (i : Nat) (t0 : Int) : Int :=
  t0 % 2 ^ (s.streams i).ptsWrapBits

def reach (s : AVFormatContext) (i : Nat) (t0 : Int) : Int :=
  min (margin (s.streams i)) (storedStart s i t0)

theorem margin_nonneg {st : FFStream} (htb : st.timeBase.Positive)
    (hden : st.timeBase.den ≤ int32Max) : 0 ≤ margin st := by
  have hnum := htb.1
  have hden' := htb.2
  have hquotient : 0 ≤ (60 * st.timeBase.den + st.timeBase.num / 2) / st.timeBase.num :=
    Int.ediv_nonneg (by omega) (by omega)
  have hlarge : (60 * st.timeBase.den + st.timeBase.num / 2) / st.timeBase.num ≤ int64Max := by
    have hhalf : st.timeBase.num / 2 ≤ st.timeBase.num := by omega
    apply Int.le_of_lt_add_one
    apply (Int.ediv_lt_iff_lt_mul hnum).mpr
    simp only [int32Max, int64Max] at *
    omega
  have hsixty : ((max (60 : Int) (-int64Max)).natAbs : Int) = 60 := by decide
  simp only [margin, avRescale, hsixty]
  rw [if_neg (by omega), if_neg (not_lt.mpr hlarge), if_neg (by decide)]
  exact hquotient

theorem wrapTimestamp_shift {st : FFStream} (hbits : st.ptsWrapBits < 64) (hw : 0 ≤ margin st)
    (hmark : st.wrap = firstMark st (t0 % 2 ^ st.ptsWrapBits)) (t : Int) :
    wrapTimestamp st (some (t % 2 ^ st.ptsWrapBits)) =
        some (t + (t0 % 2 ^ st.ptsWrapBits + firstShift st (t0 % 2 ^ st.ptsWrapBits) - t0)) ↔
      t0 - min (margin st) (t0 % 2 ^ st.ptsWrapBits) ≤ t ∧
        t < t0 - min (margin st) (t0 % 2 ^ st.ptsWrapBits) + 2 ^ st.ptsWrapBits := by
  have hmodulus : (0 : Int) < 2 ^ st.ptsWrapBits := pow_pos (by decide) _
  have hrange : ∀ x : Int, 0 ≤ x % 2 ^ st.ptsWrapBits ∧ x % 2 ^ st.ptsWrapBits < 2 ^ st.ptsWrapBits :=
    fun x => ⟨Int.emod_nonneg x hmodulus.ne', Int.emod_lt_of_pos x hmodulus⟩
  obtain ⟨y, hy, hmod, hwindow, _⟩ :=
    wrapTimestamp_window hbits hw hmark (hrange t0) (hrange t)
  have hshift : firstShift st (t0 % 2 ^ st.ptsWrapBits) ≡ 0 [ZMOD 2 ^ st.ptsWrapBits] := by
    obtain ⟨_, h⟩ | ⟨_, h⟩ := firstMark_behavior st (t0 % 2 ^ st.ptsWrapBits)
    · rw [h]
    · rw [h]
      exact Int.modEq_zero_iff_dvd.mpr (Int.dvd_neg.mpr dvd_rfl)
  have htrue : y ≡ t + (t0 % 2 ^ st.ptsWrapBits + firstShift st (t0 % 2 ^ st.ptsWrapBits) - t0)
      [ZMOD 2 ^ st.ptsWrapBits] := by
    have hconst := ((Int.mod_modEq t0 (2 ^ st.ptsWrapBits)).add hshift).sub (Int.ModEq.refl t0)
    have hsum := (Int.ModEq.refl t).add hconst
    rw [add_zero, sub_self, add_zero] at hsum
    exact (hmod.trans (Int.mod_modEq t _)).trans hsum.symm
  rw [hy, Option.some_inj, window_unique hwindow htrue]
  constructor <;> intro h <;> constructor <;> omega

theorem wrapTimestamp_start {st : FFStream} (hbits : st.ptsWrapBits < 64) (hw : 0 ≤ margin st)
    (hmark : st.wrap = firstMark st (t0 % 2 ^ st.ptsWrapBits)) :
    wrapTimestamp st (some (t0 % 2 ^ st.ptsWrapBits)) =
      some (t0 + (t0 % 2 ^ st.ptsWrapBits + firstShift st (t0 % 2 ^ st.ptsWrapBits) - t0)) := by
  have hmodulus : (0 : Int) < 2 ^ st.ptsWrapBits := pow_pos (by decide) _
  apply (wrapTimestamp_shift hbits hw hmark t0).mpr
  have hr := Int.emod_nonneg t0 hmodulus.ne'
  omega

/-- The reading of the packets, from the first one of a stream on that no other
stream has given a reference to. -/
theorem readPackets_corrected (hread : Readable s (first :: rest)) (hon : s.correctTsOverflow = true)
    (hb : (s.streams i).ptsWrapBits < 63) (hfresh : Unreferenced s i)
    (hfirst : first.streamIndex = (i : Int)) (ht0 : first.dts = some t0) :
    ∃ (st : FFStream) (s' : AVFormatContext) (qs : List AVPacket),
      readPackets s ((first :: rest).map (stored s i)) = some (s', qs) ∧
        st.timeBase = (s.streams i).timeBase ∧ st.ptsWrapBits = (s.streams i).ptsWrapBits ∧
        st.wrap = firstMark st (storedStart s i t0) ∧
        List.Forall₂ (fun p q => p.streamIndex = (i : Int) → q = corrected st (stored s i p))
          (first :: rest) qs := by
  obtain ⟨hbits, hvalid⟩ := hread
  have hi : i < s.nbStreams := by
    have h := hvalid first List.mem_cons_self
    omega
  set pkt := stored s i first with hpkt
  have hpktIndex : pkt.streamIndex = (i : Int) := by rw [hpkt, stored, if_pos hfirst, hfirst]
  have hpktDts : pkt.dts = some (storedStart s i t0) := by
    rw [hpkt, stored, if_pos hfirst, ht0]
    rfl
  set mark := firstMark (s.streams i) (storedStart s i t0) with hmark
  have hreferenced : mark.reference ≠ none := firstMark_referenced _ _
  have hupdate : updateWrapReference s i pkt = some (true, placeMark s i mark) := by
    have hdefined : ¬((s.streams i).wrap.reference ≠ none ∨ (s.streams i).ptsWrapBits ≥ 63 ∨
        s.correctTsOverflow = false) := by
      rw [hfresh.stream, hon]
      simp only [ne_eq, not_true_eq_false, Bool.true_eq_false, or_false, false_or]
      omega
    have hsmall := hbits i hi
    simp only [updateWrapReference, hpktDts, Option.some_or]
    rw [if_neg hdefined, if_neg (by omega), storedStart, Int.emod_emod_of_dvd _ dvd_rfl]
    rfl
  obtain ⟨s1, hstep, hkeeps1, hwrap1⟩ := ffReadPacket_update hpktIndex hi hupdate
  have hkeeps := (placeMark_keeps hreferenced s i).trans hkeeps1
  have hplaced : ∀ j < s.nbStreams, Linked s i j → ((placeMark s i mark).streams j).wrap = mark :=
    fun j hj hlinked => hfresh.placeMark hreferenced hj hlinked
  have hsettled : Settled s1 i mark := by
    refine ⟨(hwrap1 i).trans (hplaced i hi (linked_self s i)), fun j hj hlinked => ?_⟩
    have hlinked' : Linked s i j := by
      obtain rfl | h := hlinked
      · exact linked_self s j
      · exact hkeeps.linked.mp h
    rw [hwrap1, hplaced j (hkeeps.count ▸ hj) hlinked']
    exact hreferenced
  set st : FFStream := { s.streams i with wrap := mark } with hst
  have hrest : Readable s1 (rest.map (stored s i)) := by
    refine ⟨fun j hj => ?_, fun p hp => ?_⟩
    · rw [hkeeps.bits]
      exact hbits j (hkeeps.count ▸ hj)
    · obtain ⟨p', hp', rfl⟩ := List.mem_map.mp hp
      have h := hvalid p' (List.mem_cons_of_mem first hp')
      rw [hkeeps.count]
      simp only [stored]
      split <;> exact h
  obtain ⟨s2, qs, hrun, hqs⟩ := @Settled.readPackets s1 mark i hsettled st rfl
    (hkeeps.bits i).symm _ hrest
  refine ⟨st, s2, corrected ((placeMark s i mark).streams i) pkt :: qs, ?_, rfl, rfl, rfl, ?_⟩
  · simp only [List.map_cons, readPackets, ← hpkt, hstep, hrun, Option.bind_eq_bind, Option.bind_some]
  · refine List.Forall₂.cons (fun _ => ?_) ?_
    · exact @corrected_congr _ st (hplaced i hi (linked_self s i))
        ((placeMark_keeps hreferenced s i).bits i) _
    · rw [List.forall₂_map_left_iff] at hqs
      refine hqs.imp fun p q h hp => h ?_
      rw [stored, if_pos hp, hp]

theorem forall₂_of_mem {α β : Type} {R R' : α → β → Prop} {xs : List α} {ys : List β}
    (h : List.Forall₂ R xs ys) (himp : ∀ x ∈ xs, ∀ y, R x y → R' x y) : List.Forall₂ R' xs ys := by
  induction h with
  | nil => exact List.Forall₂.nil
  | cons hx _ ih =>
      exact List.Forall₂.cons (himp _ List.mem_cons_self _ hx)
        (ih fun x hx' => himp x (List.mem_cons_of_mem _ hx'))

theorem forall₂_pair {α β : Type} {R R' : α → β → Prop} {xs : List α} {ys : List β}
    (h : List.Forall₂ R xs ys) (h' : List.Forall₂ R' xs ys) : ∀ x ∈ xs, ∃ y, R x y ∧ R' x y := by
  induction h with
  | nil => exact fun _ hx => absurd hx List.not_mem_nil
  | cons hx _ ih =>
      obtain _ | ⟨hx', hrest⟩ := h'
      intro x hmem
      obtain rfl | hmem := List.mem_cons.mp hmem
      · exact ⟨_, hx, hx'⟩
      · exact ih hrest x hmem

theorem wrapTimestamp_none (st : FFStream) : wrapTimestamp st none = none := by
  cases h : st.wrap.reference with
  | none | some reference => simp only [wrapTimestamp, h]

/-- All timestamps of the stream are moved alike exactly when they are in the window
of one period that starts at the margin before the first one, or at the wrap
before it if that is nearer. -/
theorem one_shift_iff (hread : Readable s (first :: rest)) (hon : s.correctTsOverflow = true)
    (hb : (s.streams i).ptsWrapBits < 63) (htb : (s.streams i).timeBase.Positive)
    (hden : (s.streams i).timeBase.den ≤ int32Max) (hfresh : Unreferenced s i)
    (hfirst : first.streamIndex = (i : Int)) (ht0 : first.dts = some t0) :
    ∃ s' qs, readPackets s ((first :: rest).map (stored s i)) = some (s', qs) ∧
      ((∃ c, Shifted i c (first :: rest) qs) ↔
        ∀ p ∈ first :: rest, p.streamIndex = (i : Int) → ∀ t, t ∈ p.dts ∨ t ∈ p.pts →
          t0 - reach s i t0 ≤ t ∧ t < t0 - reach s i t0 + 2 ^ (s.streams i).ptsWrapBits) := by
  obtain ⟨st, s', qs, hrun, hst, hbits, hwrap, hqs⟩ :=
    readPackets_corrected hread hon hb hfresh hfirst ht0
  refine ⟨s', qs, hrun, ?_⟩
  have hmargin : margin st = margin (s.streams i) := by rw [margin, margin, hst]
  have hw : 0 ≤ margin st := hmargin ▸ margin_nonneg htb hden
  rw [storedStart, ← hbits] at hwrap
  rw [← hbits] at hb
  have hshift := @wrapTimestamp_shift t0 st (by omega) hw hwrap
  have hstart := @wrapTimestamp_start t0 st (by omega) hw hwrap
  simp only [reach, storedStart, ← hmargin, ← hbits]
  generalize t0 % 2 ^ st.ptsWrapBits + firstShift st (t0 % 2 ^ st.ptsWrapBits) - t0 = c at *
  have hstored : ∀ p : AVPacket, p.streamIndex = (i : Int) →
      (corrected st (stored s i p)).dts = wrapTimestamp st (p.dts.map (· % 2 ^ st.ptsWrapBits)) ∧
        (corrected st (stored s i p)).pts =
          wrapTimestamp st (p.pts.map (· % 2 ^ st.ptsWrapBits)) := by
    intro p hp
    rw [corrected, stored, if_pos hp, hbits]
    exact ⟨rfl, rfl⟩
  constructor
  · rintro ⟨c', hc'⟩ p hp hpi t ht
    obtain rfl : c' = c := by
      obtain _ | ⟨hq, _⟩ := hqs
      obtain _ | ⟨hq', _⟩ := hc'
      have hdts := (hq' hfirst).1
      rw [hq hfirst, (hstored first hfirst).1, ht0] at hdts
      have hsum : t0 + c = t0 + c' := Option.some.inj (hstart.symm.trans hdts)
      omega
    obtain ⟨q, hq, hq'⟩ := forall₂_pair hqs hc' p hp
    obtain rfl := hq hpi
    apply (hshift t).mp
    obtain ht | ht := ht
    · have hdts := (hq' hpi).1
      rw [(hstored p hpi).1, Option.mem_def.mp ht] at hdts
      exact hdts
    · have hpts := (hq' hpi).2
      rw [(hstored p hpi).2, Option.mem_def.mp ht] at hpts
      exact hpts
  · intro hwindow
    refine ⟨c, forall₂_of_mem hqs fun p hp q hq hpi => ?_⟩
    have hmoved : ∀ ts : Option Int, (∀ t ∈ ts, t ∈ p.dts ∨ t ∈ p.pts) →
        wrapTimestamp st (ts.map (· % 2 ^ st.ptsWrapBits)) = ts.map (· + c) := by
      intro ts hts
      cases ts with
      | none => exact wrapTimestamp_none st
      | some t => exact (hshift t).mpr (hwindow p hp hpi t (hts t rfl))
    rw [hq hpi, (hstored p hpi).1, (hstored p hpi).2]
    exact ⟨hmoved p.dts fun _ => .inl, hmoved p.pts fun _ => .inr⟩

end Shift

def lone : AVFormatContext where
  nbStreams := 1
  streams _ :=
    { codecType := .video, attachedPic := false, width := 640, height := 480, sampleRate := 0
      codecInfoNbFrames := 0, discardAll := false, timeBase := ⟨1, 90000⟩, ptsWrapBits := 33
      wrap := ⟨none, .ignore⟩, firstDts := none, startTime := none, curDts := none }
  programs := []
  correctTsOverflow := true

def timed (dts pts : Int) : AVPacket := { AVPacket.blank with dts := some dts, pts := some pts }

/-- A first timestamp near the wrap. -/
theorem one_shift_iff_near_wrap :
    ∃ s' qs, readPackets lone ([timed 8589934000 8589934000, timed 8589937000 8589937600,
        timed 8589931000 8589934600].map (stored lone 0)) = some (s', qs) ∧
      ((∃ c, Shifted 0 c [timed 8589934000 8589934000, timed 8589937000 8589937600,
          timed 8589931000 8589934600] qs) ↔
        ∀ p ∈ [timed 8589934000 8589934000, timed 8589937000 8589937600,
            timed 8589931000 8589934600], p.streamIndex = ((0 : Nat) : Int) →
          ∀ t, t ∈ p.dts ∨ t ∈ p.pts →
            8589934000 - reach lone 0 8589934000 ≤ t ∧
              t < 8589934000 - reach lone 0 8589934000 + 2 ^ (lone.streams 0).ptsWrapBits) :=
  one_shift_iff ⟨by decide, by decide⟩ rfl (by decide) ⟨by decide, by decide⟩ (by decide)
    ⟨rfl, rfl, fun _ hk => absurd hk List.not_mem_nil⟩ rfl rfl

/-- A packet just before a first one at zero is not moved as that one, and neither
is a presentation timestamp one period after the first. -/
theorem before_zero_moved_apart :
    (0 - margin (lone.streams 0) ≤ -1 ∧
        ∃ s' qs, readPackets lone ([timed 0 0, timed (-1) (-1)].map (stored lone 0)) = some (s', qs) ∧
          ¬∃ c, Shifted 0 c [timed 0 0, timed (-1) (-1)] qs) ∧
      ∃ s' qs, readPackets lone ([timed 10000000 8599934592].map (stored lone 0)) = some (s', qs) ∧
        ¬∃ c, Shifted 0 c [timed 10000000 8599934592] qs := by
  refine ⟨⟨by decide, ?_⟩, ?_⟩
  · obtain ⟨⟨s', qs⟩, hrun⟩ := Option.isSome_iff_exists.mp (by decide +kernel :
      (readPackets lone ([timed 0 0, timed (-1) (-1)].map (stored lone 0))).isSome = true)
    have hqs : some qs = some [timed 0 0, timed 8589934591 8589934591] :=
      (congrArg (Option.map Prod.snd) hrun).symm.trans (by decide +kernel)
    obtain rfl := Option.some.inj hqs
    refine ⟨s', _, hrun, ?_⟩
    rintro ⟨c, hc⟩
    obtain _ | ⟨h0, _ | ⟨h1, _⟩⟩ := hc
    have hfirst : (0 : Int) = 0 + c := Option.some.inj (h0 rfl).1
    have hsecond : (8589934591 : Int) = -1 + c := Option.some.inj (h1 rfl).1
    omega
  · obtain ⟨⟨s', qs⟩, hrun⟩ := Option.isSome_iff_exists.mp (by decide +kernel :
      (readPackets lone ([timed 10000000 8599934592].map (stored lone 0))).isSome = true)
    have hqs : some qs = some [timed 10000000 10000000] :=
      (congrArg (Option.map Prod.snd) hrun).symm.trans (by decide +kernel)
    obtain rfl := Option.some.inj hqs
    refine ⟨s', _, hrun, ?_⟩
    rintro ⟨c, hc⟩
    obtain _ | ⟨h0, _⟩ := hc
    have hdts : (10000000 : Int) = 10000000 + c := Option.some.inj (h0 rfl).1
    have hpts : (10000000 : Int) = 8599934592 + c := Option.some.inj (h0 rfl).2
    omega

end P2PFFmpeg.Demux.Wrap
