import P2PFFmpeg.Mux.Interleave
import Mathlib.Data.List.TakeWhile

namespace P2PFFmpeg.Mux

open Util Library Library.HeapList
open Output (insertPacket insertPacket_split insertPacket_congr tsValue)

section Cells

variable {cells front back : List (Ptr × AVPacket)} {c : Ptr × AVPacket} {i : Nat}

def OfStream (i : Nat) (c : Ptr × AVPacket) : Bool := c.2.streamIndex.toNat == i

def lastOf (i : Nat) (cells : List (Ptr × AVPacket)) : Option (Ptr × AVPacket) :=
  (cells.filter (OfStream i)).getLast?

theorem lastOf_insert_same (hc : OfStream i c = true) (hback : ∀ d ∈ back, OfStream i d = false) :
    lastOf i (front ++ c :: back) = some c := by
  have hnone : back.filter (OfStream i) = [] := by
    apply List.filter_eq_nil_iff.mpr
    intro d hd
    rw [hback d hd]
    exact Bool.false_ne_true
  rw [lastOf, List.filter_append, List.filter_cons_of_pos hc, hnone, List.getLast?_concat]

theorem lastOf_insert_other (hc : OfStream i c = false) :
    lastOf i (front ++ c :: back) = lastOf i (front ++ back) := by
  have hneg : ¬ OfStream i c = true := by
    rw [hc]
    exact Bool.false_ne_true
  rw [lastOf, List.filter_append, List.filter_cons_of_neg hneg, ← List.filter_append, lastOf]

theorem lastOf_cons_other (hc : OfStream i c = false) : lastOf i (c :: cells) = lastOf i cells :=
  @lastOf_insert_other [] cells c i hc

theorem lastOf_cons_same (hc : OfStream i c = true) :
    lastOf i (c :: cells) = some ((lastOf i cells).getD c) := by
  rw [lastOf, List.filter_cons_of_pos hc, List.getLast?_cons, lastOf]

theorem lastOf_mem {d : Ptr × AVPacket} (h : lastOf i cells = some d) : d ∈ cells :=
  List.mem_of_mem_filter (List.mem_of_getLast? h)

/-- A list ends its part of a stream somewhere: behind the last packet of it, or at the start. -/
theorem lastOf_split (i : Nat) (cells : List (Ptr × AVPacket)) :
    ∃ front back, cells = front ++ back ∧ (∀ d ∈ back, OfStream i d = false) ∧
      (∀ d ∈ front.getLast?, OfStream i d = true) ∧ lastOf i cells = front.getLast? := by
  induction cells with
  | nil => exact ⟨[], [], rfl, by simp, by simp, rfl⟩
  | cons c cells ih =>
      obtain ⟨front, back, rfl, hback, hfront, hlast⟩ := ih
      cases front with
      | nil =>
          cases hc : OfStream i c with
          | true => exact ⟨[c], back, rfl, hback, by simpa using hc, @lastOf_insert_same [] back c i hc hback⟩
          | false =>
              refine ⟨[], c :: back, rfl, ?_, by simp, ?_⟩
              · intro d hd
                rcases List.mem_cons.mp hd with rfl | hd
                · exact hc
                · exact hback d hd
              · exact (lastOf_cons_other hc).trans hlast
      | cons d front =>
          refine ⟨c :: d :: front, back, rfl, hback, ?_, ?_⟩
          · rwa [List.getLast?_cons_cons]
          · rw [List.getLast?_cons_cons, ← hlast]
            cases hc : OfStream i c with
            | false => exact lastOf_cons_other hc
            | true =>
                obtain ⟨e, he⟩ := Option.ne_none_iff_exists'.mp
                  (mt List.getLast?_eq_none_iff.mp (List.cons_ne_nil d front))
                have hsome := hlast.trans he
                rw [List.cons_append] at hsome ⊢
                rw [lastOf_cons_same hc, hsome]
                rfl

end Cells

structure Interleaver.Holds (s : Interleaver) (cells : List (Ptr × AVPacket)) : Prop where
  has : s.list.Has cells
  nodup : (addrs cells).Nodup
  below : ∀ p ∈ addrs cells, p < s.fresh
  count : cells.length ≤ s.fresh
  tail : s.tail = cells.getLast?.map Prod.fst
  hints : ∀ i, s.lastInPacketBuffer i = (lastOf i cells).map Prod.fst

section Holds

variable {s : Interleaver} {cells front back : List (Ptr × AVPacket)} {pkt : AVPacket}
  {compare : AVPacket → AVPacket → Bool}

theorem holds_empty : Interleaver.empty.Holds [] where
  has := rfl
  nodup := List.nodup_nil
  below := by simp [addrs]
  count := Nat.le_refl _
  tail := rfl
  hints := fun _ => rfl

theorem seekLink_spec {l : HeapList AVPacket} (later : AVPacket → Bool) {rounds : Nat}
    (h : l.Has (front ++ back)) (hrounds : back.length < rounds) :
    seekLink l later rounds (linkBehind front) =
      some (linkBehind (front ++ back.takeWhile fun c => !later c.2)) := by
  induction back generalizing front rounds with
  | nil =>
      obtain ⟨rounds, rfl⟩ : ∃ k, rounds = k + 1 := ⟨rounds - 1, by simp at hrounds; omega⟩
      have hend : l.follow (linkBehind front) = none := h.follow
      rw [seekLink, hend, List.takeWhile_nil, List.append_nil]
  | cons c back ih =>
      obtain ⟨rounds, rfl⟩ : ∃ k, rounds = k + 1 := ⟨rounds - 1, by simp at hrounds; omega⟩
      obtain ⟨hnext, hitem, _⟩ := h.follow
      rw [seekLink, hnext]
      simp only [hitem]
      cases hlater : later c.2 with
      | true => simp [hlater]
      | false =>
          have hmore : l.Has ((front ++ [c]) ++ back) := by simpa using h
          have hgo := ih hmore (by simpa using hrounds)
          rw [linkBehind_snoc] at hgo
          simpa [hlater] using hgo

structure GoesBetween (compare : AVPacket → AVPacket → Bool) (pkt : AVPacket)
    (front back : List (Ptr × AVPacket)) : Prop where
  others : ∀ c ∈ back, OfStream pkt.streamIndex.toNat c = false
  before : ∀ c ∈ front.getLast?,
    OfStream pkt.streamIndex.toNat c = true ∨ compare c.2 pkt = false
  behind : ∀ c ∈ back.head?, compare c.2 pkt = true

/-- The stream indices in front of a packet's place and behind it, as the muxer
tells them apart. -/
theorem insertPacket_cells (hindex : ∀ c ∈ front ++ back, 0 ≤ c.2.streamIndex)
    (hpkt : 0 ≤ pkt.streamIndex) (hback : ∀ c ∈ back, OfStream pkt.streamIndex.toNat c = false)
    (hfront : ∀ c ∈ front.getLast?, OfStream pkt.streamIndex.toNat c = true) :
    insertPacket compare pkt ((front ++ back).map Prod.snd) =
      match back.getLast? with
      | none => (front ++ back).map Prod.snd ++ [pkt]
      | some tail =>
          if compare tail.2 pkt then
            (front ++ back.takeWhile fun c => !compare c.2 pkt).map Prod.snd ++
              pkt :: (back.dropWhile fun c => !compare c.2 pkt).map Prod.snd
          else (front ++ back).map Prod.snd ++ [pkt] := by
  have hothers : ∀ p ∈ back.map Prod.snd, p.streamIndex ≠ pkt.streamIndex := by
    intro p hp heq
    obtain ⟨c, hc, rfl⟩ := List.mem_map.mp hp
    have hother := hback c hc
    simp [OfStream, heq] at hother
  have hown : ∀ p ∈ (front.map Prod.snd).getLast?, p.streamIndex = pkt.streamIndex := by
    intro p hp
    rw [List.getLast?_map] at hp
    obtain ⟨c, hc, rfl⟩ := Option.map_eq_some_iff.mp hp
    have hmine := hfront c hc
    have hpos := hindex c (List.mem_append_left _ (List.mem_of_getLast? hc))
    simp only [OfStream, beq_iff_eq] at hmine
    omega
  rw [List.map_append, insertPacket_split hothers hown, List.getLast?_map, List.takeWhile_map,
    List.dropWhile_map]
  cases back.getLast? with
  | none => rfl
  | some tail => simp only [Option.map_some, List.map_append, Function.comp_def]

theorem Interleaver.Holds.nextPoint (h : s.Holds cells) (compare : AVPacket → AVPacket → Bool)
    (pkt : AVPacket) :
    ∃ front back, cells = front ++ back ∧ s.nextPoint compare pkt = some (linkBehind front) ∧
      GoesBetween compare pkt front back ∧
      ((∀ c ∈ cells, 0 ≤ c.2.streamIndex) → 0 ≤ pkt.streamIndex →
        insertPacket compare pkt (cells.map Prod.snd) =
          front.map Prod.snd ++ pkt :: back.map Prod.snd) := by
  obtain ⟨front, back, rfl, hback, hfront, hlast⟩ := lastOf_split pkt.streamIndex.toNat cells
  have hhint : s.hintedLink pkt.streamIndex.toNat = linkBehind front := by
    rw [Interleaver.hintedLink, h.hints, hlast, linkBehind]
    cases front.getLast? <;> rfl
  have hfollow := h.has.follow
  rw [Interleaver.nextPoint]
  simp only [hhint]
  rcases List.eq_nil_or_concat' back with rfl | ⟨middle, last, rfl⟩
  · have hend : s.list.follow (linkBehind front) = none := hfollow
    refine ⟨front, [], rfl, by simp [hend], ⟨hback, ?_, by simp⟩, ?_⟩
    · intro c hc
      exact .inl (hfront c hc)
    · intro hindex hpkt
      rw [insertPacket_cells hindex hpkt hback hfront, List.append_nil]
      rfl
  · have hmore : (s.list.follow (linkBehind front)).isSome = true := by
      rw [hfollow.head]
      cases middle <;> rfl
    have htail : s.tail = some last.1 := by
      rw [h.tail, ← List.append_assoc, List.getLast?_concat]
      rfl
    have hitem : (s.list.heap last.1).item = last.2 := Leads.item h.has (by simp)
    rw [if_pos hmore]
    simp only [htail, hitem]
    cases hcompare : compare last.2 pkt with
    | false =>
        refine ⟨front ++ (middle ++ [last]), [], (List.append_nil _).symm, ?_, ⟨by simp, ?_, by simp⟩, ?_⟩
        · rw [← List.append_assoc, linkBehind_snoc]
          rfl
        · intro c hc
          rw [← List.append_assoc, List.getLast?_concat] at hc
          cases hc
          exact .inr hcompare
        · intro hindex hpkt
          rw [insertPacket_cells hindex hpkt hback hfront, List.getLast?_concat]
          dsimp only
          rw [if_neg (by rw [hcompare]; exact Bool.false_ne_true)]
          rfl
    | true =>
        have hrounds : (middle ++ [last]).length < s.fresh + 1 := by
          have hcount := h.count
          rw [List.length_append] at hcount
          omega
        rw [if_pos rfl, seekLink_spec (fun next => compare next pkt) h.has hrounds]
        generalize hpassed : (middle ++ [last]).takeWhile (fun c => !compare c.2 pkt) = passed
        generalize hrest : (middle ++ [last]).dropWhile (fun c => !compare c.2 pkt) = rest
        have hsplit : middle ++ [last] = passed ++ rest := by
          rw [← hpassed, ← hrest, List.takeWhile_append_dropWhile]
        refine ⟨front ++ passed, rest, by rw [hsplit, List.append_assoc], rfl, ⟨?_, ?_, ?_⟩, ?_⟩
        · intro c hc
          exact hback c (hsplit ▸ List.mem_append_right _ hc)
        · intro c hc
          rcases List.eq_nil_or_concat' passed with rfl | ⟨start, c', rfl⟩
          · rw [List.append_nil] at hc
            exact .inl (hfront c hc)
          · rw [← List.append_assoc, List.getLast?_concat] at hc
            cases hc
            have hmem : c ∈ (middle ++ [last]).takeWhile fun c => !compare c.2 pkt := by
              rw [hpassed]
              exact List.mem_append_right start List.mem_cons_self
            exact .inr (by simpa using List.mem_takeWhile_imp hmem)
        · intro c hc
          rw [← hrest] at hc
          have hstop := List.head?_dropWhile_not (fun c : Ptr × AVPacket => !compare c.2 pkt) (middle ++ [last])
          rw [Option.mem_def.mp hc] at hstop
          simpa using hstop
        · intro hindex hpkt
          rw [insertPacket_cells hindex hpkt hback hfront, List.getLast?_concat]
          dsimp only
          rw [if_pos hcompare, hpassed, hrest]

/-- The entry is written at its link, and the tail and the hint of its stream follow. -/
theorem Interleaver.Holds.insert (h : s.Holds (front ++ back)) (hplace : GoesBetween compare pkt front back) :
    Interleaver.Holds { s with
      list := s.list.insertAt (linkBehind front) s.fresh pkt
      tail := if (s.list.follow (linkBehind front)).isNone then some s.fresh else s.tail
      fresh := s.fresh + 1
      lastInPacketBuffer :=
        Function.update s.lastInPacketBuffer pkt.streamIndex.toNat (some s.fresh) }
      (front ++ (s.fresh, pkt) :: back) := by
  have hnew : s.fresh ∉ addrs (front ++ back) := fun hmem => Nat.lt_irrefl _ (h.below _ hmem)
  have haddrs : addrs (front ++ (s.fresh, pkt) :: back) = addrs front ++ s.fresh :: addrs back := by
    simp [addrs]
  have hbefore : addrs (front ++ back) = addrs front ++ addrs back := List.map_append
  refine ⟨h.has.insertAt h.nodup hnew pkt, ?_, ?_, ?_, ?_, ?_⟩
  · rw [haddrs, List.nodup_middle, ← hbefore]
    exact List.nodup_cons.mpr ⟨hnew, h.nodup⟩
  · intro p hp
    rw [haddrs, List.mem_append, List.mem_cons] at hp
    have hold : p ∈ addrs (front ++ back) → p < s.fresh + 1 := fun hmem =>
      Nat.lt_succ_of_lt (h.below p hmem)
    rw [hbefore, List.mem_append] at hold
    rcases hp with hp | rfl | hp
    · exact hold (.inl hp)
    · exact Nat.lt_succ_self _
    · exact hold (.inr hp)
  · have hcount := h.count
    simp only [List.length_append, List.length_cons] at hcount ⊢
    omega
  · simp only [h.has.follow.head]
    cases back with
    | nil => simp
    | cons c back => simp [h.tail]
  · intro i
    by_cases hi : i = pkt.streamIndex.toNat
    · subst hi
      have hlast := @lastOf_insert_same front back (s.fresh, pkt) _ (by simp [OfStream]) hplace.others
      exact (Function.update_self ..).trans (by rw [hlast]; rfl)
    · have hother : OfStream i (s.fresh, pkt) = false := by
        simpa [OfStream] using fun heq => hi heq.symm
      exact (Function.update_of_ne hi ..).trans (by rw [lastOf_insert_other hother]; exact h.hints i)

theorem ffInterleaveAddPacket_spec (h : s.Holds cells) (pkt : AVPacket)
    (compare : AVPacket → AVPacket → Bool) (memory : AddMemory) :
    (∃ ret, ret < 0 ∧ ffInterleaveAddPacket s pkt compare memory = some (ret, s)) ∨
      ∃ front back s', cells = front ++ back ∧ GoesBetween compare pkt front back ∧
        ffInterleaveAddPacket s pkt compare memory = some (0, s') ∧
        s'.Holds (front ++ (s.fresh, pkt) :: back) ∧ s'.shortestEnd = s.shortestEnd ∧
        ((∀ c ∈ cells, 0 ≤ c.2.streamIndex) → 0 ≤ pkt.streamIndex →
          insertPacket compare pkt (cells.map Prod.snd) =
            front.map Prod.snd ++ pkt :: back.map Prod.snd) := by
  rw [ffInterleaveAddPacket]
  by_cases hallocated : memory.allocated = false
  · exact .inl ⟨averrorEnomem, by decide, if_pos hallocated⟩
  · by_cases hrefcounted : memory.refcounted < 0
    · exact .inl ⟨memory.refcounted, hrefcounted, by rw [if_neg hallocated, if_pos hrefcounted]⟩
    · obtain ⟨front, back, rfl, hnext, hplace, hinserted⟩ := h.nextPoint compare pkt
      rw [if_neg hallocated, if_neg hrefcounted, hnext]
      exact .inr ⟨front, back, _, rfl, hplace, rfl, h.insert hplace, rfl, hinserted⟩

structure SameStreams (o : MuxOptions) (c : Output.AVFormatContext) : Prop where
  preload : o.audioPreload = 0
  timeBase : ∀ i st, c.stream i = some st → (o.stream i.toNat).timeBase = st.timeBase

theorem SameStreams.interleaveCompareDts {o : MuxOptions} {c : Output.AVFormatContext}
    (h : SameStreams o c) {next pkt : AVPacket} (hnext : (c.stream next.streamIndex).isSome = true)
    (hpkt : (c.stream pkt.streamIndex).isSome = true) :
    Output.interleaveCompareDts c next pkt = interleaveCompareDts o next pkt := by
  obtain ⟨st2, hst2⟩ := Option.isSome_iff_exists.mp hnext
  obtain ⟨st, hst⟩ := Option.isSome_iff_exists.mp hpkt
  have hcomp : o.compDts next pkt =
      avCompareTs (tsValue next.dts) st2.timeBase (tsValue pkt.dts) st.timeBase := by
    rw [MuxOptions.compDts, if_neg fun hpreload => hpreload.1 h.preload, MuxOptions.streamOf,
      MuxOptions.streamOf, h.timeBase _ _ hst2, h.timeBase _ _ hst]
  rw [Output.interleaveCompareDts, hst, hst2, Mux.interleaveCompareDts, hcomp]

theorem stream_nonneg {c : Output.AVFormatContext} {i : Int} (h : (c.stream i).isSome = true) :
    0 ≤ i := by
  rw [Output.AVFormatContext.stream] at h
  split at h
  · assumption
  · cases h

/-- The list with its hints takes a packet in where the buffer of the muxer, a plain
list, has it inserted. -/
theorem added_as_inserted (h : s.Holds cells) {o : MuxOptions} {c : Output.AVFormatContext}
    (hsame : SameStreams o c) (hbuffer : c.packetBuffer = cells.map Prod.snd)
    (hstreams : ∀ p ∈ pkt :: c.packetBuffer, (c.stream p.streamIndex).isSome = true)
    {memory : AddMemory} {s' : Interleaver}
    (hadd : ffInterleaveAddPacket s pkt (interleaveCompareDts o) memory = some (0, s')) :
    ∃ cells', s'.Holds cells' ∧ cells'.map Prod.snd =
      insertPacket (Output.interleaveCompareDts c) pkt c.packetBuffer := by
  have hpkt := hstreams pkt List.mem_cons_self
  have hcompare : ∀ p ∈ c.packetBuffer,
      Output.interleaveCompareDts c p pkt = interleaveCompareDts o p pkt := fun p hp =>
    hsame.interleaveCompareDts (hstreams p (List.mem_cons_of_mem _ hp)) hpkt
  have hindex : ∀ d ∈ cells, 0 ≤ d.2.streamIndex := by
    intro d hd
    apply stream_nonneg (hstreams d.2 (List.mem_cons_of_mem _ _))
    rw [hbuffer]
    exact List.mem_map_of_mem hd
  obtain ⟨ret, hret, hfails⟩ | ⟨front, back, s₁, rfl, -, hadds, hholds, -, hinserted⟩ :=
    ffInterleaveAddPacket_spec h pkt (interleaveCompareDts o) memory
  · rw [hfails] at hadd
    cases hadd
    exact absurd hret (lt_irrefl 0)
  · rw [hadds] at hadd
    cases hadd
    refine ⟨_, hholds, ?_⟩
    rw [insertPacket_congr hcompare, hbuffer, hinserted hindex (stream_nonneg hpkt),
      List.map_append, List.map_cons]

theorem Interleaver.Holds.popHead_nil (h : s.Holds []) : s.popHead = none := by
  have hhead : s.list.head = none := h.has
  rw [Interleaver.popHead, hhead]
  rfl

theorem Interleaver.Holds.unlinkHead {c : Ptr × AVPacket} (h : s.Holds (c :: cells)) :
    (s.unlinkHead c.1).Holds cells := by
  obtain ⟨_, hitem, hrest⟩ := h.has
  obtain ⟨hc, hnodup⟩ := List.nodup_cons.mp h.nodup
  have hcount := h.count
  rw [List.length_cons] at hcount
  refine ⟨hrest, hnodup, ?_, Nat.le_of_succ_le hcount, ?_, ?_⟩
  · exact fun p hp => h.below p (List.mem_cons_of_mem _ hp)
  · rw [Interleaver.unlinkHead, hrest.head, h.tail]
    cases cells with
    | nil => rfl
    | cons d cells =>
        rw [List.getLast?_cons_cons]
        rfl
  · intro i
    have hmine : OfStream c.2.streamIndex.toNat c = true := by simp [OfStream]
    have hcleared := h.hints c.2.streamIndex.toNat
    rw [lastOf_cons_same hmine] at hcleared
    have hother : i ≠ c.2.streamIndex.toNat → s.lastInPacketBuffer i = (lastOf i cells).map Prod.fst := by
      intro hi
      rw [h.hints, lastOf_cons_other (by simpa [OfStream] using fun heq => hi heq.symm)]
    rw [Interleaver.unlinkHead]
    simp only [hitem]
    cases hlast : lastOf c.2.streamIndex.toNat cells with
    | none =>
        rw [hlast] at hcleared
        have hpoints : s.lastInPacketBuffer c.2.streamIndex.toNat = some c.1 := hcleared
        rw [if_pos hpoints]
        by_cases hi : i = c.2.streamIndex.toNat
        · rw [hi, Function.update_self, hlast]
          rfl
        · rw [Function.update_of_ne hi, hother hi]
    | some d =>
        rw [hlast] at hcleared
        have hne : d.1 ≠ c.1 := by
          intro heq
          exact hc (heq ▸ List.mem_map_of_mem (lastOf_mem hlast))
        rw [if_neg (by rw [hcleared]; simpa using hne)]
        by_cases hi : i = c.2.streamIndex.toNat
        · rw [hi, hcleared, hlast]
          rfl
        · exact hother hi

theorem Interleaver.Holds.popHead_cons {c : Ptr × AVPacket} (h : s.Holds (c :: cells)) :
    ∃ s', s.popHead = some (c.2, s') ∧ s'.Holds cells ∧ s'.fresh = s.fresh ∧
      s'.shortestEnd = s.shortestEnd := by
  obtain ⟨hhead, hitem, hrest⟩ := h.has
  refine ⟨s.unlinkHead c.1, ?_, h.unlinkHead, rfl, rfl⟩
  rw [Interleaver.popHead, hhead, Option.map_some, hitem]

end Holds

end P2PFFmpeg.Mux
