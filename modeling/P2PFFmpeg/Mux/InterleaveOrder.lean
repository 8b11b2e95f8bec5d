import P2PFFmpeg.Mux.InterleaveRuns

namespace P2PFFmpeg.Mux

open Util Library Library.HeapList Library.Transition
open Output (tsValue)

def MuxOptions.timeOfDts (o : MuxOptions) (pkt : AVPacket) : ℚ :=
  timeOf (tsValue pkt.dts) (o.streamOf pkt).timeBase

def Comparable (o : MuxOptions) (pkts : List AVPacket) : Prop :=
  ∀ p ∈ pkts, -int64Max ≤ tsValue p.dts ∧
    ∀ q ∈ pkts, Fits (tsValue p.dts) (o.streamOf p).timeBase (o.streamOf q).timeBase

theorem Comparable.mono {o : MuxOptions} {pkts more : List AVPacket} (h : Comparable o (pkts ++ more)) :
    Comparable o pkts := fun p hp =>
  ⟨(h p (List.mem_append_left _ hp)).1, fun q hq =>
    (h p (List.mem_append_left _ hp)).2 q (List.mem_append_left _ hq)⟩

/-- The options under which the output is in order. -/
structure InOrder (o : MuxOptions) : Prop where
  delta : o.maxInterleaveDelta = 0
  streams : ∀ i < o.nbStreams,
    (o.stream i).codecType ≠ .attachment ∧ (o.stream i).codecId ≠ .smpte2038
  shortest : o.shortest = false
  preload : o.audioPreload = 0

section Order

variable {o : MuxOptions} {s s' : Interleaver} {added : List AVPacket} {left : List (AVPacket × Bool)}
  {cells : List (Ptr × AVPacket)} {h : InterleaveHistory}

def TimeLe (o : MuxOptions) (p q : AVPacket) : Prop := o.timeOfDts p ≤ o.timeOfDts q

def NotBehind (o : MuxOptions) (p q : AVPacket) : Prop :=
  o.timeOfDts p < o.timeOfDts q ∨ o.timeOfDts p = o.timeOfDts q ∧ p.streamIndex ≤ q.streamIndex

theorem NotBehind.trans {p q r : AVPacket} (h : NotBehind o p q) (h' : NotBehind o q r) :
    NotBehind o p r := by
  obtain h | ⟨h, hle⟩ := h
  · obtain h' | ⟨h', _⟩ := h'
    · exact .inl (lt_trans h h')
    · exact .inl (h' ▸ h)
  · obtain h' | ⟨h', hle'⟩ := h'
    · exact .inl (h ▸ h')
    · exact .inr ⟨h.trans h', le_trans hle hle'⟩

theorem NotBehind.timeLe {p q : AVPacket} (h : NotBehind o p q) : TimeLe o p q := by
  obtain h | ⟨h, _⟩ := h
  · exact le_of_lt h
  · exact le_of_eq h

theorem notBehind_iff (hpreload : o.audioPreload = 0) (hpkts : Comparable o added) {a b : AVPacket}
    (ha : a ∈ added) (hb : b ∈ added) : interleaveCompareDts o a b = false ↔ NotBehind o a b := by
  have hcomp : o.compDts a b = avCompareTs (tsValue a.dts) (o.streamOf a).timeBase (tsValue b.dts)
      (o.streamOf b).timeBase := by
    rw [MuxOptions.compDts, if_neg (by simp [hpreload])]
  obtain ⟨hlt, hle⟩ : (o.compDts a b < 0 ↔ o.timeOfDts a < o.timeOfDts b) ∧
      (o.compDts a b ≤ 0 ↔ o.timeOfDts a ≤ o.timeOfDts b) := by
    rw [hcomp]
    exact avCompareTs_exact (o.streamOf a).positive (o.streamOf b).positive
      ((hpkts a ha).2 b hb) ((hpkts b hb).2 a ha) (hpkts a ha).1 (hpkts b hb).1
  simp only [NotBehind, interleaveCompareDts]
  rcases lt_trichotomy (o.compDts a b) 0 with hneg | hzero | hpos
  · simp [hneg.ne, hneg.le, hlt.mp hneg]
  · have hnot : ¬ o.timeOfDts a < o.timeOfDts b := mt hlt.mpr (by omega)
    have hequal := le_antisymm (hle.mp hzero.le) (not_lt.mp hnot)
    simp [hzero, hequal]
  · have hnot : ¬ o.timeOfDts a ≤ o.timeOfDts b := mt hle.mpr (by omega)
    have hafter : ¬ (o.timeOfDts a < o.timeOfDts b ∨ o.timeOfDts a = o.timeOfDts b ∧
        a.streamIndex ≤ b.streamIndex) := by
      rintro (h | ⟨h, _⟩)
      · exact hnot h.le
      · exact hnot h.le
    simp [hpos.ne', hpos, hafter]

theorem Interleaved.notBehind (hi : Interleaved o s added left cells) (hpreload : o.audioPreload = 0)
    (hpkts : Comparable o added) : (cells.map Prod.snd).Pairwise (NotBehind o) := by
  have hchain : cells.IsChain fun c d => NotBehind o c.2 d.2 := by
    refine (hi.sorted (.inl hpreload)).imp_of_mem_imp ?_
    intro c d hc hd hcompare
    exact (notBehind_iff hpreload hpkts (hi.mem hc) (hi.mem hd)).mp hcompare
  have htrans : IsTrans (Ptr × AVPacket) fun c d => NotBehind o c.2 d.2 :=
    ⟨fun _ _ _ => NotBehind.trans⟩
  rw [List.pairwise_map]
  exact List.isChain_iff_pairwise.mp hchain

theorem Interleaved.pairwise (hi : Interleaved o s added left cells) (ho : InOrder o)
    (hpkts : Comparable o added) : (cells.map Prod.snd).Pairwise (TimeLe o) :=
  (hi.notBehind ho.preload hpkts).imp NotBehind.timeLe

theorem streamCount_all (hholds : s.Holds cells) (hcount : s.streamCount o = o.nbStreams) {i : Nat}
    (hi : i < o.nbStreams) : ∃ c ∈ cells, c.2.streamIndex.toNat = i := by
  have hall : ∀ j ∈ List.range o.nbStreams, (s.lastInPacketBuffer j).isSome = true := by
    apply List.countP_eq_length.mp
    rwa [List.length_range]
  have hhint := hall i (List.mem_range.mpr hi)
  rw [hholds.hints, Option.isSome_map] at hhint
  obtain ⟨c, hc⟩ := Option.isSome_iff_exists.mp hhint
  have hmem := List.mem_filter.mp (List.mem_of_getLast? hc)
  exact ⟨c, hmem.1, by simpa [OfStream] using hmem.2⟩

theorem InOrder.nbInterleavedStreams (ho : InOrder o) : o.nbInterleavedStreams = o.nbStreams := by
  have hall : (List.range o.nbStreams).countP (fun i =>
      (o.stream i).codecType ≠ .attachment ∧ (o.stream i).codecId ≠ .smpte2038) =
        (List.range o.nbStreams).length := by
    apply List.countP_eq_length.mpr
    intro i hi
    simpa using ho.streams i (List.mem_range.mp hi)
  rwa [List.length_range] at hall

/-- What was returned and what is in the buffer are in order, and each stream has
come as far as what was returned, until a flush is asked for. -/
structure Ordered (o : MuxOptions) (added returned : List AVPacket)
    (cells : List (Ptr × AVPacket)) (flushed : Bool) : Prop where
  order : (returned ++ cells.map Prod.snd).Pairwise (TimeLe o)
  reached : flushed = false → ∀ p ∈ returned, ∀ i < o.nbStreams,
    ∃ q ∈ added, q.streamIndex.toNat = i ∧ TimeLe o p q

theorem timeLe_of_dts {p q : AVPacket} (hsame : p.streamIndex = q.streamIndex)
    (hle : tsValue p.dts ≤ tsValue q.dts) : TimeLe o p q := by
  have hstream : o.streamOf p = o.streamOf q := by rw [MuxOptions.streamOf, hsame, MuxOptions.streamOf]
  obtain ⟨hnum, hden⟩ := (o.streamOf q).positive
  have hdts : (tsValue p.dts : ℚ) ≤ tsValue q.dts := by exact_mod_cast hle
  rw [TimeLe, MuxOptions.timeOfDts, MuxOptions.timeOfDts, hstream, timeOf, timeOf]
  gcongr

theorem Ordered.adds {returned : List AVPacket} {pkt : Option AVPacket}
    {cells₁ : List (Ptr × AVPacket)} (hi : Interleaved o s h.added left cells)
    (hd : Ordered o h.added returned cells h.flushed)
    (hmay : pkt.all (mayAdd o h) = true) (hflushed : pkt.isSome = true → h.flushed = false)
    (ha : AddsTo o s cells pkt s' cells₁) (hsorted : (cells₁.map Prod.snd).Pairwise (TimeLe o)) :
    Ordered o (h.added ++ pkt.toList) returned cells₁ h.flushed := by
  cases ha with
  | nothing => simpa using hd
  | @packet front back pkt s' hplace hholds hend =>
      obtain ⟨hindex, hstream, hmax, hrises⟩ := mayAdd_spec hmay
      obtain ⟨hreturned, _, hcross⟩ := List.pairwise_append.mp hd.order
      refine ⟨List.pairwise_append.mpr ⟨hreturned, hsorted, ?_⟩, ?_⟩
      · intro p hp q hq
        have hor : q = pkt ∨ q ∈ (front ++ back).map Prod.snd := by
          simp only [List.map_append, List.map_cons, List.mem_append, List.mem_cons] at hq ⊢
          tauto
        obtain rfl | hold := hor
        · obtain ⟨r, hr, hsame, hle⟩ := hd.reached (hflushed rfl) p hp _ hstream
          have hnonneg := (hi.valid r hr).1
          have hindex' : r.streamIndex = q.streamIndex := by omega
          exact le_trans hle (timeLe_of_dts hindex' (hrises r hr hindex'))
        · exact hcross p hp q hold
      · intro hnot p hp i hi
        obtain ⟨q, hq, hsame⟩ := hd.reached hnot p hp i hi
        exact ⟨q, List.mem_append_left _ hq, hsame⟩

/-- What is taken out is the first of the buffer, which every stream has reached
unless a flush is asked for. -/
theorem Ordered.takes {returned : List AVPacket} {flushed flush : Bool} {r : PerDts}
    (hi : Interleaved o s added left cells) (ho : InOrder o)
    (hd : Ordered o added returned cells flushed) (ht : Takes o s flush cells r) :
    ∃ rest, r.state.Holds rest ∧
      Ordered o added (returned ++ r.pkt.toList) rest (flushed || flush) := by
  cases ht with
  | @returns c rest s' hcells hholds hwhy _ =>
      subst hcells
      have horder : ((returned ++ [c.2]) ++ rest.map Prod.snd).Pairwise (TimeLe o) := by
        simpa using hd.order
      refine ⟨rest, hholds, horder, ?_⟩
      intro hnot p hp i hlt
      obtain ⟨hunflushed, hflush⟩ := Bool.or_eq_false_iff.mp hnot
      rcases List.mem_append.mp hp with hp | hp
      · exact hd.reached hunflushed p hp i hlt
      · -- the buffer has a packet of every stream
        rw [List.mem_singleton.mp hp]
        have hforce : s.forcesOutput o = false := by
          rw [Interleaver.forcesOutput]
          split
          · rfl
          · simp [ho.delta]
        have hcount : s.streamCount o = o.nbStreams := by
          rw [hflush, hforce, ho.nbInterleavedStreams] at hwhy
          simpa [eq_comm] using hwhy
        obtain ⟨d, hmem, hstream⟩ := streamCount_all hi.holds hcount hlt
        refine ⟨d.2, hi.mem hmem, hstream, ?_⟩
        have hcells := (List.pairwise_append.mp hd.order).2.1
        rcases List.mem_cons.mp hmem with rfl | hmem
        · exact le_refl _
        · exact (List.pairwise_cons.mp hcells).1 _ (List.mem_map_of_mem hmem)
  | @keeps gone rest s' hcells hholds hwhy _ =>
      obtain rfl : gone = [] := hwhy ho.shortest (hi.returned ho.shortest).1
      rw [List.nil_append] at hcells
      subst hcells
      refine ⟨cells, hholds, by simpa using hd.order, ?_⟩
      intro hnot p hp
      have hreturned : p ∈ returned := by simpa using hp
      exact hd.reached (Bool.or_eq_false_iff.mp hnot).1 p hreturned

def InterleaveHistory.returned (h : InterleaveHistory) : List AVPacket :=
  (h.left.filter Prod.snd).map Prod.fst

theorem returned_after (h : InterleaveHistory) (l : InterleaveLabel) (r : PerDts) :
    (h.after l r).returned = h.returned ++ r.pkt.toList := by
  have hdiscarded : (r.discarded.map (·, false)).filter Prod.snd = [] := by
    simp [List.filter_eq_nil_iff]
  simp only [InterleaveHistory.returned, InterleaveHistory.after, List.filter_append, hdiscarded,
    List.append_nil, List.map_append]
  cases r.pkt <;> rfl

theorem Ordered.call {l : InterleaveLabel} {r : PerDts} (ho : InOrder o)
    (hi : Interleaved o s h.added h.left cells) (hd : Ordered o h.added h.returned cells h.flushed)
    (hpkts : Comparable o (h.after l r).added) (hmay : l.pkt.all (mayAdd o h) = true)
    (hflushed : l.pkt.isSome = true → h.flushed = false) (hc : Calls o s cells l r) :
    ∃ rest, r.state.Holds rest ∧
      Ordered o (h.after l r).added (h.after l r).returned rest (h.after l r).flushed := by
  rw [returned_after]
  cases hc with
  | fails hret =>
      refine ⟨cells, hi.holds, ?_, ?_⟩
      · simpa using hd.order
      · intro hnot p hp i hlt
        have hunflushed := (Bool.or_eq_false_iff.mp hnot).1
        have hreturned : p ∈ h.returned := by simpa using hp
        simpa [InterleaveHistory.after, hret] using hd.reached hunflushed p hreturned i hlt
  | @adds pkt memory s₁ cells₁ hadds =>
      have hi₁ := hi.adds hmay hadds
      refine ⟨cells₁, hi₁.holds, ?_⟩
      simpa [InterleaveHistory.after, InterleaveLabel.pkt] using
        hd.adds hi hmay hflushed hadds (hi₁.pairwise ho hpkts)
  | @takes pkt flush memory s₁ cells₁ r hadds htakes =>
      have hafter : (h.after (.take pkt flush memory) r).added = h.added ++ pkt.toList := by
        simp [InterleaveHistory.after, htakes.ret_nonneg, InterleaveLabel.pkt]
      rw [hafter] at hpkts ⊢
      have hi₁ := hi.adds hmay hadds
      exact (hd.adds hi hmay hflushed hadds (hi₁.pairwise ho hpkts)).takes hi₁ ho htakes

theorem interleaving_ordered (ho : InOrder o) {s : Interleaver × InterleaveHistory}
    (h : ((interleaving o).restrict fun s l => l.pkt.isSome = true → s.2.flushed = false).Reachable s)
    (hpkts : Comparable o s.2.added) : s.2.returned.Pairwise (TimeLe o) := by
  have hall : Comparable o s.2.added → ∃ cells, Interleaved o s.1 s.2.added s.2.left cells ∧
      Ordered o s.2.added s.2.returned cells s.2.flushed := by
    refine System.Reachable.invariant (fun s => Comparable o s.2.added →
      ∃ cells, Interleaved o s.1 s.2.added s.2.left cells ∧
        Ordered o s.2.added s.2.returned cells s.2.flushed) ?_ ?_ h
    · rintro s rfl _
      exact ⟨[], ⟨holds_empty, by simp, by simp, fun _ => .nil, fun _ => ⟨rfl, by simp⟩⟩,
        ⟨.nil, fun _ _ hp => absurd hp List.not_mem_nil⟩⟩
    · rintro ⟨s, h⟩ l ⟨s', h'⟩ _ hinv hn hpkts
      obtain ⟨hflushed, hn⟩ := System.restrict_next.mp hn
      simp only [interleaving] at hn hinv hpkts ⊢
      split at hn
      · next hmay =>
          obtain ⟨r, hr, hs⟩ := Option.map_eq_some_iff.mp hn
          cases hs
          have hbefore : Comparable o h.added := by
            by_cases hret : r.ret < 0
            · simpa [InterleaveHistory.after, hret] using hpkts
            · simp only [InterleaveHistory.after, hret, if_false] at hpkts
              exact hpkts.mono
          obtain ⟨cells, hi, hd⟩ := hinv hbefore
          obtain ⟨r', hr', hcalls⟩ := call_spec hi.holds l
          obtain rfl : r' = r := Option.some.inj (hr'.symm.trans hr)
          obtain ⟨rest, hi'⟩ := hi.call hmay hcalls
          obtain ⟨rest', hholds, hd'⟩ := hd.call ho hi hpkts hmay hflushed hcalls
          obtain rfl : rest = rest' := Leads.unique hi'.holds.has hholds.has
          exact ⟨rest, hi', hd'⟩
      · cases hn
  obtain ⟨cells, _, hd⟩ := hall hpkts
  exact (List.pairwise_append.mp hd.order).1

end Order

/-- In every run no packet is lost or duplicated, but for those that the shortest
stream has discarded, and each stream keeps its order; the buffer is sorted, its
hints point to the last packets of the streams, and every call ends. What is
returned is in order when the dts can be compared exactly. -/
theorem muxer_interleaves (o : MuxOptions) {s : Interleaver × InterleaveHistory}
    (h : (interleaving o).Reachable s) :
    ∃ cells, s.1.list.Has cells ∧ (addrs cells).Nodup ∧
      (∀ i, s.2.added.filter (ofStream i) =
        (s.2.left.map Prod.fst).filter (ofStream i) ++ (cells.map Prod.snd).filter (ofStream i)) ∧
      (o.shortest = false → ∀ x ∈ s.2.left, x.2 = true) ∧
      ((o.audioPreload = 0 ∨ ∀ p ∈ s.2.added, Told o p) →
        cells.IsChain fun c d => interleaveCompareDts o c.2 d.2 = false) ∧
      (o.audioPreload = 0 → Comparable o s.2.added →
        (cells.map Prod.snd).Pairwise fun p q => interleaveCompareDts o p q = false) ∧
      (∀ i, s.1.lastInPacketBuffer i = (lastOf i cells).map Prod.fst) ∧
      (∀ l : InterleaveLabel, (l.call o s.1).isSome = true) ∧
      (InOrder o → Comparable o s.2.added →
        ((interleaving o).restrict fun s l => l.pkt.isSome = true → s.2.flushed = false).Reachable s →
          s.2.returned.Pairwise (TimeLe o)) := by
  obtain ⟨cells, hi⟩ := interleaving_interleaved h
  refine ⟨cells, hi.holds.has, hi.holds.nodup, hi.queued, fun hoff => (hi.returned hoff).2, hi.sorted,
    ?_, hi.holds.hints, ?_, ?_⟩
  · intro hpreload hpkts
    refine (hi.notBehind hpreload hpkts).imp_of_mem ?_
    intro p q hp hq hbehind
    obtain ⟨c, hc, rfl⟩ := List.mem_map.mp hp
    obtain ⟨d, hd, rfl⟩ := List.mem_map.mp hq
    exact (notBehind_iff hpreload hpkts (hi.mem hc) (hi.mem hd)).mpr hbehind
  · intro l
    obtain ⟨r, hr, _⟩ := call_spec hi.holds l
    rw [hr, Option.isSome_some]
  · intro ho hpkts hrun
    exact interleaving_ordered ho hrun hpkts

def milliseconds (codecId : Output.AVCodecID) : MuxStream where
  timeBase := ⟨1, 1000⟩
  positive := ⟨by decide, by decide⟩
  isInt := by decide
  codecType := .video
  codecId := codecId

def ninetyKilohertz : MuxStream where
  timeBase := ⟨1, 90000⟩
  positive := ⟨by decide, by decide⟩
  isInt := by decide
  codecType := .audio
  codecId := .other

def twoStreams (first second : MuxStream) (shortest : Bool) : MuxOptions where
  nbStreams := 2
  stream i := if i = 0 then first else second
  maxInterleaveDelta := 0
  audioPreload := 0
  shortest := shortest

def packetAt (streamIndex dts : Int) : AVPacket := { AVPacket.blank with streamIndex := streamIndex, dts := some dts }

def enoughMemory : AddMemory := ⟨true, 0⟩

def notLate (s : Interleaver × InterleaveHistory) (l : InterleaveLabel) : Bool :=
  !l.pkt.isSome || !s.2.flushed

theorem notLate_spec (s : Interleaver × InterleaveHistory) (l : InterleaveLabel)
    (h : notLate s l = true) : l.pkt.isSome = true → s.2.flushed = false := by
  intro hpkt
  simpa [notLate, hpkt] using h

/-- Two streams with different time bases: four packets come in another order
than they were added. -/
theorem muxer_interleaves_four : ∃ returned : List AVPacket,
    returned.map (fun p => (p.streamIndex, tsValue p.dts)) = [(1, 0), (0, 10), (0, 20), (1, 2700)] ∧
      returned.Pairwise (TimeLe (twoStreams (milliseconds .other) ninetyKilohertz false)) := by
  have hrun : (((interleaving (twoStreams (milliseconds .other) ninetyKilohertz false)).guard
      notLate).run
        [.add (packetAt 0 10) enoughMemory, .take (some (packetAt 0 20)) false enoughMemory,
          .take (some (packetAt 1 0)) false enoughMemory,
          .take (some (packetAt 1 2700)) false enoughMemory, .take none false enoughMemory,
          .take none true enoughMemory, .take none true enoughMemory] (.empty, ⟨[], [], false⟩)).map
        (fun s => (s.2.added, s.2.returned)) =
      some ([packetAt 0 10, packetAt 0 20, packetAt 1 0, packetAt 1 2700],
        [packetAt 1 0, packetAt 0 10, packetAt 0 20, packetAt 1 2700]) := by
    decide +kernel
  obtain ⟨s, hs, hview⟩ := Option.map_eq_some_iff.mp hrun
  obtain ⟨hadded, hreturned⟩ := Prod.mk.inj hview
  have hreach := System.Reachable.of_guard notLate_spec rfl hs
  obtain ⟨_, _, _, _, _, _, _, _, _, horder⟩ := muxer_interleaves _ hreach.of_restrict
  refine ⟨s.2.returned, by rw [hreturned]; decide, horder ⟨rfl, by decide, rfl, rfl⟩ ?_ hreach⟩
  rw [hadded]
  simp only [Comparable]
  decide

def secondsStream : MuxStream where
  timeBase := ⟨1, 1⟩
  positive := ⟨by decide, by decide⟩
  isInt := by decide
  codecType := .video
  codecId := .other

theorem not_pairwise_of_lt {o : MuxOptions} {p q : AVPacket} (h : o.timeOfDts q < o.timeOfDts p) :
    ¬ [p, q].Pairwise (TimeLe o) := by
  intro hpairwise
  have hle := (List.pairwise_cons.mp hpairwise).1 q List.mem_cons_self
  exact absurd hle (not_le.mpr h)

/-- A stream of SMPTE 2038 is not waited for, but counts when it has a packet: its
packet goes out ahead of one of the other stream. A dts that cannot be told in
the time base of the other stream counts as a low one. And with the option for
the shortest stream a packet is discarded. -/
theorem muxer_disorders_and_discards :
    (∃ o s, ((interleaving o).restrict fun s l => l.pkt.isSome = true → s.2.flushed = false).Reachable s ∧
      o.maxInterleaveDelta = 0 ∧ (∀ i < o.nbStreams, (o.stream i).codecType ≠ .attachment) ∧
      o.shortest = false ∧ o.audioPreload = 0 ∧ Comparable o s.2.added ∧
      ¬ s.2.returned.Pairwise (TimeLe o)) ∧
    (∃ o s, ((interleaving o).restrict fun s l => l.pkt.isSome = true → s.2.flushed = false).Reachable s ∧
      InOrder o ∧ ¬ s.2.returned.Pairwise (TimeLe o)) ∧
    ∃ o s, (interleaving o).Reachable s ∧ s.2.added.length = 2 ∧ s.2.returned.length = 1 ∧
      s.1.list.head = none := by
  refine ⟨?_, ?_, ?_⟩
  · have hrun : (((interleaving (twoStreams (milliseconds .other) (milliseconds .smpte2038) false)).guard
        notLate).run [.take (some (packetAt 1 10)) false enoughMemory,
          .take (some (packetAt 0 0)) false enoughMemory] (.empty, ⟨[], [], false⟩)).map
            (fun s => (s.2.added, s.2.returned)) =
        some ([packetAt 1 10, packetAt 0 0], [packetAt 1 10, packetAt 0 0]) := by
      decide +kernel
    obtain ⟨s, hs, hview⟩ := Option.map_eq_some_iff.mp hrun
    obtain ⟨hadded, hreturned⟩ := Prod.mk.inj hview
    refine ⟨_, s, .of_guard notLate_spec rfl hs, rfl, by decide, rfl, rfl, ?_, ?_⟩
    · rw [hadded]
      simp only [Comparable]
      decide
    · rw [hreturned]
      apply not_pairwise_of_lt
      norm_num [MuxOptions.timeOfDts, timeOf, tsValue, packetAt, MuxOptions.streamOf, twoStreams,
        milliseconds]
  · have hrun : (((interleaving (twoStreams secondsStream ninetyKilohertz false)).guard
        notLate).run [.take (some (packetAt 0 4611686018427387904)) false enoughMemory,
          .take (some (packetAt 1 5)) false enoughMemory, .take none true enoughMemory]
            (.empty, ⟨[], [], false⟩)).map (fun s => s.2.returned) =
        some [packetAt 0 4611686018427387904, packetAt 1 5] := by
      decide +kernel
    obtain ⟨s, hs, hreturned⟩ := Option.map_eq_some_iff.mp hrun
    refine ⟨_, s, .of_guard notLate_spec rfl hs, ⟨rfl, by decide, rfl, rfl⟩, ?_⟩
    rw [hreturned]
    apply not_pairwise_of_lt
    norm_num [MuxOptions.timeOfDts, timeOf, tsValue, packetAt, MuxOptions.streamOf, twoStreams,
      secondsStream, ninetyKilohertz]
  · have hrun : ((interleaving (twoStreams (milliseconds .other) ninetyKilohertz true)).run
        [.add (packetAt 0 0) enoughMemory, .add (packetAt 0 10) enoughMemory,
          .take none true enoughMemory, .take none true enoughMemory] (.empty, ⟨[], [], false⟩)).map
            (fun s => (s.2.added.length, s.2.returned.length, s.1.list.head)) = some (2, 1, none) := by
      decide +kernel
    obtain ⟨s, hs, hview⟩ := Option.map_eq_some_iff.mp hrun
    simp only [Prod.mk.injEq] at hview
    exact ⟨_, s, .of_run rfl hs, hview⟩

end P2PFFmpeg.Mux
