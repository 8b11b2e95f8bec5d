import P2PFFmpeg.Mux.Interleave
import P2PFFmpeg.Mux.InterleaveList
import Mathlib.Data.List.Chain

namespace P2PFFmpeg.Mux

open Util Library Library.HeapList Library.Transition
open Output (tsValue)

section Take

variable {o : MuxOptions} {s : Interleaver} {cells : List (Ptr × AVPacket)} {flush : Bool}

theorem Interleaver.Holds.shortestEnd (h : s.Holds cells) (e : Int) :
    Interleaver.Holds { s with shortestEnd := e } cells :=
  ⟨h.has, h.nodup, h.below, h.count, h.tail, h.hints⟩

theorem Interleaver.Holds.setShortestEnd (h : s.Holds cells) (eof : Bool) :
    (s.setShortestEnd o eof).Holds cells := by
  rw [Interleaver.setShortestEnd]
  split
  · exact h
  · split
    · exact h.shortestEnd _
    · exact h

theorem setShortestEnd_off (hoff : o.shortest = false) (eof : Bool) : s.setShortestEnd o eof = s := by
  rw [Interleaver.setShortestEnd]
  split
  · rfl
  · rw [if_neg (by simp [hoff])]

theorem discardLoop_spec {rounds : Nat} (h : s.Holds cells) (hrounds : cells.length < rounds) :
    ∃ gone rest s', discardLoop o rounds s = some (gone.map Prod.snd, s') ∧ cells = gone ++ rest ∧
      s'.Holds rest ∧ s'.shortestEnd = s.shortestEnd := by
  induction cells generalizing s rounds with
  | nil =>
      obtain ⟨rounds, rfl⟩ : ∃ k, rounds = k + 1 := ⟨rounds - 1, by simp at hrounds; omega⟩
      refine ⟨[], [], s, ?_, rfl, h, rfl⟩
      rw [discardLoop, h.popHead_nil]
      rfl
  | cons c cells ih =>
      obtain ⟨rounds, rfl⟩ : ∃ k, rounds = k + 1 := ⟨rounds - 1, by simp at hrounds; omega⟩
      obtain ⟨s', hpop, hholds, _, hend⟩ := h.popHead_cons
      rw [discardLoop, hpop]
      by_cases hstop : s.shortestEnd + 1 ≥ o.toTimeBaseQ c.2
      · exact ⟨[], c :: cells, s, by simp [hstop], rfl, h, rfl⟩
      · obtain ⟨gone, rest, s'', hloop, rfl, hholds', hend'⟩ := ih hholds (Nat.lt_of_succ_lt_succ hrounds)
        refine ⟨c :: gone, rest, s'', ?_, rfl, hholds', hend'.trans hend⟩
        simp [hstop, hloop]

theorem Interleaver.Holds.streamCount_nil (h : s.Holds []) : s.streamCount o = 0 := by
  rw [Interleaver.streamCount, List.countP_eq_zero]
  intro i _
  simp [h.hints, lastOf]

/-- What a call takes out of the buffer: its first packet, for one of three
reasons, or none but those that are discarded. -/
inductive Takes (o : MuxOptions) (s : Interleaver) (flush : Bool) (cells : List (Ptr × AVPacket)) :
    PerDts → Prop
  | returns {c : Ptr × AVPacket} {rest : List (Ptr × AVPacket)} {s' : Interleaver}
      (hcells : cells = c :: rest) (hholds : s'.Holds rest)
      (hwhy : flush = true ∨ o.nbInterleavedStreams = s.streamCount o ∨ s.forcesOutput o = true)
      (hend : o.shortest = false → s'.shortestEnd = s.shortestEnd) :
      Takes o s flush cells ⟨1, some c.2, [], s'⟩
  | keeps {gone rest : List (Ptr × AVPacket)} {s' : Interleaver}
      (hcells : cells = gone ++ rest) (hholds : s'.Holds rest)
      (hwhy : o.shortest = false → s.shortestEnd = avNoptsValue → gone = [])
      (hend : o.shortest = false → s'.shortestEnd = s.shortestEnd) :
      Takes o s flush cells ⟨0, none, gone.map Prod.snd, s'⟩

theorem takePacket_spec (h : s.Holds cells) (flush : Bool) :
    ∃ r, takePacket o s flush = some r ∧ Takes o s flush cells r := by
  have hset := @Interleaver.Holds.setShortestEnd o s cells h flush
  have hoff : o.shortest = false → (s.setShortestEnd o flush).shortestEnd = s.shortestEnd := fun hoff => by
    rw [setShortestEnd_off hoff]
  obtain ⟨gone, rest, s', hdiscard, hcells, hholds, hend, hnone⟩ :
      ∃ gone rest s', (if (s.setShortestEnd o flush).shortestEnd ≠ avNoptsValue then
          discardLoop o ((s.setShortestEnd o flush).fresh + 1) (s.setShortestEnd o flush)
        else some ([], s.setShortestEnd o flush)) = some (gone.map Prod.snd, s') ∧
      cells = gone ++ rest ∧ s'.Holds rest ∧
      s'.shortestEnd = (s.setShortestEnd o flush).shortestEnd ∧
      ((s.setShortestEnd o flush).shortestEnd = avNoptsValue → gone = []) := by
    by_cases hended : (s.setShortestEnd o flush).shortestEnd ≠ avNoptsValue
    · obtain ⟨gone, rest, s', hloop, hcells, hholds, hend⟩ :=
        @discardLoop_spec o _ cells _ hset (Nat.lt_succ_of_le hset.count)
      exact ⟨gone, rest, s', by rw [if_pos hended, hloop], hcells, hholds, hend, fun h => absurd h hended⟩
    · exact ⟨[], cells, _, by rw [if_neg hended]; rfl, rfl, hset, rfl, fun _ => rfl⟩
  rw [takePacket]
  simp only [hdiscard, Option.bind_some]
  split
  · next htake =>
      obtain ⟨hcount, hforce, hgone⟩ := htake
      obtain rfl : gone = [] := List.map_eq_nil_iff.mp hgone
      rw [List.nil_append] at hcells
      subst hcells
      cases cells with
      | nil => exact absurd h.streamCount_nil hcount
      | cons c rest =>
          obtain ⟨s'', hpop, hholds', _, hend'⟩ := hholds.popHead_cons
          rw [hpop]
          refine ⟨_, rfl, .returns rfl hholds' ?_ fun h => ?_⟩
          · simpa [or_assoc] using hforce
          · rw [hend', hend, hoff h]
  · refine ⟨_, rfl, .keeps hcells hholds ?_ fun h => hend.trans (hoff h)⟩
    intro hshort hnopts
    exact hnone ((hoff hshort).trans hnopts)

end Take

def ofStream (i : Int) (p : AVPacket) : Bool := p.streamIndex == i

structure Interleaved (o : MuxOptions) (s : Interleaver) (added : List AVPacket)
    (left : List (AVPacket × Bool)) (cells : List (Ptr × AVPacket)) : Prop where
  holds : s.Holds cells
  valid : ∀ p ∈ added, 0 ≤ p.streamIndex ∧ p.streamIndex.toNat < o.nbStreams
  queued : ∀ i, added.filter (ofStream i) =
    (left.map Prod.fst).filter (ofStream i) ++ (cells.map Prod.snd).filter (ofStream i)
  sorted : (o.audioPreload = 0 ∨ ∀ p ∈ added, Told o p) →
    cells.IsChain fun c d => interleaveCompareDts o c.2 d.2 = false
  returned : o.shortest = false → s.shortestEnd = avNoptsValue ∧ ∀ x ∈ left, x.2 = true

section Interleaved

variable {o : MuxOptions} {s s' : Interleaver} {added : List AVPacket} {left : List (AVPacket × Bool)}
  {cells front back rest : List (Ptr × AVPacket)} {h : InterleaveHistory} {pkt : AVPacket}

variable {c : Ptr × AVPacket}

theorem Interleaved.mem (h : Interleaved o s added left cells) (hc : c ∈ cells) : c.2 ∈ added := by
  have hmem : c.2 ∈ (cells.map Prod.snd).filter (ofStream c.2.streamIndex) :=
    List.mem_filter.mpr ⟨List.mem_map_of_mem hc, by simp [ofStream]⟩
  have hqueued := List.mem_append_right ((left.map Prod.fst).filter (ofStream c.2.streamIndex)) hmem
  rw [← h.queued] at hqueued
  exact List.mem_of_mem_filter hqueued

theorem mayAdd_spec (hmay : mayAdd o h pkt = true) : 0 ≤ pkt.streamIndex ∧
    pkt.streamIndex.toNat < o.nbStreams ∧ tsValue pkt.dts ≤ int64Max ∧
    ∀ p ∈ h.added, p.streamIndex = pkt.streamIndex → tsValue p.dts ≤ tsValue pkt.dts := by
  simp only [mayAdd, Bool.and_eq_true, decide_eq_true_eq, List.all_eq_true, Bool.or_eq_true,
    bne_iff_ne, ne_eq] at hmay
  obtain ⟨⟨⟨⟨hindex, hstream⟩, _⟩, hmax⟩, hrises⟩ := hmay
  refine ⟨hindex, hstream, hmax, ?_⟩
  intro p hp hsame
  exact (hrises p hp).resolve_left (not_not.mpr hsame)

theorem ofStream_iff (hc : 0 ≤ c.2.streamIndex) (hpkt : 0 ≤ pkt.streamIndex) :
    OfStream pkt.streamIndex.toNat c = true ↔ c.2.streamIndex = pkt.streamIndex := by
  simp only [OfStream, beq_iff_eq]
  omega

theorem isChain_insert {R : Ptr × AVPacket → Ptr × AVPacket → Prop} (h : (front ++ back).IsChain R)
    (hbefore : ∀ d ∈ front.getLast?, R d c) (hbehind : ∀ d ∈ back.head?, R c d) :
    (front ++ c :: back).IsChain R := by
  obtain ⟨hfront, hback, _⟩ := List.isChain_append.mp h
  refine List.isChain_append.mpr ⟨hfront, List.isChain_cons.mpr ⟨hbehind, hback⟩, ?_⟩
  intro d hd e he
  cases he
  exact hbefore d hd

theorem Interleaved.add (hi : Interleaved o s h.added left (front ++ back)) (hmay : mayAdd o h pkt = true)
    (hplace : GoesBetween (interleaveCompareDts o) pkt front back)
    (hholds : s'.Holds (front ++ (s.fresh, pkt) :: back)) (hend : s'.shortestEnd = s.shortestEnd) :
    Interleaved o s' (h.added ++ [pkt]) left (front ++ (s.fresh, pkt) :: back) := by
  obtain ⟨hindex, hstream, hmax, hrises⟩ := mayAdd_spec hmay
  have hindices : ∀ c ∈ front ++ back, 0 ≤ c.2.streamIndex := fun c hc => (hi.valid _ (hi.mem hc)).1
  refine ⟨hholds, ?_, ?_, ?_, ?_⟩
  · intro p hp
    rcases List.mem_append.mp hp with hp | hp
    · exact hi.valid p hp
    · rw [List.mem_singleton.mp hp]
      exact ⟨hindex, hstream⟩
  · intro i
    have hqueued := hi.queued i
    rw [List.map_append, List.filter_append] at hqueued
    rw [List.filter_append, hqueued, List.map_append, List.map_cons, List.filter_append]
    by_cases hi' : ofStream i pkt = true
    · have hnone : (back.map Prod.snd).filter (ofStream i) = [] := by
        apply List.filter_eq_nil_iff.mpr
        intro p hp
        obtain ⟨c, hc, rfl⟩ := List.mem_map.mp hp
        have hother := hplace.others c hc
        have hc0 := hindices c (List.mem_append_right front hc)
        have hne := mt (ofStream_iff hc0 hindex).mpr (Bool.eq_false_iff.mp hother)
        simp only [ofStream, beq_iff_eq] at hi' ⊢
        rw [← hi']
        exact hne
      rw [List.filter_cons_of_pos hi', List.filter_cons_of_pos hi', hnone]
      simp
    · rw [List.filter_cons_of_neg hi', List.filter_cons_of_neg hi']
      simp
  · intro htold
    have hold : o.audioPreload = 0 ∨ ∀ p ∈ h.added, Told o p :=
      htold.imp_right fun htold p hp => htold p (List.mem_append_left _ hp)
    refine isChain_insert (hi.sorted hold) ?_ ?_
    · intro d hd
      obtain hsame | hcompare := hplace.before d hd
      · have hd' := List.mem_append_left back (List.mem_of_getLast? hd)
        have hindex' := (ofStream_iff (hindices d hd') hindex).mp hsame
        exact interleaveCompareDts_same hindex' hmax (hrises _ (hi.mem hd') hindex')
      · exact hcompare
    · intro d hd
      have hd' := List.mem_append_right front (List.mem_of_mem_head? hd)
      refine interleaveCompareDts_asymm (htold.imp_right fun htold => ?_) (hplace.behind d hd)
      exact ⟨htold _ (List.mem_append_left _ (hi.mem hd')), htold _ (by simp)⟩
  · rw [hend]
    exact hi.returned

theorem Interleaved.leave {gone : List (Ptr × AVPacket)}
    (hi : Interleaved o s added left (gone ++ rest)) (hholds : s'.Holds rest) (taken : Bool)
    (hend : o.shortest = false → s'.shortestEnd = s.shortestEnd)
    (htaken : o.shortest = false → taken = true ∨ gone = []) :
    Interleaved o s' added (left ++ (gone.map Prod.snd).map (·, taken)) rest := by
  refine ⟨hholds, hi.valid, ?_, ?_, ?_⟩
  · intro i
    have hgone : ((gone.map Prod.snd).map (·, taken)).map Prod.fst = gone.map Prod.snd := by
      rw [List.map_map]
      exact List.map_id _
    rw [hi.queued, List.map_append, List.map_append, hgone, List.filter_append, List.filter_append,
      List.append_assoc]
  · intro htold
    exact (hi.sorted htold).right_of_append
  · intro hoff
    obtain ⟨hnopts, hleft⟩ := hi.returned hoff
    refine ⟨(hend hoff).trans hnopts, ?_⟩
    intro x hx
    rcases List.mem_append.mp hx with hx | hx
    · exact hleft x hx
    · obtain ⟨p, hp, rfl⟩ := List.mem_map.mp hx
      obtain htrue | rfl := htaken hoff
      · exact htrue
      · cases hp

theorem Interleaved.take {flush : Bool} {r : PerDts} (hi : Interleaved o s added left cells)
    (ht : Takes o s flush cells r) : ∃ rest, Interleaved o r.state added
      (left ++ r.discarded.map (·, false) ++ r.pkt.toList.map (·, true)) rest := by
  cases ht with
  | @returns c rest s' hcells hholds _ hend =>
      subst hcells
      have hleave := @Interleaved.leave o s s' added left rest [c] hi hholds true hend
        (fun _ => .inl rfl)
      refine ⟨rest, ?_⟩
      simpa using hleave
  | @keeps gone rest s' hcells hholds hwhy hend =>
      subst hcells
      have hleave := @Interleaved.leave o s s' added left rest gone hi hholds false hend
        (fun hoff => .inr (hwhy hoff (hi.returned hoff).1))
      refine ⟨rest, ?_⟩
      simpa using hleave

inductive AddsTo (o : MuxOptions) (s : Interleaver) : List (Ptr × AVPacket) → Option AVPacket →
    Interleaver → List (Ptr × AVPacket) → Prop
  | nothing {cells : List (Ptr × AVPacket)} : AddsTo o s cells none s cells
  | packet {front back : List (Ptr × AVPacket)} {pkt : AVPacket} {s' : Interleaver}
      (hplace : GoesBetween (interleaveCompareDts o) pkt front back)
      (hholds : s'.Holds (front ++ (s.fresh, pkt) :: back))
      (hend : s'.shortestEnd = s.shortestEnd) :
      AddsTo o s (front ++ back) (some pkt) s' (front ++ (s.fresh, pkt) :: back)

inductive Calls (o : MuxOptions) (s : Interleaver) (cells : List (Ptr × AVPacket)) :
    InterleaveLabel → PerDts → Prop
  | fails {l : InterleaveLabel} {ret : Int} (hret : ret < 0) : Calls o s cells l ⟨ret, none, [], s⟩
  | adds {pkt : AVPacket} {memory : AddMemory} {s₁ : Interleaver} {cells₁ : List (Ptr × AVPacket)}
      (hadds : AddsTo o s cells (some pkt) s₁ cells₁) :
      Calls o s cells (.add pkt memory) ⟨0, none, [], s₁⟩
  | takes {pkt : Option AVPacket} {flush : Bool} {memory : AddMemory} {s₁ : Interleaver}
      {cells₁ : List (Ptr × AVPacket)} {r : PerDts} (hadds : AddsTo o s cells pkt s₁ cells₁)
      (htakes : Takes o s₁ flush cells₁ r) : Calls o s cells (.take pkt flush memory) r

theorem call_spec (hholds : s.Holds cells) (l : InterleaveLabel) :
    ∃ r, l.call o s = some r ∧ Calls o s cells l r := by
  cases l with
  | add pkt memory =>
      obtain ⟨ret, hret, hfails⟩ | ⟨front, back, s', rfl, hplace, hadds, hholds', hend, -⟩ :=
        ffInterleaveAddPacket_spec hholds pkt (interleaveCompareDts o) memory
      · exact ⟨_, by rw [InterleaveLabel.call, hfails]; rfl, .fails hret⟩
      · exact ⟨_, by rw [InterleaveLabel.call, hadds]; rfl, .adds (.packet hplace hholds' hend)⟩
  | take pkt flush memory =>
      cases pkt with
      | none =>
          obtain ⟨r, htake, htakes⟩ := takePacket_spec hholds flush
          exact ⟨r, htake, .takes .nothing htakes⟩
      | some pkt =>
          obtain ⟨ret, hret, hfails⟩ | ⟨front, back, s', rfl, hplace, hadds, hholds', hend, -⟩ :=
            ffInterleaveAddPacket_spec hholds pkt (interleaveCompareDts o) memory
          · refine ⟨⟨ret, none, [], s⟩, ?_, .fails hret⟩
            rw [InterleaveLabel.call, ffInterleavePacketPerDts, hfails]
            exact if_pos hret
          · obtain ⟨r, htake, htakes⟩ := takePacket_spec hholds' flush
            refine ⟨r, ?_, .takes (.packet hplace hholds' hend) htakes⟩
            rw [InterleaveLabel.call, ffInterleavePacketPerDts, hadds]
            exact htake

theorem Interleaved.adds {s₁ : Interleaver} {cells₁ : List (Ptr × AVPacket)} {pkt : Option AVPacket}
    (hi : Interleaved o s h.added left cells) (hmay : pkt.all (mayAdd o h) = true)
    (ha : AddsTo o s cells pkt s₁ cells₁) : Interleaved o s₁ (h.added ++ pkt.toList) left cells₁ := by
  cases ha with
  | nothing => simpa using hi
  | packet hplace hholds hend => exact hi.add hmay hplace hholds hend

theorem Takes.ret_nonneg {flush : Bool} {r : PerDts} (ht : Takes o s flush cells r) : ¬ r.ret < 0 := by
  cases ht <;> simp

theorem Interleaved.call {l : InterleaveLabel} {r : PerDts}
    (hi : Interleaved o s h.added h.left cells) (hmay : l.pkt.all (mayAdd o h) = true)
    (hc : Calls o s cells l r) :
    ∃ rest, Interleaved o r.state (h.after l r).added (h.after l r).left rest := by
  cases hc with
  | fails hret =>
      refine ⟨cells, ?_⟩
      simpa [InterleaveHistory.after, hret] using hi
  | @adds pkt memory s₁ cells₁ hadds =>
      refine ⟨cells₁, ?_⟩
      simpa [InterleaveHistory.after, InterleaveLabel.pkt] using hi.adds hmay hadds
  | @takes pkt flush memory s₁ cells₁ r hadds htakes =>
      obtain ⟨rest, hrest⟩ := (hi.adds hmay hadds).take htakes
      refine ⟨rest, ?_⟩
      simpa [InterleaveHistory.after, htakes.ret_nonneg, InterleaveLabel.pkt] using hrest

theorem interleaving_interleaved {s : Interleaver × InterleaveHistory} (h : (interleaving o).Reachable s) :
    ∃ cells, Interleaved o s.1 s.2.added s.2.left cells := by
  refine System.Reachable.invariant (fun s => ∃ cells, Interleaved o s.1 s.2.added s.2.left cells)
    ?_ ?_ h
  · rintro s rfl
    exact ⟨[], holds_empty, by simp, by simp, fun _ => .nil, fun _ => ⟨rfl, by simp⟩⟩
  · rintro ⟨s, h⟩ l ⟨s', h'⟩ _ ⟨cells, hi⟩ hn
    simp only [interleaving] at hn hi ⊢
    split at hn
    · next hmay =>
        obtain ⟨r, hr, hs⟩ := Option.map_eq_some_iff.mp hn
        obtain ⟨r', hr', hcalls⟩ := call_spec hi.holds l
        obtain rfl : r' = r := Option.some.inj (hr'.symm.trans hr)
        cases hs
        exact hi.call hmay hcalls
    · cases hn

end Interleaved

end P2PFFmpeg.Mux
