import P2PFFmpeg.Util.BPrint

namespace P2PFFmpeg.Util

open Library

def Begins (str : Nat → Option UInt8) (bytes : List UInt8) : Prop :=
  ∀ i < bytes.length, str i = bytes[i]?

/-- A write stays below the size, or it is the NUL of an empty string in a buffer
that only counts. -/
def StrWrite.Fits (w : StrWrite) : Prop :=
  w.start + w.count ≤ w.size ∨ w = ⟨0, 1, 0, true⟩

section Begins

variable {str str' : Nat → Option UInt8} {bytes more : List UInt8}

theorem Begins.congr (h : Begins str bytes) (hsame : ∀ i < bytes.length, str' i = str i) :
    Begins str' bytes := by
  intro i hi
  rw [hsame i hi, h i hi]

theorem Begins.prefix (h : Begins str (bytes ++ more)) : Begins str bytes := by
  intro i hi
  rw [h i (by rw [List.length_append]; omega), List.getElem?_append_left hi]

theorem Begins.take (h : Begins str bytes) (n : Nat) : Begins str (bytes.take n) := by
  have hsplit := h
  rw [← List.take_append_drop n bytes] at hsplit
  exact hsplit.prefix

theorem Begins.store (h : Begins str bytes) {start : Nat} (hstart : start = bytes.length) :
    Begins (stored str start more) (bytes ++ more) := by
  subst hstart
  intro i hi
  rw [List.length_append] at hi
  by_cases hin : i < bytes.length
  · rw [stored, if_neg (by omega), List.getElem?_append_left hin, h i hin]
  · rw [stored, if_pos (by omega), List.getElem?_append_right (by omega)]

theorem begins_nil (str : Nat → Option UInt8) : Begins str [] := by
  intro i hi
  cases hi

end Begins

/-- The length counts the whole text and the buffer has the start of it, perhaps
without the NUL. -/
structure Holds (buf : AVBPrint) (text : List UInt8) : Prop where
  len : buf.len = text.length
  size : buf.size ≤ buf.sizeMax
  content : Begins buf.str (text.take (buf.size - 1))
  counting : buf.size = 0 → buf.internal = true
  writes : ∀ w ∈ buf.writes, w.Fits

structure Printed (buf : AVBPrint) (text : List UInt8) : Prop extends Holds buf text where
  terminated : 0 < buf.size → Begins buf.str (text.take (buf.size - 1) ++ [0])

section Steps

variable {buf : AVBPrint} {text : List UInt8}

theorem Holds.room (h : Holds buf text) : avBprintRoom buf = buf.size - text.length := by
  rw [avBprintRoom, h.len]
  omega

theorem take_append_room (text more : List UInt8) {size : Nat} (hsize : text.length < size) :
    (text ++ more).take (size - 1) = text ++ more.take (size - text.length - 1) := by
  rw [List.take_append, List.take_of_length_le (by omega)]
  congr 2
  omega

structure Enlarged (buf buf' : AVBPrint) (room : Nat) : Prop where
  complete : buf.len < buf.size
  len : buf'.len = buf.len
  larger : buf.size < buf'.size
  size : buf'.size ≤ buf'.sizeMax
  enough : buf'.size = buf'.sizeMax ∨ buf.len + room < buf'.size
  kept : ∀ i ≤ buf.len, buf'.str i = buf.str i
  writes : ∀ w ∈ buf'.writes, w ∈ buf.writes ∨ w.Fits

variable {more : List UInt8} {room : Nat}

theorem avBprintAlloc_cases (hsize : buf.size ≤ buf.sizeMax) (hroom : buf.len + room < uintMax)
    (allocated : Bool) :
    ((avBprintAlloc buf room allocated).1 ≠ 0 ∧ (avBprintAlloc buf room allocated).2 = buf) ∨
      ((avBprintAlloc buf room allocated).1 = 0 ∧ buf.size ≠ buf.sizeMax ∧
        Enlarged buf (avBprintAlloc buf room allocated).2 room) := by
  simp only [avBprintAlloc]
  by_cases hmax : buf.size = buf.sizeMax
  · rw [if_pos hmax]
    exact .inl ⟨by simp, rfl⟩
  · rw [if_neg hmax]
    by_cases hcomplete : buf.len < buf.size
    · rw [if_neg (by simpa [avBprintIsComplete] using hcomplete)]
      cases allocated with
      | false => exact .inl ⟨by simp, rfl⟩
      | true =>
          obtain ⟨doubled, hdoubled⟩ : ∃ doubled, doubled =
            if buf.size > buf.sizeMax / 2 then buf.sizeMax else buf.size * 2 := ⟨_, rfl⟩
          have hmin : min (uintMax - buf.len - 1) room = room := by omega
          rw [← hdoubled, hmin]
          obtain ⟨newSize, hnewSize⟩ : ∃ newSize, newSize =
            if doubled < buf.len + 1 + room then min buf.sizeMax (buf.len + 1 + room) else doubled :=
              ⟨_, rfl⟩
          rw [← hnewSize]
          have hsizes : buf.size < newSize ∧ newSize ≤ buf.sizeMax ∧
              (newSize = buf.sizeMax ∨ buf.len + room < newSize) := by
            split at hdoubled <;> split at hnewSize <;> omega
          refine .inr ⟨rfl, hmax, hcomplete, rfl, hsizes.1, hsizes.2.1, hsizes.2.2, ?_, ?_⟩
          · intro i hi
            refine if_pos ?_
            split <;> omega
          · intro w hw
            cases List.mem_append.mp hw with
            | inl hold => exact .inl hold
            | inr hnew =>
                split at hnew
                · rw [List.mem_singleton.mp hnew]
                  exact .inr (.inl (by simp only; omega))
                · cases hnew
    · rw [if_pos (by simpa [avBprintIsComplete] using hcomplete)]
      exact .inl ⟨by simp, rfl⟩

theorem Holds.enlarged (h : Holds buf text) {buf' : AVBPrint} (g : Enlarged buf buf' room) :
    Holds buf' text := by
  have hlen := h.len
  have hcomplete := g.complete
  have hlarger := g.larger
  refine ⟨g.len.trans h.len, g.size, ?_, ?_, ?_⟩
  · have hcontent := h.content
    rw [List.take_of_length_le (by omega)] at hcontent ⊢
    exact hcontent.congr fun i hi => g.kept i (by omega)
  · intro hzero
    omega
  · intro w hw
    exact (g.writes w hw).elim (h.writes w) id

theorem Printed.enlarged (h : Printed buf text) {buf' : AVBPrint} (g : Enlarged buf buf' room) :
    Printed buf' text := by
  have hlen := h.len
  have hcomplete := g.complete
  have hlarger := g.larger
  refine { h.toHolds.enlarged g with terminated := ?_ }
  intro _
  have hterminated := h.terminated (by omega)
  rw [List.take_of_length_le (by omega)] at hterminated ⊢
  refine hterminated.congr fun i hi => g.kept i ?_
  rw [List.length_append, List.length_singleton] at hi
  omega

theorem Holds.stored (h : Holds buf text) {more tail : List UInt8} (hroom : avBprintRoom buf ≠ 0)
    (htail : tail.length ≤ 1) : Begins (buf.store buf.len (more.take (avBprintRoom buf - 1) ++ tail)).str
        ((text ++ more).take (buf.size - 1)) ∧
      ∀ w ∈ (buf.store buf.len (more.take (avBprintRoom buf - 1) ++ tail)).writes, w.Fits := by
  have hlen := h.len
  rw [h.room] at hroom ⊢
  constructor
  · have hcontent := h.content
    rw [List.take_of_length_le (by omega)] at hcontent
    rw [take_append_room text more (by omega)]
    have hshows := @Begins.store _ _ (more.take (buf.size - text.length - 1) ++ tail) hcontent _ hlen
    rw [← List.append_assoc] at hshows
    exact hshows.prefix
  · intro w hw
    cases List.mem_append.mp hw with
    | inl hold => exact h.writes w hold
    | inr hnew =>
        rw [List.mem_singleton.mp hnew]
        refine .inl ?_
        simp only [List.length_append, List.length_take]
        omega

/-- After the text was written as far as there is room, its length counts and a
NUL ends what is there. -/
theorem avBprintGrow_printed (hlen : buf.len = text.length) (hsize : buf.size ≤ buf.sizeMax)
    (hlimit : (text ++ more).length < uintMax - 5)
    (hcontent : Begins buf.str ((text ++ more).take (buf.size - 1)))
    (hcounting : buf.size = 0 → buf.internal = true) (hwrites : ∀ w ∈ buf.writes, w.Fits) :
    Printed (avBprintGrow buf more.length) (text ++ more) := by
  rw [List.length_append] at hlimit
  have hgrown : buf.len + min more.length (uintMax - 5 - buf.len) = (text ++ more).length := by
    rw [List.length_append]
    omega
  rw [avBprintGrow, hgrown]
  simp only
  by_cases hzero : buf.size = 0
  · rw [if_neg (not_not.mpr hzero)]
    refine ⟨⟨rfl, hsize, hcontent, hcounting, hwrites⟩, ?_⟩
    intro hpos
    exact absurd hzero (Nat.ne_of_gt hpos)
  · rw [if_pos hzero]
    have hplace : min (text ++ more).length (buf.size - 1) =
        ((text ++ more).take (buf.size - 1)).length := by
      rw [List.length_take, Nat.min_comm]
    have hterminated : Begins (stored buf.str (min (text ++ more).length (buf.size - 1)) [0])
        ((text ++ more).take (buf.size - 1) ++ [0]) := hcontent.store hplace
    refine ⟨⟨rfl, hsize, hterminated.prefix, fun h => absurd h hzero, ?_⟩, fun _ => hterminated⟩
    intro w hw
    cases List.mem_append.mp hw with
    | inl hold => exact hwrites w hold
    | inr hnew =>
        rw [List.mem_singleton.mp hnew]
        refine .inl ?_
        simp only [List.length_singleton]
        omega

theorem Holds.no_room (h : Holds buf text) (hroom : avBprintRoom buf = 0) (more : List UInt8) :
    Begins buf.str ((text ++ more).take (buf.size - 1)) := by
  rw [h.room] at hroom
  rw [List.take_append_of_le_length (by omega)]
  exact h.content

theorem Holds.roomLoop (h : Holds buf text) {n : Nat} (hlimit : text.length + n < uintMax)
    (allocated : Nat → Bool) :
    ∃ buf', roomLoop n allocated 2 buf = some (avBprintRoom buf', buf') ∧ Holds buf' text := by
  have hlen := h.len
  rw [Util.roomLoop]
  by_cases hfits : n < avBprintRoom buf
  · rw [if_pos hfits]
    exact ⟨buf, rfl, h⟩
  · rw [if_neg hfits]
    simp only
    obtain ⟨hfails, hsame⟩ | ⟨hret, _, hlarger⟩ :=
      avBprintAlloc_cases h.size (by omega : buf.len + n < uintMax) (allocated 1)
    · rw [if_pos hfails, hsame]
      exact ⟨buf, rfl, h⟩
    · rw [if_neg (not_not.mpr hret)]
      have hnext := h.enlarged hlarger
      generalize (avBprintAlloc buf n (allocated 1)).2 = larger at hlarger hnext ⊢
      rw [Util.roomLoop]
      by_cases hfits' : n < avBprintRoom larger
      · rw [if_pos hfits']
        exact ⟨larger, rfl, hnext⟩
      · -- the buffer is as large as it may be
        have hmax : larger.size = larger.sizeMax := by
          have henough := hlarger.enough
          rw [hnext.room] at hfits'
          omega
        have hstops : avBprintAlloc larger n (allocated 0) = (-5, larger) := by
          rw [avBprintAlloc, if_pos hmax]
        rw [if_neg hfits', hstops]
        exact ⟨larger, rfl, hnext⟩

theorem Printed.append (h : Printed buf text) {n : Nat} {first : Nat → List UInt8}
    {more : List UInt8} (hn : more.length = n) (hfirst : ∀ k ≤ n, first k = more.take k)
    (hlimit : (text ++ more).length < uintMax - 5) (allocated : Nat → Bool) :
    ∃ buf', bprintAppend buf n first allocated = some buf' ∧ Printed buf' (text ++ more) := by
  have hlimit' : text.length + n < uintMax := by
    rw [List.length_append] at hlimit
    omega
  obtain ⟨found, hfound, hholds⟩ := h.toHolds.roomLoop hlimit' allocated
  refine ⟨_, by rw [bprintAppend, hfound, Option.map_some], ?_⟩
  simp only
  have hfirst' : first (min n (avBprintRoom found - 1)) = more.take (avBprintRoom found - 1) ++ [] := by
    rw [hfirst _ (Nat.min_le_left _ _), List.append_nil, ← List.take_take, ← hn,
      List.take_of_length_le (List.length_take_le' _ _)]
  rw [hfirst', ← hn]
  by_cases hroom : avBprintRoom found = 0
  · rw [if_neg (not_not.mpr hroom)]
    exact avBprintGrow_printed hholds.len hholds.size hlimit (hholds.no_room hroom more)
      hholds.counting hholds.writes
  · rw [if_pos hroom]
    obtain ⟨hcontent, hwrites⟩ := @Holds.stored _ _ hholds more [] hroom (Nat.zero_le _)
    apply avBprintGrow_printed
    · exact hholds.len
    · exact hholds.size
    · exact hlimit
    · exact hcontent
    · exact hholds.counting
    · exact hwrites

theorem Holds.vsnprintf (h : Holds buf text) (hshort : more.length ≤ intMax) :
    (vsnprintf buf more).1 = more.length ∧ Holds (vsnprintf buf more).2 text ∧
      (vsnprintf buf more).2.size = buf.size ∧ (vsnprintf buf more).2.sizeMax = buf.sizeMax ∧
      Begins (vsnprintf buf more).2.str ((text ++ more).take (buf.size - 1)) := by
  rw [Util.vsnprintf, if_neg (by omega)]
  by_cases hroom : avBprintRoom buf = 0
  · rw [if_neg (not_not.mpr hroom)]
    exact ⟨rfl, h, rfl, rfl, h.no_room hroom more⟩
  · rw [if_pos hroom]
    obtain ⟨hcontent, hwrites⟩ := @Holds.stored _ _ h more [0] hroom (Nat.le_refl _)
    refine ⟨rfl, ⟨h.len, h.size, ?_, h.counting, hwrites⟩, rfl, rfl, hcontent⟩
    have hstart := hcontent.take text.length
    rw [h.room] at hroom
    have hsame : ((text ++ more).take (buf.size - 1)).take text.length = text.take (buf.size - 1) := by
      rw [List.take_take, Nat.min_eq_left (by omega), List.take_left,
        List.take_of_length_le (by omega)]
    rwa [hsame] at hstart

theorem Holds.printLoop (h : Holds buf text) (hshort : more.length ≤ intMax) (hsome : more ≠ [])
    (hlimit : text.length + more.length < uintMax) (allocated : Nat → Bool) :
    ∃ buf', printLoop more allocated 2 buf = some ((more.length : Int), buf') ∧ Holds buf' text ∧
      Begins buf'.str ((text ++ more).take (buf'.size - 1)) := by
  have hpos := List.length_pos_iff.mpr hsome
  obtain ⟨hret, hholds, hsize, _, hshows⟩ := h.vsnprintf hshort
  rw [Util.printLoop]
  rcases hprinted : Util.vsnprintf buf more with ⟨ret, printed⟩
  rw [hprinted] at hret hholds hsize hshows
  simp only at hret hholds hsize hshows ⊢
  subst hret
  have hlen := hholds.len
  rw [if_neg (by omega)]
  by_cases hfits : (more.length : Int) < avBprintRoom buf
  · rw [if_pos hfits]
    exact ⟨printed, rfl, hholds, hsize ▸ hshows⟩
  · rw [if_neg hfits]
    obtain ⟨hfails, hsame⟩ | ⟨hret, _, hlarger⟩ :=
      avBprintAlloc_cases hholds.size (by omega : printed.len + more.length < uintMax) (allocated 1)
    · rw [if_pos hfails, hsame]
      exact ⟨printed, rfl, hholds, hsize ▸ hshows⟩
    · rw [if_neg (not_not.mpr hret)]
      have hnext := hholds.enlarged hlarger
      generalize (avBprintAlloc printed more.length (allocated 1)).2 = larger at hlarger hnext ⊢
      obtain ⟨hret', hholds', hsize', hsizeMax, hshows'⟩ := hnext.vsnprintf hshort
      rw [Util.printLoop]
      rcases hprinted' : Util.vsnprintf larger more with ⟨ret, again⟩
      rw [hprinted'] at hret' hholds' hsize' hsizeMax hshows'
      simp only at hret' hholds' hsize' hsizeMax hshows' ⊢
      subst hret'
      rw [if_neg (by omega)]
      by_cases hfits' : (more.length : Int) < avBprintRoom larger
      · rw [if_pos hfits']
        exact ⟨again, rfl, hholds', hsize' ▸ hshows'⟩
      · -- the buffer is as large as it may be
        have hmax : again.size = again.sizeMax := by
          have henough := hlarger.enough
          rw [hnext.room] at hfits'
          omega
        have hstops : avBprintAlloc again more.length (allocated 0) = (-5, again) := by
          rw [avBprintAlloc, if_pos hmax]
        rw [if_neg hfits', hstops]
        exact ⟨again, rfl, hholds', hsize' ▸ hshows'⟩

theorem Printed.printf (h : Printed buf text) (more : List UInt8) (allocated : Nat → Bool)
    (hlimit : (text ++ (BPrintOp.printf more allocated).text).length < uintMax - 5) :
    ∃ buf', avBprintf buf more allocated = some buf' ∧
      Printed buf' (text ++ (BPrintOp.printf more allocated).text) := by
  simp only [BPrintOp.text] at hlimit ⊢
  by_cases hlong : more.length > intMax
  · -- vsnprintf fails
    rw [if_pos hlong, List.append_nil]
    refine ⟨buf, ?_, h⟩
    have hfails : Util.vsnprintf buf more = (-1, buf) := by rw [Util.vsnprintf, if_pos hlong]
    simp [avBprintf, Util.printLoop, hfails]
  · rw [if_neg hlong] at hlimit ⊢
    by_cases hnone : more = []
    · subst hnone
      obtain ⟨hret, hholds, _⟩ := h.toHolds.vsnprintf (Nat.not_lt.mp hlong)
      refine ⟨(Util.vsnprintf buf []).2, by simp [avBprintf, Util.printLoop, hret], ?_⟩
      rw [List.append_nil]
      refine { hholds with terminated := ?_ }
      rw [Util.vsnprintf, if_neg hlong]
      by_cases hroom : avBprintRoom buf = 0
      · rw [if_neg (not_not.mpr hroom)]
        exact h.terminated
      · -- the NUL is written again
        rw [if_pos hroom]
        intro _
        rw [h.room] at hroom
        have hwhole : text.take (buf.size - 1) = text := List.take_of_length_le (by omega)
        have hcontent := h.content
        rw [hwhole] at hcontent
        have hstored := @Begins.store _ _ [0] hcontent _ h.len
        rw [← hwhole] at hstored
        simpa [AVBPrint.store] using hstored
    · have hlimit' : text.length + more.length < uintMax := by
        rw [List.length_append] at hlimit
        omega
      obtain ⟨printed, hprinted, hholds, hshows⟩ :=
        h.toHolds.printLoop (Nat.not_lt.mp hlong) hnone hlimit' allocated
      have hpos := List.length_pos_iff.mpr hnone
      refine ⟨_, by rw [avBprintf, hprinted, Option.map_some], ?_⟩
      simp only
      rw [if_neg (by omega)]
      exact avBprintGrow_printed hholds.len hholds.size hlimit hshows hholds.counting hholds.writes

theorem Printed.clear (h : Printed buf text) : Printed (avBprintClear buf) [] := by
  have hstart : Begins (stored buf.str 0 [0]) ([] ++ [0]) := (begins_nil buf.str).store rfl
  rw [avBprintClear]
  by_cases hlen : buf.len = 0
  · rw [if_neg (not_not.mpr hlen)]
    obtain rfl : text = [] := List.length_eq_zero_iff.mp (h.len.symm.trans hlen)
    exact h
  · rw [if_pos hlen]
    refine ⟨⟨rfl, h.size, ?_, h.counting, ?_⟩, ?_⟩
    · rw [List.take_nil]
      exact begins_nil _
    · intro w hw
      cases List.mem_append.mp hw with
      | inl hold => exact h.writes w hold
      | inr hnew =>
          rw [List.mem_singleton.mp hnew]
          by_cases hzero : buf.size = 0
          · exact .inr (by rw [hzero, h.counting hzero]; rfl)
          · exact .inl (by simp only [List.length_singleton]; omega)
    · intro _
      rw [List.take_nil]
      exact hstart

theorem Printed.step (h : Printed buf text) (op : BPrintOp)
    (hlimit : (text ++ op.text).length < uintMax - 5) :
    ∃ buf', bprintStep buf op = some buf' ∧ Printed buf' (textAfter text op) := by
  cases op with
  | chars c n allocated =>
      have hfirst : ∀ k ≤ n, List.replicate k c = (List.replicate n c).take k := by
        intro k hk
        rw [List.take_replicate, Nat.min_eq_left hk]
      exact h.append List.length_replicate hfirst hlimit allocated
  | appendData data allocated => exact h.append rfl (fun _ _ => rfl) hlimit allocated
  | printf more allocated => exact h.printf more allocated hlimit
  | clear => exact ⟨_, rfl, h.clear⟩

theorem avBprintInit_printed (sizeInit sizeMax : Nat) (allocated : Bool)
    (hinit : sizeInit ≤ uintMax) : Printed (avBprintInit sizeInit sizeMax allocated) [] := by
  obtain ⟨max', hmax⟩ : ∃ max', max' = if sizeMax = 1 then sizeAuto else sizeMax := ⟨_, rfl⟩
  obtain ⟨start, hstart⟩ : ∃ start, start =
      AVBPrint.store ⟨fun _ => none, 0, min sizeAuto max', max', true, []⟩ 0 [0] := ⟨_, rfl⟩
  have hprinted : Printed start [] := by
    rw [hstart]
    refine ⟨⟨rfl, Nat.min_le_right _ _, ?_, fun _ => rfl, ?_⟩, ?_⟩
    · rw [List.take_nil]
      exact begins_nil _
    · intro w hw
      rw [List.mem_singleton.mp hw]
      by_cases hzero : max' = 0
      · exact .inr (by simp [hzero])
      · refine .inl ?_
        simp only [List.length_singleton, sizeAuto]
        omega
    · intro _
      rw [List.take_nil]
      exact (begins_nil _).store rfl
  simp only [avBprintInit, ← hmax, ← hstart]
  split
  · have hlen := hprinted.len
    rw [List.length_nil] at hlen
    obtain ⟨_, hsame⟩ | ⟨_, _, hlarger⟩ := avBprintAlloc_cases hprinted.size
      (by omega : start.len + (sizeInit - 1) < uintMax) allocated
    · rwa [hsame]
    · exact hprinted.enlarged hlarger
  · exact hprinted

theorem avBprintInitForBuffer_printed (buffer : Nat → Option UInt8) (size : Nat) :
    Printed (avBprintInitForBuffer buffer size) [] := by
  rw [avBprintInitForBuffer]
  by_cases hzero : size = 0
  · rw [if_pos hzero]
    exact avBprintInit_printed 0 0 false (Nat.zero_le _)
  · rw [if_neg hzero]
    refine ⟨⟨rfl, Nat.le_refl _, ?_, fun h => absurd h hzero, ?_⟩, ?_⟩
    · rw [List.take_nil]
      exact begins_nil _
    · intro w hw
      rw [List.mem_singleton.mp hw]
      refine .inl ?_
      simp only [List.length_singleton]
      omega
    · intro _
      rw [List.take_nil]
      exact (begins_nil _).store rfl

end Steps

theorem bprinting_printed {s : AVBPrint × List UInt8} (h : bprinting.Reachable s) : Printed s.1 s.2 := by
  refine Transition.System.Reachable.invariant (fun s => Printed s.1 s.2) ?_ ?_ h
  · rintro ⟨buf, text⟩ ⟨rfl, ⟨sizeInit, sizeMax, allocated, hinit, rfl⟩ | ⟨buffer, size, rfl⟩⟩
    · exact avBprintInit_printed sizeInit sizeMax allocated hinit
    · exact avBprintInitForBuffer_printed buffer size
  · rintro ⟨buf, text⟩ op ⟨buf', text'⟩ _ hprinted hn
    simp only [bprinting] at hn
    split at hn
    · obtain ⟨next, hnext, hprinted'⟩ := hprinted.step op ‹_›
      rw [hnext] at hn
      cases hn
      exact hprinted'
    · cases hn

/-- In every run the length counts the text since the last clear, the size keeps
its limit, the buffer has the start of the text and a NUL, and it has the whole
text when it is complete. Every write is below the size, but for the NUL of an
empty string in a buffer that only counts, and no call fails to end. -/
theorem bprint_truncates {buf : AVBPrint} {text : List UInt8}
    (h : bprinting.Reachable (buf, text)) :
    buf.len = text.length ∧ buf.size ≤ buf.sizeMax ∧
      (∀ w ∈ buf.writes, w.start + w.count ≤ w.size ∨ w = ⟨0, 1, 0, true⟩) ∧
      (0 < buf.size → Begins buf.str (text.take (min buf.len (buf.size - 1)) ++ [0])) ∧
      (avBprintIsComplete buf = true ↔
        (text ++ [0]).length ≤ buf.size ∧ Begins buf.str (text ++ [0])) ∧
      ∀ op : BPrintOp, (text ++ op.text).length < uintMax - 5 →
        (bprintStep buf op).isSome = true := by
  have hprinted : Printed buf text := bprinting_printed h
  have hlen := hprinted.len
  refine ⟨hlen, hprinted.size, hprinted.writes, ?_, ?_, ?_⟩
  · intro hpos
    have htake : text.take (min buf.len (buf.size - 1)) = text.take (buf.size - 1) := by
      rw [Nat.min_comm, hlen, ← List.take_take, List.take_length]
    rw [htake]
    exact hprinted.terminated hpos
  · simp only [avBprintIsComplete, decide_eq_true_eq, List.length_append, List.length_singleton]
    constructor
    · intro hcomplete
      have hshows := hprinted.terminated (by omega)
      rw [List.take_of_length_le (by omega)] at hshows
      exact ⟨by omega, hshows⟩
    · rintro ⟨hfits, _⟩
      omega
  · intro op hlimit
    obtain ⟨buf', hstep, _⟩ := hprinted.step op hlimit
    rw [hstep, Option.isSome_some]

/-- Six bytes for a buffer of four. -/
theorem bprint_truncates_six : ∃ buf : AVBPrint, buf.len = 6 ∧
    Begins buf.str ([97, 98, 99, 100, 101, 102].take (min 6 (buf.size - 1)) ++ [0]) := by
  have hrun : (bprinting.run [.appendData [97, 98, 99, 100] fun _ => true,
      .chars 101 1 fun _ => true, .printf [102] fun _ => true]
        (avBprintInitForBuffer (fun _ => none) 4, [])).map
          (fun s => (s.1.len, s.1.size, s.2)) = some (6, 4, [97, 98, 99, 100, 101, 102]) := by
    decide +kernel
  obtain ⟨⟨buf, text⟩, hs, hview⟩ := Option.map_eq_some_iff.mp hrun
  simp only [Prod.mk.injEq] at hview
  obtain ⟨hlen, hsize, rfl⟩ := hview
  have hinit : bprinting.init (avBprintInitForBuffer (fun _ => none) 4, []) :=
    ⟨rfl, .inr ⟨_, 4, rfl⟩⟩
  have hshows := (bprint_truncates (.of_run hinit hs)).2.2.2.1 (by omega)
  rw [hlen] at hshows
  exact ⟨buf, hlen, hshows⟩

/-- A buffer that only counts is cleared after a character: a NUL is written, and
the size is 0. -/
theorem clear_writes_beyond_size : ∃ s w, bprinting.Reachable s ∧ s.1.size = 0 ∧
    w ∈ s.1.writes ∧ ¬ w.start + w.count ≤ w.size := by
  have hrun : (bprinting.run [.chars 97 1 fun _ => true, .clear] (avBprintInit 0 0 true, [])).map
      (fun s => (s.1.size, s.1.writes)) = some (0, [⟨0, 1, 0, true⟩, ⟨0, 1, 0, true⟩]) := by
    decide +kernel
  obtain ⟨s, hs, hview⟩ := Option.map_eq_some_iff.mp hrun
  obtain ⟨hsize, hwrites⟩ := Prod.mk.inj hview
  have hinit : bprinting.init (avBprintInit 0 0 true, []) :=
    ⟨rfl, .inl ⟨0, 0, true, Nat.zero_le _, rfl⟩⟩
  refine ⟨s, ⟨0, 1, 0, true⟩, .of_run hinit hs, hsize, ?_, by decide⟩
  rw [hwrites]
  exact List.mem_cons_self

end P2PFFmpeg.Util
