import P2PFFmpeg.H2645.Escape
import P2PFFmpeg.Payload.Packetizer

namespace P2PFFmpeg.H2645

open Payload Util

/-- The contents without the escapes up to the next start code, and the bytes consumed. -/
def strip : List UInt8 → List UInt8 × Nat
  | a :: b :: c :: rest =>
      if a = 0 ∧ b = 0 ∧ c ≠ 0 ∧ c ≤ 3 then
        if c = 3 then (0 :: 0 :: (strip rest).1, (strip rest).2 + 3) else ([], 0)
      else (a :: (strip (b :: c :: rest)).1, (strip (b :: c :: rest)).2 + 1)
  | src => (src, src.length)

variable {a b : UInt8} {bytes tail u : List UInt8}

theorem strip_of_ne (h : a ≠ 0) : strip (a :: tail) = (a :: (strip tail).1, (strip tail).2 + 1) := by
  match tail with
  | [] => rfl
  | [_] => rfl
  | _ :: _ :: _ => rw [strip, if_neg (fun hcode => h hcode.1)]

theorem strip_of_second_ne (h : b ≠ 0) :
    strip (a :: b :: tail) = (a :: (strip (b :: tail)).1, (strip (b :: tail)).2 + 1) := by
  cases tail with
  | nil => rfl
  | cons c tail => rw [strip, if_neg (fun hcode => h hcode.2.1)]

theorem strip_escape : strip (0 :: 0 :: 3 :: tail) = (0 :: 0 :: (strip tail).1, (strip tail).2 + 3) := by
  rw [strip, if_pos (by decide), if_pos rfl]

theorem strip_code : strip (0 :: 0 :: 1 :: tail) = ([], 0) := by
  rw [strip, if_pos (by decide), if_neg (by decide)]

theorem removeEscapes_eq (di : Nat) (bytes : List UInt8) : (removeEscapes di bytes).1 = (strip bytes).1 ∧
    (removeEscapes di bytes).2.1 = (strip bytes).2 := by
  fun_induction removeEscapes di bytes with
  | case1 di a b c rest hc dst si skipped hrest ih =>
      have hzero : c ≠ 0 := by
        rintro rfl
        exact absurd hc (by decide)
      have hcopy : ¬ (a = 0 ∧ b = 0 ∧ c ≠ 0 ∧ c ≤ 3) := fun h => UInt8.not_le.mpr hc h.2.2.2
      rw [hrest] at ih
      rw [strip, if_neg hcopy, strip_of_second_ne hzero, ← ih.1, ← ih.2]
      exact ⟨rfl, rfl⟩
  | case2 di a b rest dst si skipped hrest hc ha ih =>
      obtain ⟨rfl, rfl, -⟩ := ha
      rw [hrest] at ih
      rw [strip_escape, ← ih.1, ← ih.2]
      exact ⟨rfl, rfl⟩
  | case3 di a b c rest hc ha hthree =>
      rw [strip, if_pos ⟨ha.1, ha.2.1, ha.2.2, UInt8.not_lt.mp hc⟩, if_neg hthree]
      exact ⟨rfl, rfl⟩
  | case4 di a b c rest hc ha dst si skipped hrest ih =>
      rw [hrest] at ih
      rw [strip, if_neg (fun h => ha ⟨h.1, h.2.1, h.2.2.1⟩), ← ih.1, ← ih.2]
      exact ⟨rfl, rfl⟩
  | case5 di src hshort =>
      rw [strip.eq_2 _ hshort]
      exact ⟨rfl, rfl⟩

theorem strip_clear {src : List UInt8} {length i : Nat} (hlength : length ≤ src.length) (hi : i ≤ length)
    (hclear : ∀ j < i, ¬ Suspect src length j) :
    strip (src.take length) = (src.take i ++ (strip ((src.take length).drop i)).1,
      i + (strip ((src.take length).drop i)).2) := by
  induction i with
  | zero => simp
  | succ i ih =>
      rw [ih (Nat.le_of_succ_le hi) fun j hj => hclear j (Nat.lt_succ_of_lt hj)]
      have hin : i < src.length := Nat.lt_of_lt_of_le hi hlength
      have hsplit : (src.take length).drop i = src[i] :: (src.take length).drop (i + 1) := by
        rw [List.drop_eq_getElem_cons (by rw [List.length_take]; omega), List.getElem_take]
      have hstep : strip ((src.take length).drop i) = (src[i] :: (strip ((src.take length).drop (i + 1))).1,
          (strip ((src.take length).drop (i + 1))).2 + 1) := by
        by_cases hmore : i + 2 < length
        · have hbyte : ∀ k, (hk : k < src.length) → byteAt src k = src[k] :=
            fun k hk => List.getD_eq_getElem _ _ hk
          have hnext : ∀ k, k < length →
              (src.take length).drop k = byteAt src k :: (src.take length).drop (k + 1) := by
            intro k hk
            rw [List.drop_eq_getElem_cons (by rw [List.length_take]; omega), List.getElem_take,
              hbyte k (by omega)]
          rw [hsplit, hnext (i + 1) (by omega), hnext (i + 2) hmore]
          rw [strip, if_neg]
          intro hcode
          refine hclear i (Nat.lt_succ_self i) ⟨hmore, ?_, ?_, ?_⟩
          · rw [hbyte i hin]
            exact hcode.1
          · exact hcode.2.1
          · exact hcode.2.2.2
        · have hshort : ((src.take length).drop (i + 1)).length ≤ 1 := by
            rw [List.length_drop, List.length_take]
            omega
          rw [hsplit]
          match (src.take length).drop (i + 1), hshort with
          | [], _ => rfl
          | [_], _ => rfl
      rw [hstep, List.take_succ_eq_append_getElem hin]
      simp only [List.append_assoc, List.singleton_append, Prod.mk.injEq, true_and]
      omega

theorem ffH2645ExtractRbsp_eq (build : ScanBuild) {src : List UInt8} {length : Nat} (nal : H2645NAL)
    (smallPadding : Bool) (hlength : length ≤ src.length) :
    ∃ skipped, ffH2645ExtractRbsp build src length nal smallPadding =
      some ((strip (src.take length)).2, { nal with
        data := (strip (src.take length)).1
        rawSize := (strip (src.take length)).2
        skippedBytesPos := skipped }) := by
  obtain ⟨i, len, hscan, ⟨hi, hlen, hclear⟩ | ⟨hsuspect, hclear, hlen⟩⟩ := scan_searched build hlength
  · -- nothing to look at
    subst hlen
    have hstrip : ∀ k ≤ len, strip (src.take len) = (src.take k ++ (strip ((src.take len).drop k)).1,
        k + (strip ((src.take len).drop k)).2) :=
      fun k hk => strip_clear hlength hk fun j _ => hclear j
    have hwhole := hstrip len (Nat.le_refl len)
    have hend : (src.take len).drop len = [] := by
      rw [List.drop_eq_nil_iff, List.length_take]
      exact Nat.min_le_left len _
    rw [hend] at hwhole
    rw [ffH2645ExtractRbsp, hscan, Option.map_some]
    by_cases hsmall : smallPadding = true
    · refine ⟨[], ?_⟩
      simp only [hi, hsmall, and_self, if_true, hwhole]
      simp [strip]
    · refine ⟨(removeEscapes (min i len) ((src.take len).drop (min i len))).2.2, ?_⟩
      have hescapes := removeEscapes_eq (min i len) ((src.take len).drop (min i len))
      simp only [hsmall, Bool.false_eq_true, and_false, if_false]
      rw [hstrip (min i len) (Nat.min_le_right i len), ← hescapes.1, ← hescapes.2]
  · have hin := hsuspect.1
    have hstrip := strip_clear hlength (show i ≤ length by omega) hclear
    have hdrop : ∃ rest, (src.take length).drop i = 0 :: 0 :: byteAt src (i + 2) :: rest := by
      have hbyte : ∀ k, (hk : k < length) → (src.take length).drop k = byteAt src k ::
          (src.take length).drop (k + 1) := by
        intro k hk
        rw [List.drop_eq_getElem_cons (by rw [List.length_take]; omega), List.getElem_take, byteAt,
          List.getD_eq_getElem _ _ (Nat.lt_of_lt_of_le hk hlength)]
      refine ⟨(src.take length).drop (i + 3), ?_⟩
      rw [hbyte i (by omega), hbyte (i + 1) (by omega), hbyte (i + 2) hin, hsuspect.2.1, hsuspect.2.2.1]
    obtain ⟨rest, hrest⟩ := hdrop
    rw [ffH2645ExtractRbsp, hscan, Option.map_some]
    by_cases hcode : byteAt src (i + 2) ≠ 3 ∧ byteAt src (i + 2) ≠ 0
    · -- a start code
      obtain rfl : i = len := (hlen.trans (if_pos hcode)).symm
      have hstop : strip ((src.take length).drop i) = ([], 0) := by
        rw [hrest, strip, if_pos ⟨rfl, rfl, hcode.2, hsuspect.2.2.2⟩, if_neg hcode.1]
      rw [hstop] at hstrip
      have hend : (src.take i).drop i = [] := by
        rw [List.drop_eq_nil_iff, List.length_take]
        exact Nat.min_le_left i _
      rw [hstrip]
      refine ⟨[], ?_⟩
      by_cases hsmall : smallPadding = true
      · simp [hsmall]
      · simp [hsmall, hend, removeEscapes]
    · rw [if_neg hcode] at hlen
      subst hlen
      refine ⟨(removeEscapes i ((src.take len).drop i)).2.2, ?_⟩
      have hescapes := removeEscapes_eq i ((src.take len).drop i)
      have hmore : ¬ (i + 1 ≥ len ∧ smallPadding = true) := by omega
      simp only [if_neg hmore, Nat.min_eq_left (show i ≤ len by omega)]
      rw [hstrip, ← hescapes.1, ← hescapes.2]

theorem strip_preventEmulation {run : Nat} (hrun : run ≤ 2) (hlast : ∀ h : u ≠ [], u.getLast h ≠ 0)
    (hopen : u = [] → run = 0) : strip (List.replicate run 0 ++ preventEmulation run u ++ tail) =
      (List.replicate run 0 ++ u ++ (strip tail).1,
        run + (preventEmulation run u).length + (strip tail).2) := by
  induction u generalizing run with
  | nil =>
      rw [hopen rfl]
      simp [preventEmulation]
  | cons c u ih =>
      have hlast' : ∀ h : u ≠ [], u.getLast h ≠ 0 := by
        intro h
        have hcons := hlast (List.cons_ne_nil c u)
        rwa [List.getLast_cons h] at hcons
      have hmore : c = 0 → u ≠ [] := by
        rintro rfl rfl
        exact hlast (List.cons_ne_nil 0 []) rfl
      have hnext : c ≠ 0 → strip (c :: (preventEmulation 0 u ++ tail)) =
          (c :: (u ++ (strip tail).1), (preventEmulation 0 u).length + (strip tail).2 + 1) := by
        intro hc
        have hrest := ih (Nat.zero_le 2) hlast' fun _ => rfl
        simp only [List.replicate_zero, List.nil_append, Nat.zero_add] at hrest
        rw [strip_of_ne hc, hrest]
      obtain rfl | rfl | rfl : run = 0 ∨ run = 1 ∨ run = 2 := by omega
      · rw [preventEmulation, if_pos (by decide)]
        by_cases hc : c = 0
        · subst hc
          have hrest := @ih 1 (by decide) hlast' fun h => absurd h (hmore rfl)
          simp only [List.replicate_one, List.cons_append, List.nil_append] at hrest
          simp only [List.replicate_zero, List.nil_append, if_true, Nat.zero_add, List.cons_append, hrest,
            List.length_cons, Prod.mk.injEq, true_and]
          omega
        · simp only [List.replicate_zero, List.nil_append, if_neg hc, List.cons_append, hnext hc,
            List.length_cons, Prod.mk.injEq, true_and]
          omega
      · rw [preventEmulation, if_pos (by decide)]
        by_cases hc : c = 0
        · subst hc
          have hrest := @ih 2 (by decide) hlast' fun h => absurd h (hmore rfl)
          simp only [List.replicate_succ, List.replicate_zero, List.cons_append, List.nil_append] at hrest
          simp only [List.replicate_one, List.nil_append, if_true, Nat.reduceAdd, List.cons_append, hrest,
            List.length_cons, Prod.mk.injEq, true_and]
          omega
        · simp only [List.replicate_one, List.nil_append, if_neg hc, List.cons_append,
            strip_of_second_ne hc, hnext hc, List.length_cons, Prod.mk.injEq, true_and]
          omega
      · rw [preventEmulation, if_neg (by decide)]
        by_cases hlow : c &&& 0xfc = 0
        · -- the escape
          by_cases hc : c = 0
          · subst hc
            have hrest := @ih 1 (by decide) hlast' fun h => absurd h (hmore rfl)
            simp only [List.replicate_one, List.cons_append, List.nil_append] at hrest
            simp only [List.replicate_succ, List.replicate_zero, List.cons_append, List.nil_append, if_true,
              strip_escape, hrest, List.length_cons, if_pos hlow, Prod.mk.injEq, true_and]
            omega
          · simp only [List.replicate_succ, List.replicate_zero, List.cons_append, List.nil_append, if_neg hc,
              strip_escape, hnext hc, List.length_cons, if_pos hlow, Prod.mk.injEq, true_and]
            omega
        · have hhigh : ¬ c ≤ 3 ∧ c ≠ 0 := by
            exact forall_byte (p := fun c => ¬ c &&& 0xfc = 0 → ¬ c ≤ 3 ∧ c ≠ 0) (by decide +kernel) c hlow
          have hcopy : strip (0 :: 0 :: c :: (preventEmulation 0 u ++ tail)) =
              (0 :: (strip (0 :: c :: (preventEmulation 0 u ++ tail))).1,
                (strip (0 :: c :: (preventEmulation 0 u ++ tail))).2 + 1) := by
            rw [strip, if_neg fun h => hhigh.1 h.2.2.2]
          simp only [List.replicate_succ, List.replicate_zero, List.cons_append, List.nil_append,
            if_neg hhigh.2, if_neg hlow, hcopy, strip_of_second_ne hhigh.2, hnext hhigh.2, List.length_cons,
            Prod.mk.injEq, true_and]
          omega

theorem strip_noCode (h : (strip bytes).2 = bytes.length) (i : Nat) : startCodeAt bytes i = false := by
  have hcons : ∀ (a : UInt8) (l : List UInt8) (i : Nat), startCodeAt (a :: l) (i + 1) = startCodeAt l i :=
    fun a l i => rfl
  fun_induction strip bytes generalizing i with
  | case1 a b rest hcode ih =>
      rcases i with _ | _ | _ | i
      · exact startCodeAt_of_third (show (3 : UInt8) ≠ 1 by decide)
      · simp [startCodeAt, byteAt]
      · simp [startCodeAt, byteAt]
      · rw [hcons, hcons, hcons]
        exact ih (by simpa using h) i
  | case2 a b c rest hcode hthree => simp at h
  | case3 a b c rest hcode ih =>
      cases i with
      | zero =>
          rw [Bool.eq_false_iff]
          intro hstart
          obtain ⟨ha, hb, hc⟩ := startCodeAt_iff.mp hstart
          refine hcode ⟨ha, hb, ?_⟩
          rw [show c = 1 from hc]
          decide
      | succ i =>
          rw [hcons]
          exact ih (by simpa using h) i
  | case4 src hshort =>
      refine startCodeAt_of_third ?_
      have hlength : src.length ≤ 2 := by
        rcases src with _ | ⟨a, _ | ⟨b, _ | ⟨c, rest⟩⟩⟩
        · exact Nat.zero_le 2
        · exact Nat.le_succ 1
        · exact Nat.le_refl 2
        · exact absurd rfl (hshort a b c rest)
      rw [byteAt_of_le (by omega)]
      decide

theorem preventEmulation_ne_nil (run : Nat) (hu : u ≠ []) : preventEmulation run u ≠ [] := by
  cases u with
  | nil => exact absurd rfl hu
  | cons c u =>
      rw [preventEmulation]
      split
      · exact List.cons_ne_nil _ _
      · exact List.append_ne_nil_of_right_ne_nil _ (List.cons_ne_nil _ _)

theorem getLast_preventEmulation (run : Nat) (hu : u ≠ []) :
    (preventEmulation run u).getLast (preventEmulation_ne_nil run hu) = u.getLast hu := by
  induction u generalizing run with
  | nil => exact absurd rfl hu
  | cons c u ih =>
      have htail : ∀ run, (c :: preventEmulation run u).getLast (List.cons_ne_nil _ _) =
          (c :: u).getLast hu := by
        intro run
        by_cases hmore : u = []
        · subst hmore
          rfl
        · rw [List.getLast_cons (preventEmulation_ne_nil run hmore), List.getLast_cons hmore, ih run hmore]
      simp only [preventEmulation]
      split
      · exact htail _
      · rw [List.getLast_append_of_ne_nil _ (List.cons_ne_nil _ _)]
        exact htail _

theorem length_preventEmulation {run : Nat} (hrun : run ≤ 2) :
    2 * (preventEmulation run u).length ≤ 3 * u.length + run := by
  induction u generalizing run with
  | nil => exact Nat.zero_le _
  | cons c u ih =>
      rw [preventEmulation]
      split
      · have hnext : (if c = 0 then run + 1 else 0) ≤ run + 1 := by split <;> omega
        have hrest := @ih (if c = 0 then run + 1 else 0) (by omega)
        simp only [List.length_cons]
        omega
      · have hnext : (if c = 0 then 1 else 0) ≤ 1 := by split <;> omega
        have hrest := @ih (if c = 0 then 1 else 0) (by omega)
        have hescape : (if c &&& 0xfc = 0 then [3] else ([] : List UInt8)).length ≤ 1 := by
          split <;> simp
        simp only [List.length_append, List.length_cons]
        omega

def escapedNal (unit : List UInt8) (hne : unit ≠ []) (hlast : unit.getLast hne ≠ 0) : Nal where
  bytes := preventEmulation 0 unit
  nonempty := preventEmulation_ne_nil 0 hne
  noCode := by
    have hstrip := @strip_preventEmulation [] unit 0 (Nat.zero_le 2) (fun _ => hlast) fun h => absurd h hne
    simp only [List.replicate_zero, List.nil_append, List.append_nil, Nat.zero_add] at hstrip
    intro i _
    refine strip_noCode ?_ i
    rw [hstrip]
    rfl
  last := by
    rw [getLast_preventEmulation 0 hne]
    exact hlast

def copyUnescaped : List UInt8 → List UInt8
  | a :: b :: c :: rest =>
      if a = 0 ∧ b = 0 ∧ c = 3 then a :: b :: copyUnescaped rest else a :: copyUnescaped (b :: c :: rest)
  | src => src

/-- The allocation succeeds. -/
def ffNalUnitExtractRbsp (src : List UInt8) (headerLen : Nat) : List UInt8 :=
  src.take headerLen ++ copyUnescaped (src.drop headerLen)

def HoldsCode (src : List UInt8) : Prop :=
  ∃ front c back, src = front ++ 0 :: 0 :: c :: back ∧ (c = 1 ∨ c = 2)

theorem HoldsCode.cons (a : UInt8) (h : HoldsCode bytes) : HoldsCode (a :: bytes) := by
  obtain ⟨front, c, back, rfl, hc⟩ := h
  exact ⟨a :: front, c, back, rfl, hc⟩

theorem copyUnescaped_eq_strip (bytes : List UInt8) (h : ¬ HoldsCode bytes) :
    copyUnescaped bytes = (strip bytes).1 := by
  fun_induction strip bytes with
  | case1 a b rest hcode ih =>
      obtain ⟨rfl, rfl, -⟩ := hcode
      rw [copyUnescaped, if_pos ⟨rfl, rfl, rfl⟩, ih fun hrest => h (((hrest.cons 3).cons 0).cons 0)]
  | case2 a b c rest hcode hthree =>
      obtain ⟨rfl, rfl, hzero, hle⟩ := hcode
      have hone : c = 1 ∨ c = 2 := by
        simp only [← UInt8.toNat_inj, UInt8.le_iff_toNat_le, ne_eq, UInt8.reduceToNat] at hzero hle hthree ⊢
        omega
      exact absurd ⟨[], c, rest, rfl, hone⟩ h
  | case3 a b c rest hcode ih =>
      have hcopy : ¬ (a = 0 ∧ b = 0 ∧ c = 3) := by
        rintro ⟨ha, hb, rfl⟩
        exact hcode ⟨ha, hb, by decide, by decide⟩
      rw [copyUnescaped, if_neg hcopy, ih fun hrest => h (hrest.cons a)]
  | case4 src hshort => rw [copyUnescaped.eq_2 _ hshort]

/-- Every build of the fast removal gives the naive scan's bytes and consumes as many, whatever
lies in the padding; and so does the plain function where the scan is not ended by a code. -/
theorem extract_rbsp_naive (build : ScanBuild) (src padding : List UInt8) (nal : H2645NAL)
    (smallPadding : Bool) :
    ∃ nal', ffH2645ExtractRbsp build (src ++ padding) src.length nal smallPadding =
        some ((strip src).2, nal') ∧ nal'.data = (strip src).1 ∧
      (¬ HoldsCode src → ffNalUnitExtractRbsp src 0 = nal'.data) := by
  obtain ⟨skipped, hextract⟩ := @ffH2645ExtractRbsp_eq build (src ++ padding) src.length nal smallPadding
    (by rw [List.length_append]; omega)
  rw [List.take_left' rfl] at hextract
  exact ⟨_, hextract, rfl, copyUnescaped_eq_strip src⟩

/-- An escape at an odd place, read by words of eight bytes. -/
theorem extract_rbsp_naive_escape :
    ∃ nal', ffH2645ExtractRbsp (.words64 false) ([7, 0, 0, 3, 1] ++ [0, 0, 1]) 5 .zero true = some (5, nal') ∧
      nal'.data = [7, 0, 0, 1] ∧ ffNalUnitExtractRbsp [7, 0, 0, 3, 1] 0 = nal'.data := by
  obtain ⟨nal', hextract, hdata, hplain⟩ :=
    extract_rbsp_naive (.words64 false) [7, 0, 0, 3, 1] [0, 0, 1] .zero true
  refine ⟨nal', hextract, hdata, ?_⟩
  rw [hdata]
  rfl

end P2PFFmpeg.H2645
