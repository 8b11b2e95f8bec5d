import Mathlib.Data.List.Infix
import P2PFFmpeg.Demux.Context
import P2PFFmpeg.Payload.AccessUnit

namespace P2PFFmpeg.Demux

open Util
open Payload (NalUnit startCode startCodeAt startCodeAt_iff startCodeAt_append_right startCodeAt_of_third
  withStartCodes withStartCodes_cons withLengths withLengths_cons beBytes length_beBytes
  byteAt_append_left byteAt_append_right byteAt_of_le avRb32_length)

/-- Units written with start codes of three or four bytes, or with their lengths
in four bytes. -/
inductive Written
  | annexB (units : List (Bool × NalUnit))
  | lengthPrefixed (units : List NalUnit)

def Written.units : Written → List NalUnit
  | .annexB units => units.map (·.2)
  | .lengthPrefixed units => units

def annexB (units : List (Bool × NalUnit)) : List UInt8 := withStartCodes (units.map fun u => (u.1, u.2.bytes))

def lengthPrefixed (units : List NalUnit) : List UInt8 := withLengths 4 (units.map NalUnit.bytes)

def Written.bytes : Written → List UInt8
  | .annexB units => Demux.annexB units
  | .lengthPrefixed units => Demux.lengthPrefixed units

inductive NalKind
  | sps
  | pps
  | idr
deriving DecidableEq, Repr

def NalKind.type : NalKind → UInt8
  | .sps => 7
  | .pps => 8
  | .idr => 5

def Nals.has (n : Nals) : NalKind → Bool
  | .sps => n.sps
  | .pps => n.pps
  | .idr => n.idr

def typesOf (units : List NalUnit) : Nals where
  sps := units.any fun u => u.type = 7
  pps := units.any fun u => u.type = 8
  idr := units.any fun u => u.type = 5

/-- The scan of a packet tells the types of its units, and so does the test for a
keyframe. -/
structure TellsTypes (data : List UInt8) (units : List NalUnit) : Prop where
  scan : scanH264Nals data = some (typesOf units)
  keyframe : ∀ st pkt, st.codecId = .h264 → pkt.data = data → hasKeyframeInfo st pkt =
    some ((typesOf units).idr && (st.extradata ≠ [] || (typesOf units).sps && (typesOf units).pps))

def HeadFrom (data : List UInt8) (i : Nat) (k : NalKind) : Prop :=
  ∃ p, i ≤ p ∧ p + 3 < data.length ∧ startCodeAt data p = true ∧ byteAt data (p + 3) &&& 0x1F = k.type

def CodeFrom (data : List UInt8) (i : Nat) : Prop :=
  ∃ p, i ≤ p ∧ p + 4 ≤ data.length ∧ (startCodeAt data p = true ∨ startCode4 data p = true)

/-- The bytes written hold no start code, or the bytes behind start codes are of
the types of the units. -/
def Written.Undisguised : Written → Prop
  | .annexB _ => True
  | .lengthPrefixed units =>
      ¬CodeFrom (Demux.lengthPrefixed units) 0 ∨
        ∀ k : NalKind, (∃ u ∈ units, u.type = k.type) ↔ HeadFrom (Demux.lengthPrefixed units) 0 k

section Nals

theorem Nals.ext_has {n m : Nals} (h : ∀ k, n.has k = m.has k) : n = m := by
  obtain ⟨sps, pps, idr⟩ := n
  obtain ⟨sps', pps', idr'⟩ := m
  obtain rfl : sps = sps' := h .sps
  obtain rfl : pps = pps' := h .pps
  obtain rfl : idr = idr' := h .idr
  rfl

theorem note_has (n : Nals) (b : UInt8) (k : NalKind) :
    (n.note b).has k = true ↔ n.has k = true ∨ b &&& 0x1F = k.type := by
  unfold Nals.note
  dsimp only
  by_cases hsps : b &&& 0x1F = 7
  · rw [if_pos hsps, hsps]
    cases k <;> simp [Nals.has, NalKind.type]
  rw [if_neg hsps]
  by_cases hpps : b &&& 0x1F = 8
  · rw [if_pos hpps, hpps]
    cases k <;> simp [Nals.has, NalKind.type]
  rw [if_neg hpps]
  by_cases hidr : b &&& 0x1F = 5
  · rw [if_pos hidr, hidr]
    cases k <;> simp [Nals.has, NalKind.type]
  · rw [if_neg hidr]
    cases k <;> simp [Nals.has, NalKind.type, hsps, hpps, hidr]

theorem typesOf_has (units : List NalUnit) (k : NalKind) :
    (typesOf units).has k = true ↔ ∃ u ∈ units, u.type = k.type := by
  cases k <;> simp [typesOf, Nals.has, NalKind.type]

end Nals

section Scan

variable {data : List UInt8} {i p : Nat} {k : NalKind}

theorem startCode4_iff : startCode4 data i = true ↔ byteAt data i = 0 ∧ startCodeAt data (i + 1) = true := by
  rw [startCodeAt_iff]
  simp only [startCode4, Bool.and_eq_true, decide_eq_true_eq, and_assoc]

theorem startCodeAt_apart (h : startCodeAt data i = true) (hp : startCodeAt data p = true) (hlt : i < p) :
    i + 3 ≤ p := by
  rw [startCodeAt_iff] at h hp
  by_contra hnear
  obtain rfl | rfl : p = i + 1 ∨ p = i + 2 := by omega
  · exact absurd (h.2.2.symm.trans hp.2.1) (by decide)
  · exact absurd (h.2.2.symm.trans hp.1) (by decide)

theorem nextStartCode_free (data : List UInt8) (j : Nat) :
    ∀ p, j ≤ p → p < nextStartCode data j → startCodeAt data p = false ∧ startCode4 data p = false := by
  fun_induction nextStartCode data j with
  | case1 j | case3 j => exact fun p hj hp => absurd hp (Nat.not_lt.mpr hj)
  | case2 j _ hcode ih =>
      intro p hj hp
      obtain rfl | hlt := Nat.eq_or_lt_of_le hj
      · simpa only [Bool.or_eq_true, not_or, Bool.not_eq_true] using hcode
      · exact ih p hlt hp

theorem startCode_end (h : (startCodeAt data i || startCode4 data i) = true) :
    ∃ q, i ≤ q ∧ (if startCode4 data i = true then i + 4 else i + 3) = q + 3 ∧ startCodeAt data q = true ∧
      ∀ p, i ≤ p → p < q + 3 → startCodeAt data p = true → p = q := by
  cases h4 : startCode4 data i with
  | true =>
      obtain ⟨-, hcode⟩ := startCode4_iff.mp h4
      refine ⟨i + 1, Nat.le_succ i, rfl, hcode, fun p hi hp hcodep => ?_⟩
      obtain hlt | rfl | hlt := Nat.lt_trichotomy p (i + 1)
      · have hnear := startCodeAt_apart hcodep hcode hlt
        omega
      · rfl
      · have hnear := startCodeAt_apart hcode hcodep hlt
        omega
  | false =>
      rw [h4, Bool.or_false] at h
      refine ⟨i, Nat.le_refl i, rfl, h, fun p hi hp hcodep => ?_⟩
      obtain rfl | hlt := Nat.eq_or_lt_of_le hi
      · rfl
      · have hnear := startCodeAt_apart h hcodep hlt
        omega

theorem headFrom_succ (h : startCodeAt data i = false) : HeadFrom data i k ↔ HeadFrom data (i + 1) k := by
  constructor
  · rintro ⟨p, hi, hlt, hcode, htype⟩
    refine ⟨p, ?_, hlt, hcode, htype⟩
    obtain rfl | hp := Nat.eq_or_lt_of_le hi
    · rw [h] at hcode
      cases hcode
    · exact hp
  · rintro ⟨p, hi, hrest⟩
    exact ⟨p, Nat.le_of_succ_le hi, hrest⟩

theorem scanAnnexB_has (found : Bool) (n : Nals) :
    (scanAnnexB data i found n).2.has k = true ↔ n.has k = true ∨ HeadFrom data i k := by
  fun_induction scanAnnexB data i found n with
  | case1 i found n hroom hcode nalStart ih =>
      simp only [dite_eq_ite] at ih
      rw [ih]
      obtain ⟨q, hiq, hend, hq, honly⟩ := startCode_end hcode
      have hstart : nalStart = q + 3 := hend
      have hfree := nextStartCode_free data nalStart
      have hle := le_nextStartCode data nalStart
      have hsplit : HeadFrom data i k ↔ (nalStart < data.length ∧ byteAt data nalStart &&& 0x1F = k.type) ∨
          HeadFrom data (nextStartCode data nalStart) k := by
        constructor
        · rintro ⟨p, hi, hlt, hcodep, htype⟩
          by_cases hp : p < nalStart
          · obtain rfl := honly p hi (by omega) hcodep
            exact Or.inl ⟨by omega, hstart ▸ htype⟩
          · refine Or.inr ⟨p, ?_, hlt, hcodep, htype⟩
            by_contra hbefore
            rw [(hfree p (Nat.not_lt.mp hp) (Nat.not_le.mp hbefore)).1] at hcodep
            cases hcodep
        · rintro (⟨hlt, htype⟩ | ⟨p, hi, hrest⟩)
          · exact ⟨q, hiq, by omega, hq, hstart ▸ htype⟩
          · exact ⟨p, by omega, hrest⟩
      rw [hsplit, ← or_assoc]
      refine or_congr_left ?_
      split
      · next hlt => rw [note_has, and_iff_right hlt]
      · next hlt => simp [hlt]
  | case2 i found n hroom hcode ih =>
      simp only [Bool.or_eq_true, not_or, Bool.not_eq_true] at hcode
      rw [ih, headFrom_succ hcode.1]
  | case3 i found n hroom =>
      refine (or_iff_left ?_).symm
      rintro ⟨p, hi, hlt, -⟩
      omega

theorem scanAnnexB_keeps (found : Bool) (n : Nals) (h : found = true) :
    (scanAnnexB data i found n).1 = true := by
  fun_induction scanAnnexB data i found n with
  | case1 i found n hroom hcode nalStart ih =>
      simp only [dite_eq_ite] at ih
      exact ih trivial
  | case2 i found n hroom hcode ih => exact ih h
  | case3 => exact h

theorem scanAnnexB_found (n : Nals) : (scanAnnexB data i false n).1 = true ↔ CodeFrom data i := by
  generalize hfound : false = found
  fun_induction scanAnnexB data i found n with
  | case1 i found n hroom hcode nalStart ih =>
      rw [scanAnnexB_keeps true _ rfl]
      exact iff_of_true rfl ⟨i, Nat.le_refl i, hroom, by simpa using hcode⟩
  | case2 i found n hroom hcode ih =>
      rw [ih hfound]
      constructor
      · rintro ⟨p, hi, hrest⟩
        exact ⟨p, Nat.le_of_succ_le hi, hrest⟩
      · rintro ⟨p, hi, hrest⟩
        refine ⟨p, ?_, hrest⟩
        obtain rfl | hp := Nat.eq_or_lt_of_le hi
        · exact absurd (by simpa using hrest.2) hcode
        · exact hp
  | case3 i found n hroom =>
      subst hfound
      refine iff_of_false Bool.false_ne_true ?_
      rintro ⟨p, hi, hlt, -⟩
      omega

end Scan

section AnnexB

variable {k : NalKind}

/-- In front of the end of a unit there is no start code, where none begins with
a one behind it. -/
theorem startCodeAt_unit (u : NalUnit) {rest : List UInt8} (h₀ : byteAt rest 0 ≠ 1) (h₁ : byteAt rest 1 ≠ 1)
    {p : Nat} (hp : p < u.bytes.length) : startCodeAt (u.bytes ++ rest) p = false := by
  by_cases hin : p + 2 < u.bytes.length
  · have hfree := u.noCode p hin
    unfold startCodeAt at hfree ⊢
    rwa [byteAt_append_left hp, byteAt_append_left (by omega), byteAt_append_left hin]
  · apply startCodeAt_of_third
    rw [byteAt_append_right (Nat.not_lt.mp hin)]
    obtain hzero | hone : p + 2 - u.bytes.length = 0 ∨ p + 2 - u.bytes.length = 1 := by omega
    · rwa [hzero]
    · rwa [hone]

theorem startCodeAt_coded (long : Bool) (u : NalUnit) {rest : List UInt8} (h₀ : byteAt rest 0 ≠ 1)
    (h₁ : byteAt rest 1 ≠ 1) {p : Nat} (hp : p < (startCode long).length + u.bytes.length) :
    startCodeAt (startCode long ++ (u.bytes ++ rest)) p = true ↔ p + 3 = (startCode long).length := by
  by_cases hin : (startCode long).length ≤ p
  · rw [startCodeAt_append_right hin, startCodeAt_unit u h₀ h₁ (by omega)]
    exact iff_of_false Bool.false_ne_true (by omega)
  · cases long with
    | true =>
        have hcases : p = 0 ∨ p = 1 ∨ p = 2 ∨ p = 3 := by
          change ¬4 ≤ p at hin
          omega
        rcases hcases with rfl | rfl | rfl | rfl <;> simp [startCodeAt, startCode, byteAt]
    | false =>
        have hcases : p = 0 ∨ p = 1 ∨ p = 2 := by
          change ¬3 ≤ p at hin
          omega
        rcases hcases with rfl | rfl | rfl <;> simp [startCodeAt, startCode, byteAt]

theorem byteAt_annexB (units : List (Bool × NalUnit)) : byteAt (annexB units) 0 ≠ 1 ∧ byteAt (annexB units) 1 ≠ 1 := by
  cases units with
  | nil => decide
  | cons u units =>
      obtain ⟨long, u⟩ := u
      cases long with
      | true | false => simp [annexB, withStartCodes, startCode, byteAt]

theorem annexB_cons (long : Bool) (u : NalUnit) (units : List (Bool × NalUnit)) :
    annexB ((long, u) :: units) = startCode long ++ (u.bytes ++ annexB units) :=
  withStartCodes_cons long u.bytes _

/-- The start codes of two parts are those before the end of the first and those of
the second. -/
theorem headFrom_append (xs ys : List UInt8) : HeadFrom (xs ++ ys) 0 k ↔
    (∃ p < xs.length, p + 3 < (xs ++ ys).length ∧ startCodeAt (xs ++ ys) p = true ∧
      byteAt (xs ++ ys) (p + 3) &&& 0x1F = k.type) ∨ HeadFrom ys 0 k := by
  have hbehind : ∀ q, startCodeAt (xs ++ ys) (xs.length + q) = startCodeAt ys q ∧
      byteAt (xs ++ ys) (xs.length + q + 3) = byteAt ys (q + 3) := by
    intro q
    rw [startCodeAt_append_right (Nat.le_add_right _ _), byteAt_append_right (by omega), Nat.add_sub_cancel_left,
      Nat.add_assoc, Nat.add_sub_cancel_left]
    exact ⟨rfl, rfl⟩
  constructor
  · rintro ⟨p, -, hlt, hcode, htype⟩
    by_cases hp : p < xs.length
    · exact Or.inl ⟨p, hp, hlt, hcode, htype⟩
    · obtain ⟨q, rfl⟩ := Nat.exists_eq_add_of_le (Nat.not_lt.mp hp)
      rw [(hbehind q).1] at hcode
      rw [(hbehind q).2] at htype
      rw [List.length_append] at hlt
      exact Or.inr ⟨q, Nat.zero_le q, by omega, hcode, htype⟩
  · rintro (⟨p, -, hrest⟩ | ⟨q, -, hlt, hcode, htype⟩)
    · exact ⟨p, Nat.zero_le p, hrest⟩
    · refine ⟨xs.length + q, Nat.zero_le _, ?_, (hbehind q).1.trans hcode, (hbehind q).2 ▸ htype⟩
      rw [List.length_append]
      omega

theorem headFrom_annexB (units : List (Bool × NalUnit)) :
    HeadFrom (annexB units) 0 k ↔ ∃ u ∈ units, u.2.type = k.type := by
  induction units with
  | nil =>
      refine iff_of_false ?_ ?_
      · rintro ⟨p, -, hlt, -⟩
        exact absurd hlt (Nat.not_lt_zero _)
      · rintro ⟨u, hu, -⟩
        cases hu
  | cons u units ih =>
      obtain ⟨long, u⟩ := u
      obtain ⟨h₀, h₁⟩ := byteAt_annexB units
      have hpos := u.length_pos
      have hcode : 3 ≤ (startCode long).length := by
        cases long <;> decide
      have hcoded := fun p hp => @startCodeAt_coded long u _ h₀ h₁ p hp
      have hhead : byteAt (startCode long ++ (u.bytes ++ annexB units)) (startCode long).length =
          byteAt u.bytes 0 := by
        rw [byteAt_append_right (Nat.le_refl _), Nat.sub_self, byteAt_append_left hpos]
      rw [annexB_cons, ← List.append_assoc, headFrom_append, ih, List.exists_mem_cons_iff, List.append_assoc]
      refine or_congr_left ⟨?_, fun htype => ?_⟩
      · rintro ⟨p, hp, -, hcodep, htype⟩
        rw [List.length_append] at hp
        rw [(hcoded p hp).mp hcodep, hhead] at htype
        exact htype
      · refine ⟨(startCode long).length - 3, ?_, ?_, (hcoded _ (by omega)).mpr (by omega), ?_⟩
        · rw [List.length_append]
          omega
        · rw [List.length_append, List.length_append]
          omega
        · rw [Nat.sub_add_cancel hcode, hhead]
          exact htype

end AnnexB

section LengthPrefixed

theorem signed32_small {v : Nat} (hv : v < 2147483648) : Rtp.signed32 (UInt32.ofNat v) = v := by
  unfold Rtp.signed32
  rw [UInt32.toBitVec_ofNat', BitVec.toInt_eq_toNat_of_lt]
  · rw [BitVec.toNat_ofNat, Nat.mod_eq_of_lt (by omega)]
  · rw [BitVec.toNat_ofNat]
    omega

theorem foldl_note_has (units : List NalUnit) (n : Nals) (k : NalKind) :
    (units.foldl (fun n u => n.note (byteAt u.bytes 0)) n).has k = true ↔
      n.has k = true ∨ ∃ u ∈ units, u.type = k.type := by
  induction units generalizing n with
  | nil => simp
  | cons u units ih =>
      rw [List.foldl_cons, ih, note_has, List.exists_mem_cons_iff, or_assoc]
      rfl

theorem lengthPrefixed_cons (u : NalUnit) (units : List NalUnit) :
    lengthPrefixed (u :: units) = beBytes 4 u.bytes.length ++ (u.bytes ++ lengthPrefixed units) :=
  withLengths_cons 4 u.bytes _

theorem length_le_lengthPrefixed (units : List NalUnit) : units.length ≤ (lengthPrefixed units).length := by
  induction units with
  | nil => exact Nat.le_refl 0
  | cons u units ih =>
      rw [lengthPrefixed_cons, List.length_cons, List.length_append, length_beBytes, List.length_append]
      omega

theorem scanLengthPrefixed_units (units : List NalUnit) (head : List UInt8) (n : Nals) {fuel : Nat}
    (hfuel : units.length < fuel) (hsize : (head ++ lengthPrefixed units).length ≤ int32Max) :
    scanLengthPrefixed (head ++ lengthPrefixed units) fuel head.length n =
      some (units.foldl (fun n u => n.note (byteAt u.bytes 0)) n) := by
  induction units generalizing head n fuel with
  | nil =>
      obtain ⟨fuel, rfl⟩ := Nat.exists_eq_add_of_lt hfuel
      rw [lengthPrefixed, List.map_nil, withLengths, List.flatMap_nil, List.append_nil, scanLengthPrefixed, if_neg (by omega)]
      rfl
  | cons u units ih =>
      obtain ⟨fuel, rfl⟩ := Nat.exists_eq_succ_of_ne_zero (Nat.ne_of_gt (Nat.zero_lt_of_lt hfuel))
      have hpos := u.length_pos
      rw [lengthPrefixed_cons] at hsize ⊢
      simp only [List.length_append, length_beBytes, int32Max] at hsize
      have hlength := avRb32_length head (u.bytes ++ lengthPrefixed units) (by omega : u.bytes.length < _)
      have hsigned := @signed32_small u.bytes.length (by omega)
      have hne : UInt32.ofNat u.bytes.length ≠ 0 := by
        intro hzero
        have hnat := congrArg UInt32.toNat hzero
        rw [UInt32.toNat_ofNat', Nat.mod_eq_of_lt (by omega)] at hnat
        exact absurd hnat (Nat.ne_of_gt hpos)
      have hfirst : byteAt (head ++ (beBytes 4 u.bytes.length ++ (u.bytes ++ lengthPrefixed units)))
          ((head.length : Int) + 4).toNat = byteAt u.bytes 0 := by
        rw [show ((head.length : Int) + 4).toNat = head.length + 4 by omega,
          byteAt_append_right (Nat.le_add_right _ _), Nat.add_sub_cancel_left,
          byteAt_append_right (by rw [length_beBytes]), length_beBytes, Nat.sub_self, byteAt_append_left hpos]
      have hnext : head ++ (beBytes 4 u.bytes.length ++ (u.bytes ++ lengthPrefixed units)) =
          (head ++ (beBytes 4 u.bytes.length ++ u.bytes)) ++ lengthPrefixed units := by
        rw [List.append_assoc, List.append_assoc]
      have hplace : (head.length : Int) + 4 + (u.bytes.length : Int) =
          ((head ++ (beBytes 4 u.bytes.length ++ u.bytes)).length : Int) := by
        simp only [List.length_append, length_beBytes]
        omega
      have hrest := ih (head ++ (beBytes 4 u.bytes.length ++ u.bytes)) (n.note (byteAt u.bytes 0))
        (Nat.lt_of_succ_lt_succ hfuel) (by
          simp only [List.length_append, length_beBytes, int32Max]
          omega)
      rw [scanLengthPrefixed]
      simp only [Int.toNat_natCast, hlength, hsigned, hfirst]
      rw [if_pos (by simp only [List.length_append, length_beBytes]; omega), if_neg (by omega), if_neg hne,
        if_neg (by simp only [int32Max]; omega), if_neg (by simp only [List.length_append, length_beBytes]; omega),
        hplace, hnext]
      exact hrest

end LengthPrefixed

section Written

theorem tellsTypes_iff_scan (w : Written) :
    TellsTypes w.bytes w.units ↔ scanH264Nals w.bytes = some (typesOf w.units) := by
  refine ⟨fun h => h.scan, fun hscan => ⟨hscan, fun st pkt hcodec hdata => ?_⟩⟩
  unfold hasKeyframeInfo
  rw [hdata, hscan, hcodec]
  by_cases hempty : w.bytes = []
  · rw [if_pos hempty]
    rw [hempty] at hscan
    have hnone : Nals.none = typesOf w.units := Option.some.inj hscan
    rw [← hnone]
    rfl
  · rw [if_neg hempty]
    rfl

theorem scanH264Nals_eq (data : List UInt8) : scanH264Nals data =
    if (scanAnnexB data 0 false .none).1 = true then some (scanAnnexB data 0 false .none).2
    else scanLengthPrefixed data (data.length + 2) 0 (scanAnnexB data 0 false .none).2 := by
  unfold scanH264Nals
  split
  · next hempty =>
      subst hempty
      rw [scanAnnexB, if_neg (by decide)]
      rfl
  · rfl

theorem scanAnnexB_none_has (data : List UInt8) (k : NalKind) :
    (scanAnnexB data 0 false .none).2.has k = true ↔ HeadFrom data 0 k := by
  rw [scanAnnexB_has]
  exact or_iff_right (by cases k <;> exact Bool.false_ne_true)

theorem scan_of_code {data : List UInt8} (h : CodeFrom data 0) (units : List NalUnit) :
    scanH264Nals data = some (typesOf units) ↔
      ∀ k : NalKind, (∃ u ∈ units, u.type = k.type) ↔ HeadFrom data 0 k := by
  have hhas := scanAnnexB_none_has data
  rw [scanH264Nals_eq, if_pos ((scanAnnexB_found .none).mpr h), Option.some_inj]
  constructor
  · intro hsame k
    rw [← typesOf_has, ← hhas, hsame]
  · intro hiff
    apply Nals.ext_has
    intro k
    rw [Bool.eq_iff_iff, hhas, typesOf_has, hiff]

theorem scan_annexB (units : List (Bool × NalUnit)) :
    scanH264Nals (annexB units) = some (typesOf (units.map (·.2))) := by
  cases units with
  | nil => rfl
  | cons u units =>
      have hheads : ∀ k : NalKind, (∃ v ∈ ((u :: units).map (·.2)), v.type = k.type) ↔
          HeadFrom (annexB (u :: units)) 0 k := by
        intro k
        rw [headFrom_annexB]
        simp only [List.mem_map, exists_exists_and_eq_and]
      refine (scan_of_code ?_ _).mpr hheads
      obtain ⟨long, u⟩ := u
      obtain ⟨h₀, h₁⟩ := byteAt_annexB units
      have hpos := u.length_pos
      have hcode : 3 ≤ (startCode long).length := by
        cases long <;> decide
      refine ⟨(startCode long).length - 3, Nat.zero_le _, ?_, Or.inl ?_⟩
      · rw [annexB_cons, List.length_append, List.length_append]
        omega
      · rw [annexB_cons]
        exact (startCodeAt_coded long u h₀ h₁ (by omega)).mpr (by omega)

theorem scan_lengthPrefixed {units : List NalUnit} (hsize : (lengthPrefixed units).length ≤ int32Max)
    (h : ¬CodeFrom (lengthPrefixed units) 0) : scanH264Nals (lengthPrefixed units) = some (typesOf units) := by
  have hle := length_le_lengthPrefixed units
  have hscan := scanLengthPrefixed_units units [] .none (by omega : _ < (lengthPrefixed units).length + 2) hsize
  rw [List.nil_append, List.length_nil] at hscan
  have hunnoted : (scanAnnexB (lengthPrefixed units) 0 false .none).2 = .none := by
    apply Nals.ext_has
    intro k
    rw [Bool.eq_iff_iff, scanAnnexB_none_has]
    refine iff_of_false ?_ (by cases k <;> exact Bool.false_ne_true)
    rintro ⟨p, hp, hlt, hcode, -⟩
    exact h ⟨p, hp, hlt, Or.inl hcode⟩
  rw [scanH264Nals_eq, if_neg fun hfound => h ((scanAnnexB_found .none).mp hfound), hunnoted]
  refine hscan.trans (congrArg some ?_)
  apply Nals.ext_has
  intro k
  rw [Bool.eq_iff_iff, foldl_note_has, typesOf_has]
  exact or_iff_right (by cases k <;> exact Bool.false_ne_true)

end Written

/-- The units of a packet are told by their types unless their lengths look like
start codes, and then where the types behind these are the same. -/
theorem nal_types_told_iff (w : Written) (hsize : w.bytes.length ≤ int32Max) :
    TellsTypes w.bytes w.units ↔ w.Undisguised := by
  rw [tellsTypes_iff_scan]
  cases w with
  | annexB units => exact iff_of_true (scan_annexB units) trivial
  | lengthPrefixed units =>
      by_cases hcode : CodeFrom (lengthPrefixed units) 0
      · exact (scan_of_code hcode units).trans (or_iff_right (not_not.mpr hcode)).symm
      · exact iff_of_true (scan_lengthPrefixed hsize hcode) (Or.inl hcode)

section Examples

theorem ones_noCode (header : UInt8) (n i : Nat) (hi : i + 2 < (header :: List.replicate n 0xFF).length) :
    startCodeAt (header :: List.replicate n 0xFF) i = false := by
  apply startCodeAt_of_third
  rw [List.length_cons, List.length_replicate] at hi
  rw [byteAt, List.getD_cons_succ, List.getD_eq_getElem _ _ (by rw [List.length_replicate]; omega),
    List.getElem_replicate]
  decide

def onesUnit (header : UInt8) (n : Nat) : NalUnit where
  bytes := header :: List.replicate n 0xFF
  nonempty := List.cons_ne_nil _ _
  noCode := ones_noCode header n

theorem codeFrom_iff_range (data : List UInt8) : CodeFrom data 0 ↔
    ∃ p ∈ List.range (data.length - 3), (startCodeAt data p || startCode4 data p) = true := by
  simp only [List.mem_range, Bool.or_eq_true]
  constructor
  · rintro ⟨p, -, hroom, hcode⟩
    exact ⟨p, by omega, hcode⟩
  · rintro ⟨p, hp, hcode⟩
    exact ⟨p, Nat.zero_le p, by omega, hcode⟩

theorem headFrom_range {data : List UInt8} {k : NalKind} (h : HeadFrom data 0 k) :
    ∃ rest ∈ data.tails, startCodeAt rest 0 = true ∧ byteAt rest 3 &&& 0x1F = k.type := by
  obtain ⟨p, -, -, hcode, htype⟩ := h
  refine ⟨data.drop p, (List.mem_tails _ _).mpr (List.drop_suffix p data), ?_, ?_⟩
  · rw [startCodeAt, byteAt_drop, byteAt_drop, byteAt_drop]
    exact hcode
  · rw [byteAt_drop]
    exact htype

/-- A parameter set of each kind and an IDR slice. -/
theorem nal_types_told_keyframe :
    TellsTypes (Written.lengthPrefixed [onesUnit 0x67 2, onesUnit 0x68 2, onesUnit 0x65 4]).bytes
      [onesUnit 0x67 2, onesUnit 0x68 2, onesUnit 0x65 4] := by
  refine (nal_types_told_iff (.lengthPrefixed [onesUnit 0x67 2, onesUnit 0x68 2, onesUnit 0x65 4]) ?_).mpr (Or.inl ?_)
  · decide +kernel
  · rw [codeFrom_iff_range]
    decide +kernel

/-- The length of an IDR slice of 256 bytes is taken for a start code. -/
theorem idr_length_taken_for_code :
    ¬ ∀ w : Written, w.bytes.length ≤ int32Max → TellsTypes w.bytes w.units := by
  intro h
  have hscan := (h (.lengthPrefixed [onesUnit 0x65 255]) (by decide +kernel)).scan
  have hcode : CodeFrom (Written.lengthPrefixed [onesUnit 0x65 255]).bytes 0 :=
    ⟨0, Nat.le_refl 0, by decide +kernel, Or.inl (by decide +kernel)⟩
  have hidr : ∃ u ∈ [onesUnit 0x65 255], u.type = NalKind.type .idr :=
    ⟨_, List.mem_singleton_self _, by decide⟩
  have hhead := headFrom_range (((scan_of_code hcode _).mp hscan .idr).mp hidr)
  revert hhead
  decide +kernel

end Examples

end P2PFFmpeg.Demux
