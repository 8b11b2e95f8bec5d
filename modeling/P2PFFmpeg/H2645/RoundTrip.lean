import P2PFFmpeg.H2645.Rbsp

namespace P2PFFmpeg.H2645

open Bits Library.BitField Library.Scan Payload Util

/-- A field of `n` bits in the header of a unit. -/
def CodedBitstreamUnit.header (unit : CodedBitstreamUnit) (i n : Nat) : Nat := window (bitAt unit.data) i n

def HeaderFields (codec : Codec) (unit : CodedBitstreamUnit) : Prop :=
  unit.header 0 1 = 0 ∧
    match codec with
    | .h264 => unit.type = unit.header 3 5
    | .hevc => 2 ≤ unit.data.length ∧ unit.header 7 6 = 0 ∧ 0 < unit.header 13 3 ∧ unit.type = unit.header 1 6
    | .vvc => 2 ≤ unit.data.length ∧ 0 < unit.header 13 3 ∧ unit.type = unit.header 8 5 ∧
        (7 ≤ unit.type → unit.type ≤ 11 → unit.header 13 3 = 1)

instance : (codec : Codec) → (unit : CodedBitstreamUnit) → Decidable (HeaderFields codec unit)
  | .h264, _ => inferInstanceAs (Decidable (_ ∧ _))
  | .hevc, _ => inferInstanceAs (Decidable (_ ∧ _))
  | .vvc, _ => inferInstanceAs (Decidable (_ ∧ _))

/-- A unit that does not end with a zero byte, with the type of its header. -/
structure Coded (codec : Codec) (unit : CodedBitstreamUnit) : Prop where
  nonempty : unit.data ≠ []
  last : unit.data.getLast nonempty ≠ 0
  header : HeaderFields codec unit

variable {codec : Codec} {unit : CodedBitstreamUnit} {rb : ReaderBuild} {zeros : Nat}

theorem header_append {i n : Nat} (tail : List UInt8) (h : i + n ≤ 8 * unit.data.length) :
    window (bitAt (unit.data ++ tail)) i n = unit.header i n := by
  refine window_congr fun j hj => ?_
  rw [bitAt, bitAt, byteAt_append_left (by omega)]

theorem getBits_fst {s : GetBitContext} {n : Nat} (hn : n ≤ 25) : (getBits rb n s).1 = s.ahead n :=
  showBits_eq hn

theorem getBits_snd {s : GetBitContext} {n : Nat} (h : s.index + n ≤ s.sizeInBitsPlus8) :
    (getBits rb n s).2 = { s with index := s.index + n } := by
  rw [getBits, skipBitsLong, Nat.min_eq_right h, ite_self]

theorem Coded.headerBits (h : Coded codec unit) :
    8 ≤ 8 * unit.data.length ∧ (codec ≠ .h264 → 16 ≤ 8 * unit.data.length) := by
  have hpos := List.length_pos_iff.mpr h.nonempty
  have hheader := h.header.2
  cases codec with
  | h264 => exact ⟨by omega, fun hne => absurd rfl hne⟩
  | hevc => exact ⟨by omega, fun _ => by have := hheader.1; omega⟩
  | vvc => exact ⟨by omega, fun _ => by have := hheader.1; omega⟩

theorem parseNalHeader_unit (h : Coded codec unit) (tail : List UInt8) {bits : Nat} (hbits : 0 < bits)
    (hlong : codec ≠ .h264 → 7 ≤ bits) (nal : H2645NAL) (hnal : nal.nuhLayerId = 0) :
    ∃ found, parseNalHeader rb codec ⟨unit.data ++ tail, 0, bits, bits + 8⟩ nal = some found ∧
      found.data = nal.data ∧ found.type = unit.type ∧ (codec ≠ .vvc → found.nuhLayerId = 0) := by
  obtain ⟨hone, htwo⟩ := h.headerBits
  have hfield : ∀ i n, i + n ≤ 8 * unit.data.length →
      GetBitContext.ahead ⟨unit.data ++ tail, i, bits, bits + 8⟩ n = unit.header i n :=
    fun i n hin => header_append tail hin
  have hforbidden : getBits1 rb ⟨unit.data ++ tail, 0, bits, bits + 8⟩ =
      (0, ⟨unit.data ++ tail, 1, bits, bits + 8⟩) := by
    have hread : Reading ⟨unit.data ++ tail, 0, bits, bits + 8⟩ 1 := ⟨rfl, (Nat.zero_add 1).symm ▸ hbits⟩
    rw [getBits1_eq hread, hfield 0 1 (by omega), h.header.1]
  have hget : ∀ i n, n ≤ 25 → i + n ≤ 8 * unit.data.length → i + n ≤ bits + 8 →
      getBits rb n ⟨unit.data ++ tail, i, bits, bits + 8⟩ =
        (unit.header i n, ⟨unit.data ++ tail, i + n, bits, bits + 8⟩) := by
    intro i n hn hin hbits'
    refine Prod.ext ?_ ?_
    · rw [getBits_fst hn, hfield i n hin]
    · exact getBits_snd hbits'
  rw [parseNalHeader, hforbidden]
  obtain ⟨-, hheader⟩ := h.header
  cases codec with
  | h264 =>
      simp only [ne_eq, not_true_eq_false, if_false, hget 1 2 (by decide) (by omega) (by omega),
        getBits_fst (show 5 ≤ 25 by decide), hfield 3 5 (by omega)]
      exact ⟨_, rfl, rfl, hheader.symm, fun _ => hnal⟩
  | hevc =>
      have hin := htwo (by decide)
      have hlong := hlong (by decide)
      obtain ⟨-, hlayer, htid, htype⟩ := hheader
      simp only [ne_eq, not_true_eq_false, if_false, hget 1 6 (by decide) (by omega) (by omega),
        hget 7 6 (by decide) (by omega) (by omega), getBits_fst (show 3 ≤ 25 by decide),
        hfield 13 3 (by omega)]
      exact ⟨_, if_neg (by omega), rfl, htype.symm, fun _ => hlayer⟩
  | vvc =>
      have hin := htwo (by decide)
      have hlong := hlong (by decide)
      obtain ⟨-, htid, htype, hirap⟩ := hheader
      have hskip : skipBitsLong rb 1 ⟨unit.data ++ tail, 1, bits, bits + 8⟩ =
          ⟨unit.data ++ tail, 2, bits, bits + 8⟩ := by
        rw [skipBitsLong, Nat.min_eq_right (show 1 + 1 ≤ bits + 8 by omega), ite_self]
      simp only [ne_eq, not_true_eq_false, if_false, hskip, hget 2 6 (by decide) (by omega) (by omega),
        hget 8 5 (by decide) (by omega) (by omega), getBits_fst (show 3 ≤ 25 by decide),
        hfield 13 3 (by omega)]
      refine ⟨_, if_neg ?_, rfl, htype.symm, fun hvvc => hvvc.elim⟩
      rw [← htype]
      rintro (hneg | ⟨hlo, hhi, hne⟩)
      · omega
      · rw [hirap hlo hhi] at hne
        exact hne rfl

variable {u : List UInt8} {k : Nat}

theorem dropWhile_trailing (hne : u ≠ []) (hlast : u.getLast hne ≠ 0) (zeros : Nat) :
    (u ++ List.replicate zeros 0).reverse.dropWhile (· = 0) = u.reverse := by
  rw [List.reverse_append, List.reverse_replicate, List.dropWhile_append]
  have hzeros : (List.replicate zeros (0 : UInt8)).dropWhile (· = 0) = [] := by
    induction zeros with
    | zero => rfl
    | succ zeros ih => rw [List.replicate_succ, List.dropWhile_cons_of_pos (by simp), ih]
  have hrev : u.reverse = u.getLast hne :: u.dropLast.reverse := by
    conv_lhs => rw [← List.dropLast_append_getLast hne, List.reverse_append]
    rfl
  rw [hzeros, List.isEmpty_nil, if_pos rfl, hrev, List.dropWhile_cons_of_neg (by simpa using hlast)]

theorem removeTrailingZeros_unit (hne : u ≠ []) (hlast : u.getLast hne ≠ 0) (zeros : Nat) :
    removeTrailingZeros (u ++ List.replicate zeros 0) = u := by
  rw [removeTrailingZeros, dropWhile_trailing hne hlast, List.reverse_reverse]

theorem getBitLength_unit (hne : u ≠ []) (hlast : u.getLast hne ≠ 0) (zeros : Nat) {minSize : Nat}
    (hstart : 0 < minSize) (hmin : minSize ≤ u.length) : ∃ bits : Nat,
      getBitLength (u ++ List.replicate zeros 0) minSize true =
        (if u.length > intMax / 8 then -34 else (bits : Int)) ∧
      (u.length = minSize ∧ bits = 8 * minSize ∨
        minSize < u.length ∧ bits < 8 * u.length ∧ 8 * u.length ≤ bits + 9) := by
  have hpos := List.length_pos_iff.mpr hne
  have hsize : ((u ++ List.replicate zeros 0).reverse.dropWhile (· = 0)).length = u.length := by
    rw [dropWhile_trailing hne hlast, List.length_reverse]
  have hlong : ¬ (u.length ≤ minSize ∧ (u ++ List.replicate zeros 0).length < minSize) := by
    rw [List.length_append]
    omega
  rw [getBitLength]
  simp only [if_true, hsize, if_neg (Nat.ne_of_gt hpos), if_neg hlong]
  by_cases hheader : u.length ≤ minSize
  · have heq : u.length = minSize := Nat.le_antisymm hheader hmin
    refine ⟨8 * minSize, ?_, .inl ⟨heq, rfl⟩⟩
    rw [← heq]
    simp [Nat.mul_comm]
  · have hbyte : byteAt (u ++ List.replicate zeros 0) (u.length - 1) = u.getLast hne := by
      rw [byteAt_append_left (by omega), byteAt, List.getD_eq_getElem _ _ (by omega), List.getLast_eq_getElem]
    have hnonzero : (u.getLast hne).toNat ≠ 0 := fun h => hlast (UInt8.toNat_inj.mp h)
    simp only [if_neg hheader, hbyte, if_pos hnonzero]
    have hstop := @first_le (fun k => (u.getLast hne).toNat.testBit k) 0 8 (by decide)
    generalize first (fun k => (u.getLast hne).toNat.testBit k) 0 8 = stop at *
    refine ⟨8 * u.length - (stop + 1), ?_, .inr ⟨by omega, by omega, by omega⟩⟩
    split
    · rfl
    · omega

theorem initGetBits_short {buffer : List UInt8} {bits : Nat} (h : bits < intMax - 512) :
    initGetBits buffer bits = (0, ⟨buffer, 0, bits, bits + 8⟩) :=
  if_neg (Nat.not_le.mpr h)

/-- What stands behind a unit: the end, or a start code, of which `zeros` bytes are taken for
a part of the unit. -/
inductive Follows : List UInt8 → Nat → Prop
  | done : Follows [] 0
  | code (zeros : Nat) (h : UInt8) (rest : List UInt8) (hzeros : zeros ≤ 1) (hh : h.toNat < 128) :
      Follows (List.replicate zeros 0 ++ 0 :: 0 :: 1 :: h :: rest) zeros

variable {tail mem padding : List UInt8} {length tell : Nat}

theorem Follows.strip_eq (h : Follows tail zeros) : strip tail = (List.replicate zeros 0, zeros) := by
  cases h with
  | done => rfl
  | code zeros h rest hzeros hh =>
      obtain rfl | rfl : zeros = 0 ∨ zeros = 1 := by omega
      · exact strip_code
      · have hcopy : strip (0 :: 0 :: 0 :: 1 :: h :: rest) =
            (0 :: (strip (0 :: 0 :: 1 :: h :: rest)).1, (strip (0 :: 0 :: 1 :: h :: rest)).2 + 1) := by
          rw [strip, if_neg (by decide)]
        change strip (0 :: 0 :: 0 :: 1 :: h :: rest) = ([0], 1)
        rw [hcopy, strip_code]

theorem Follows.peek (h : Follows tail zeros) (padding : List UInt8) :
    ¬ (tail.length - zeros ≥ 4 ∧ bigEndian (((tail ++ padding).drop zeros).take 4) = 0x000001e0) := by
  cases h with
  | done => simp
  | code zeros h rest hzeros hh =>
      rintro ⟨-, hpeek⟩
      rw [List.append_assoc, List.drop_left' (List.length_replicate)] at hpeek
      have hvalue : bigEndian [0, 0, 1, h] = 256 + h.toNat := by
        simp [bigEndian]
      rw [show ((0 :: 0 :: 1 :: h :: rest) ++ padding).take 4 = [0, 0, 1, h] from rfl, hvalue] at hpeek
      omega

def Kept (unit : CodedBitstreamUnit) : Bool := unit.data.length ≤ intMax / 8

theorem splitUnit_unit (b : ScanBuild) (h : Coded codec unit) (hfollows : Follows tail zeros)
    (hmem : mem.drop tell = preventEmulation 0 unit.data ++ tail ++ padding)
    (hlength : length = tell + ((preventEmulation 0 unit.data).length + tail.length))
    (hsize : Kept unit → 8 * unit.data.length ≤ intMax - 512) :
    ∃ found : H2645NAL, found.data = unit.data ++ List.replicate zeros 0 ∧ found.type = unit.type ∧
      (codec ≠ .vvc → found.nuhLayerId = 0) ∧
      splitUnit b rb codec mem length tell (length - tell) true =
        some (.ok (tell + (preventEmulation 0 unit.data).length + zeros,
          if Kept unit then some found else none)) := by
  have hzeros : zeros ≤ tail.length := by
    cases hfollows with
    | done => exact Nat.le_refl 0
    | code zeros h rest => simp
  have hminSize : 0 < 1 + (if codec = .hevc then 1 else 0) ∧
      1 + (if codec = .hevc then 1 else 0) ≤ unit.data.length := by
    have hheader := h.headerBits
    cases codec <;> simp at hheader ⊢ <;> omega
  obtain ⟨bits, hbits, hcount⟩ := getBitLength_unit h.nonempty h.last zeros hminSize.1 hminSize.2
  have hstrip := @strip_preventEmulation tail unit.data 0 (Nat.zero_le 2) (fun _ => h.last)
    fun hnil => absurd hnil h.nonempty
  simp only [List.replicate_zero, List.nil_append, Nat.zero_add, hfollows.strip_eq] at hstrip
  have htake : (mem.drop tell).take (length - tell) = preventEmulation 0 unit.data ++ tail := by
    rw [hmem, List.take_left' (by rw [List.length_append]; omega)]
  obtain ⟨skipped, hextract⟩ := ffH2645ExtractRbsp_eq b H2645NAL.zero true
    (show length - tell ≤ (mem.drop tell).length by rw [hmem]; simp only [List.length_append]; omega)
  rw [htake, hstrip] at hextract
  have hskip : bytestream2Skip length tell (((preventEmulation 0 unit.data).length + zeros : Nat) : Int) =
      tell + (preventEmulation 0 unit.data).length + zeros := by
    rw [bytestream2Skip, if_neg (by omega), Int.toNat_natCast]
    omega
  have hpeek : ¬ (length - (tell + (preventEmulation 0 unit.data).length + zeros) ≥ 4 ∧
      bigEndian ((mem.drop (tell + (preventEmulation 0 unit.data).length + zeros)).take 4) = 0x000001e0) := by
    have hdrop : mem.drop (tell + (preventEmulation 0 unit.data).length + zeros) =
        (tail ++ padding).drop zeros := by
      rw [Nat.add_assoc, ← List.drop_drop, hmem, List.append_assoc, ← List.drop_drop, List.drop_left]
    rw [hdrop, show length - (tell + (preventEmulation 0 unit.data).length + zeros) = tail.length - zeros by omega]
    exact hfollows.peek padding
  have hdata : ¬ (unit.data ++ List.replicate zeros 0).length = 0 := by
    have hpos := List.length_pos_iff.mpr h.nonempty
    rw [List.length_append]
    omega
  have hfew : 0 < bits ∧ (codec ≠ .h264 → 7 ≤ bits) := by
    have hheader := h.headerBits
    cases codec <;> simp at hheader hcount ⊢ <;> omega
  obtain ⟨found, hparse, hfound, htype, hlayer⟩ := @parseNalHeader_unit codec unit rb h
    (List.replicate zeros 0) bits hfew.1 hfew.2 { H2645NAL.zero with
      data := unit.data ++ List.replicate zeros 0
      rawSize := (preventEmulation 0 unit.data).length + zeros
      skippedBytesPos := skipped
      sizeBits := bits } rfl
  refine ⟨found, hfound, htype, hlayer, ?_⟩
  rw [splitUnit, hextract, Option.map_some]
  simp only [hskip, hpeek, not_false_eq_true, decide_true, hbits]
  by_cases hkept : unit.data.length ≤ intMax / 8
  · have hsize := hsize (by simpa [Kept] using hkept)
    have hroom : bits < intMax - 512 := by
      have hmin : 1 + (if codec = .hevc then 1 else 0) ≤ 2 := by split <;> decide
      have hmax : 16 < intMax - 512 := by decide
      omega
    simp only [if_neg (Nat.not_lt.mpr hkept), hdata, false_or, Int.toNat_natCast, initGetBits_short hroom,
      hparse, Kept,
      decide_eq_true hkept, if_true]
    rw [if_neg (by omega), if_neg (by decide)]
  · simp only [if_pos (Nat.not_le.mp hkept), Kept, decide_eq_false hkept]
    rw [if_pos (.inr (by decide))]
    rfl

theorem Coded.first_byte (h : Coded codec unit) :
    ∃ (b : UInt8) (rest : List UInt8), unit.data = b :: rest ∧ b.toNat < 128 := by
  obtain ⟨b, rest, hdata⟩ := List.exists_cons_of_ne_nil h.nonempty
  refine ⟨b, rest, hdata, ?_⟩
  have hforbidden := h.header.1
  have hbyte := window_byte unit.data 0
  rw [CodedBitstreamUnit.header, ← window_div (bitAt unit.data) 0 1 7] at hforbidden
  rw [Nat.mul_zero, hdata] at hbyte
  rw [hdata, hbyte] at hforbidden
  have hlt : b.toNat / 2 ^ 7 = 0 := hforbidden
  omega

theorem assembleUnits_follows {units : List CodedBitstreamUnit} (i : Nat) (h : ∀ unit ∈ units, Coded codec unit) :
    ∃ zeros, Follows (assembleUnits codec i units) zeros ∧ ∀ unit rest, units = unit :: rest →
      (assembleUnits codec i units).drop zeros =
        [0, 0, 1] ++ preventEmulation 0 unit.data ++ assembleUnits codec (i + 1) rest := by
  cases units with
  | nil => exact ⟨0, .done, fun unit rest hcons => nomatch hcons⟩
  | cons unit rest =>
      obtain ⟨b, bytes, hdata, hb⟩ := (h unit (List.mem_cons_self ..)).first_byte
      have hesc : preventEmulation 0 unit.data = b :: preventEmulation (if b = 0 then 1 else 0) bytes := by
        rw [hdata, preventEmulation, if_pos (by decide)]
      have hcons : ∀ u r, unit :: rest = u :: r → unit = u ∧ rest = r := by
        intro u r hur
        exact ⟨(List.cons.inj hur).1, (List.cons.inj hur).2⟩
      by_cases hzero : cbsH2645UnitRequiresZeroByte codec unit.type i = true
      · have hassemble : assembleUnits codec i (unit :: rest) = List.replicate 1 0 ++
            0 :: 0 :: 1 :: b :: (preventEmulation (if b = 0 then 1 else 0) bytes ++
              assembleUnits codec (i + 1) rest) := by
          rw [assembleUnits, if_pos hzero, hesc]
          rfl
        refine ⟨1, hassemble ▸ .code 1 b _ (Nat.le_refl 1) hb, fun u r hur => ?_⟩
        obtain ⟨rfl, rfl⟩ := hcons u r hur
        rw [assembleUnits, if_pos hzero]
        rfl
      · have hassemble : assembleUnits codec i (unit :: rest) = List.replicate 0 0 ++
            0 :: 0 :: 1 :: b :: (preventEmulation (if b = 0 then 1 else 0) bytes ++
              assembleUnits codec (i + 1) rest) := by
          rw [assembleUnits, if_neg hzero, hesc]
          rfl
        refine ⟨0, hassemble ▸ .code 0 b _ (Nat.zero_le 1) hb, fun u r hur => ?_⟩
        obtain ⟨rfl, rfl⟩ := hcons u r hur
        rw [assembleUnits, if_neg hzero]
        rfl

theorem nextUnit_code {zero rest : List UInt8} (n : Nat) (found : Bool) (hzero : zero = [0] ∨ zero = [])
    (hrest : 0 < rest.length) (hmem : mem.drop tell = zero ++ [0, 0, 1] ++ rest ++ padding)
    (hlength : length = tell + zero.length + 3 + rest.length) : nextUnit n mem length length tell found =
      .unit length (tell + zero.length + 3) (length - (tell + zero.length + 3)) := by
  have hcode : findNextStartCode (mem.drop tell) ((length : Int) - tell) = (zero.length + 3 : Nat) := by
    rw [findNextStartCode, if_neg (by omega), hmem]
    have hfirst : first (startCodeAt (zero ++ [0, 0, 1] ++ rest ++ padding)) 0
        ((length : Int) - tell - 3).toNat = zero.length := by
      refine first_eq (Nat.zero_le _) (by omega) ?_ ?_
      · intro j _ hj
        obtain rfl | rfl := hzero
        · obtain rfl : j = 0 := by simpa using hj
          rfl
        · exact absurd hj (Nat.not_lt_zero j)
      · intro _
        obtain rfl | rfl := hzero
        · rfl
        · rfl
    rw [hfirst]
    rfl
  have hskip : bytestream2Skip length tell ((zero.length + 3 : Nat) : Int) = tell + zero.length + 3 := by
    rw [bytestream2Skip, if_neg (by omega), Int.toNat_natCast]
    omega
  rw [nextUnit, if_neg (by omega)]
  simp only [hcode, hskip]
  rw [if_neg (by omega), if_neg (by omega), Nat.min_self]

theorem splitLoop_unit (b : ScanBuild) (rb : ReaderBuild) (n : Nat) {zero : List UInt8} (fuel : Nat)
    (nals : List H2645NAL) (h : Coded codec unit) (hsize : Kept unit → 8 * unit.data.length ≤ intMax - 512)
    (hzero : zero = [0] ∨ zero = []) (hfollows : Follows tail zeros)
    (hmem : mem.drop tell = zero ++ [0, 0, 1] ++ (preventEmulation 0 unit.data ++ tail) ++ padding)
    (hlength : length = tell + zero.length + 3 + (preventEmulation 0 unit.data ++ tail).length)
    (hroom : nals.length + 1 < intMax / sizeofH2645NAL) :
    ∃ found, found.length ≤ 1 ∧ splitLoop b rb codec n mem length true (fuel + 1) length tell nals =
        splitLoop b rb codec n mem length true fuel length
          (tell + zero.length + 3 + (preventEmulation 0 unit.data).length + zeros) (nals ++ found) ∧
      ∀ more, cbsH2645FragmentAddNals codec (found ++ more) =
        [unit].filter Kept ++ cbsH2645FragmentAddNals codec more := by
  have hpos : 0 < (preventEmulation 0 unit.data ++ tail).length := by
    have hesc := List.length_pos_iff.mpr (preventEmulation_ne_nil 0 h.nonempty)
    rw [List.length_append]
    omega
  have hdrop : mem.drop (tell + zero.length + 3) = preventEmulation 0 unit.data ++ tail ++ padding := by
    rw [Nat.add_assoc, ← List.drop_drop, hmem, List.append_assoc]
    exact List.drop_left' (by simp)
  obtain ⟨found, hdata, htype, hlayer, hsplit⟩ := @splitUnit_unit codec unit rb zeros tail mem padding length
    (tell + zero.length + 3) b h hfollows hdrop (by rw [hlength, List.length_append]) hsize
  refine ⟨(if Kept unit then some found else none).toList, ?_, ?_, fun more => ?_⟩
  · split <;> simp
  · rw [splitLoop, if_pos (by omega), nextUnit_code n _ hzero hpos hmem hlength]
    dsimp only
    rw [if_neg (Nat.not_le.mpr hroom)]
    simp only [hsplit, Option.bind_some]
  · by_cases hkept : Kept unit = true
    · have hadd : ¬ (codec ≠ .vvc ∧ found.nuhLayerId > 0) := fun hboth =>
        absurd (hlayer hboth.1) (Nat.ne_of_gt hboth.2)
      have hunit : removeTrailingZeros found.data = unit.data := by
        rw [hdata, removeTrailingZeros_unit h.nonempty h.last]
      simp only [hkept, if_true, Option.toList_some, List.singleton_append, cbsH2645FragmentAddNals, if_neg hadd,
        hunit, htype, if_neg (Nat.ne_of_gt (List.length_pos_iff.mpr h.nonempty)), List.filter_cons_of_pos hkept,
        List.filter_nil]
    · simp only [hkept, Bool.false_eq_true, if_false, Option.toList_none, List.nil_append,
        List.filter_cons_of_neg hkept, List.filter_nil]

theorem splitLoop_units (b : ScanBuild) (rb : ReaderBuild) (n : Nat) {zero : List UInt8} (i : Nat)
    {rest : List CodedBitstreamUnit} (fuel : Nat) (nals : List H2645NAL)
    (hcoded : ∀ u ∈ unit :: rest, Coded codec u)
    (hsize : ∀ u ∈ unit :: rest, Kept u → 8 * u.data.length ≤ intMax - 512) (hzero : zero = [0] ∨ zero = [])
    (hmem : mem.drop tell = zero ++ [0, 0, 1] ++
      (preventEmulation 0 unit.data ++ assembleUnits codec (i + 1) rest) ++ padding)
    (hlength : length = tell + zero.length + 3 +
      (preventEmulation 0 unit.data ++ assembleUnits codec (i + 1) rest).length)
    (hfuel : rest.length + 2 ≤ fuel) (hroom : nals.length + rest.length + 1 < intMax / sizeofH2645NAL) :
    ∃ found, splitLoop b rb codec n mem length true fuel length tell nals = some (.ok (nals ++ found)) ∧
      cbsH2645FragmentAddNals codec found = (unit :: rest).filter Kept := by
  induction rest generalizing unit zero i tell fuel nals with
  | nil =>
      obtain ⟨fuel, rfl⟩ := Nat.exists_eq_add_of_le' hfuel
      have hunit := List.mem_singleton_self unit
      obtain ⟨found, -, hloop, hadd⟩ := splitLoop_unit b rb n (fuel + 1) nals (hcoded unit hunit)
        (hsize unit hunit) hzero .done hmem hlength hroom
      refine ⟨found, ?_, ?_⟩
      · rw [show fuel + (([] : List CodedBitstreamUnit).length + 2) = fuel + 1 + 1 from rfl, hloop, splitLoop,
          if_neg]
        simp only [assembleUnits, List.append_nil] at hlength
        omega
      · have hnone := hadd []
        rwa [List.append_nil, cbsH2645FragmentAddNals, List.append_nil] at hnone
  | cons next rest ih =>
      obtain ⟨fuel, rfl⟩ := Nat.exists_eq_add_of_le' hfuel
      have hunit := List.mem_cons_self (a := unit) (l := next :: rest)
      have hrest : ∀ u ∈ next :: rest, u ∈ unit :: next :: rest := fun u hu => List.mem_cons_of_mem unit hu
      obtain ⟨zeros, hfollows, hdrop⟩ := assembleUnits_follows (i + 1) fun u hu => hcoded u (hrest u hu)
      rw [List.length_cons] at hroom
      obtain ⟨found, hone, hloop, hadd⟩ := splitLoop_unit b rb n (fuel + rest.length + 2) nals (hcoded unit hunit)
        (hsize unit hunit) hzero hfollows hmem hlength (by omega)
      have hzeros : zeros ≤ (assembleUnits codec (i + 1) (next :: rest)).length := by
        refine Nat.le_of_not_lt fun hlt => ?_
        have hnil := List.drop_eq_nil_of_le (Nat.le_of_lt hlt)
        rw [hdrop next rest rfl] at hnil
        simp at hnil
      have hlen := congrArg List.length (hdrop next rest rfl)
      have hmem' : mem.drop (tell + zero.length + 3 + (preventEmulation 0 unit.data).length + zeros) =
          [] ++ [0, 0, 1] ++ (preventEmulation 0 next.data ++ assembleUnits codec (i + 1 + 1) rest) ++
            padding := by
        have hhere : mem.drop (tell + (zero ++ [0, 0, 1] ++ preventEmulation 0 unit.data).length) =
            assembleUnits codec (i + 1) (next :: rest) ++ padding := by
          rw [← List.drop_drop, hmem]
          have hsplit : zero ++ [0, 0, 1] ++ (preventEmulation 0 unit.data ++
              assembleUnits codec (i + 1) (next :: rest)) ++ padding =
              zero ++ [0, 0, 1] ++ preventEmulation 0 unit.data ++
                (assembleUnits codec (i + 1) (next :: rest) ++ padding) := by
            simp only [List.append_assoc]
          rw [hsplit, List.drop_left]
        have hat : tell + zero.length + 3 + (preventEmulation 0 unit.data).length =
            tell + (zero ++ [0, 0, 1] ++ preventEmulation 0 unit.data).length := by
          simp only [List.length_append, List.length_cons, List.length_nil]
          omega
        rw [← List.drop_drop, hat, hhere, List.drop_append_of_le_length hzeros, hdrop next rest rfl,
          List.nil_append, List.append_assoc [0, 0, 1]]
      simp only [List.length_drop, List.length_append, List.length_cons, List.length_nil] at hlen
      obtain ⟨found', hloop', hadd'⟩ := ih (i + 1) (fuel + rest.length + 2) (nals ++ found)
        (fun u hu => hcoded u (hrest u hu)) (fun u hu => hsize u (hrest u hu)) (.inr rfl) hmem' (by
          simp only [List.length_append, List.length_nil] at hlength ⊢
          omega) (by omega) (by
          rw [List.length_append]
          omega)
      refine ⟨found ++ found', ?_, ?_⟩
      · rw [show fuel + ((next :: rest).length + 2) = fuel + rest.length + 2 + 1 by
          rw [List.length_cons]; omega, hloop, hloop', List.append_assoc]
      · rw [hadd found', hadd', ← List.filter_append]
        rfl

variable {units : List CodedBitstreamUnit}

def startCodes (codec : Codec) : Nat → Nat → List CodedBitstreamUnit → List Nat
  | _, _, [] => []
  | i, dp, unit :: rest =>
      let start := dp + if cbsH2645UnitRequiresZeroByte codec unit.type i then 1 else 0
      start :: startCodes codec (i + 1) (start + 3 + (preventEmulation 0 unit.data).length) rest

theorem assembleUnits_le_maxSize (codec : Codec) (i : Nat) (units : List CodedBitstreamUnit) :
    (assembleUnits codec i units).length ≤ maxSize units := by
  induction units generalizing i with
  | nil => exact Nat.le_refl 0
  | cons unit rest ih =>
      have hrest := ih (i + 1)
      have hbytes := @length_preventEmulation unit.data 0 (Nat.zero_le 2)
      have hzero : (if cbsH2645UnitRequiresZeroByte codec unit.type i then [0] else ([] : List UInt8)).length ≤ 1 := by
        split <;> simp
      have hmax : maxSize (unit :: rest) = 4 + unit.data.length * 3 / 2 + maxSize rest := rfl
      rw [hmax, assembleUnits]
      simp only [List.length_append, List.length_cons, List.length_nil]
      omega

theorem not_startCodeAt (nal : Nal) (rest : List UInt8) (hk : k < nal.bytes.length) :
    startCodeAt (nal.bytes ++ rest) k = false := by
  by_cases hin : k + 2 < nal.bytes.length
  · have hcode := nal.noCode k hin
    rwa [startCodeAt, ← @byteAt_append_left nal.bytes rest _ hk,
      ← @byteAt_append_left nal.bytes rest _ (show k + 1 < nal.bytes.length by omega),
      ← @byteAt_append_left nal.bytes rest _ hin] at hcode
  · rw [Bool.eq_false_iff]
    intro hcode
    obtain ⟨h₀, h₁, -⟩ := startCodeAt_iff.mp hcode
    have hlast := nal.byteAt_last
    obtain hend | hend : nal.bytes.length - 1 = k ∨ nal.bytes.length - 1 = k + 1 := by omega
    · rw [byteAt_append_left hk] at h₀
      exact hlast (hend ▸ h₀)
    · rw [byteAt_append_left (by omega)] at h₁
      exact hlast (hend ▸ h₁)

theorem le_of_mem_startCodes {i dp k : Nat} (h : k ∈ startCodes codec i dp units) : dp ≤ k := by
  induction units generalizing i dp with
  | nil => exact absurd h List.not_mem_nil
  | cons unit rest ih =>
      obtain rfl | hrest := List.mem_cons.mp h
      · exact Nat.le_add_right dp _
      · have hle := ih hrest
        omega

theorem startCodeAt_unit (nal : Nal) (rest : List UInt8) {zero : List UInt8}
    (hzero : zero = [0] ∨ zero = []) (hk : k < zero.length + 3 + nal.bytes.length) :
    startCodeAt (zero ++ [0, 0, 1] ++ nal.bytes ++ rest) k = true ↔ k = zero.length := by
  have hinside : zero.length + 3 ≤ k → startCodeAt (zero ++ [0, 0, 1] ++ nal.bytes ++ rest) k = false := by
    intro hle
    have hhead : (zero ++ [0, 0, 1]).length = zero.length + 3 := by simp
    rw [List.append_assoc (zero ++ [0, 0, 1]), startCodeAt_append_right (by omega), hhead]
    exact not_startCodeAt nal rest (by omega)
  obtain rfl | rfl := hzero
  · rcases k with _ | _ | _ | _ | k
    iterate 4 simp [startCodeAt, byteAt]
    rw [hinside (by simp)]
    simp
  · rcases k with _ | _ | _ | k
    iterate 3 simp [startCodeAt, byteAt]
    rw [hinside (by simp)]
    simp

theorem startCodeAt_assembleUnits (i dp k : Nat) (h : ∀ unit ∈ units, Coded codec unit) :
    startCodeAt (assembleUnits codec i units) k = true ↔ dp + k ∈ startCodes codec i dp units := by
  induction units generalizing i dp k with
  | nil => simp [assembleUnits, startCodes, startCodeAt, byteAt]
  | cons unit rest ih =>
      have hunit := h unit (List.mem_cons_self ..)
      have hzero : ∃ zero : List UInt8, (zero = [0] ∨ zero = []) ∧
          (if cbsH2645UnitRequiresZeroByte codec unit.type i then [0] else []) = zero ∧
          (if cbsH2645UnitRequiresZeroByte codec unit.type i then 1 else 0) = zero.length := by
        split
        · exact ⟨[0], .inl rfl, rfl, rfl⟩
        · exact ⟨[], .inr rfl, rfl, rfl⟩
      obtain ⟨zero, hzero, hbytes, hcount⟩ := hzero
      rw [assembleUnits, startCodes, hbytes, hcount, List.mem_cons]
      by_cases hk : k < zero.length + 3 + (preventEmulation 0 unit.data).length
      · have hrest : dp + k ∉ startCodes codec (i + 1)
            (dp + zero.length + 3 + (preventEmulation 0 unit.data).length) rest := by
          intro hmem
          have hle := le_of_mem_startCodes hmem
          omega
        rw [show preventEmulation 0 unit.data = (escapedNal unit.data hunit.nonempty hunit.last).bytes from rfl,
          startCodeAt_unit _ _ hzero hk]
        simp only [escapedNal, hrest, or_false]
        omega
      · obtain ⟨j, rfl⟩ := Nat.exists_eq_add_of_le (Nat.not_lt.mp hk)
        have hhead : (zero ++ [0, 0, 1] ++ preventEmulation 0 unit.data).length =
            zero.length + 3 + (preventEmulation 0 unit.data).length := by
          simp only [List.length_append, List.length_cons, List.length_nil]
        have hrest := ih (i + 1) (dp + zero.length + 3 + (preventEmulation 0 unit.data).length) j
          fun u hu => h u (List.mem_cons_of_mem unit hu)
        rw [startCodeAt_append_right (by omega), hhead, Nat.add_sub_cancel_left, hrest,
          show dp + (zero.length + 3 + (preventEmulation 0 unit.data).length + j) =
            dp + zero.length + 3 + (preventEmulation 0 unit.data).length + j by omega]
        constructor
        · exact .inr
        · rintro (heq | hmem)
          · omega
          · exact hmem

theorem length_le_assembleUnits (i : Nat) (h : ∀ unit ∈ units, Coded codec unit) :
    units.length ≤ (assembleUnits codec i units).length := by
  induction units generalizing i with
  | nil => exact Nat.le_refl 0
  | cons unit rest ih =>
      have hrest := ih (i + 1) fun u hu => h u (List.mem_cons_of_mem unit hu)
      simp only [assembleUnits, List.length_append, List.length_cons, List.length_nil]
      omega

theorem packetSplit_units (b : ScanBuild) (rb : ReaderBuild) (n : Nat) (padding : List UInt8) (hne : units ≠ [])
    (h : ∀ unit ∈ units, Coded codec unit) (hsize : ∀ unit ∈ units, Kept unit → 8 * unit.data.length ≤ intMax - 512)
    (htotal : (assembleUnits codec 0 units).length ≤ intMax - avInputBufferPaddingSize)
    (hroom : units.length < intMax / sizeofH2645NAL) :
    ∃ nals, ffH2645PacketSplit b rb codec (assembleUnits codec 0 units) padding false n true = some (.ok nals) ∧
      cbsH2645FragmentAddNals codec nals = units.filter Kept := by
  obtain ⟨unit, rest, rfl⟩ := List.exists_cons_of_ne_nil hne
  have hassemble : assembleUnits codec 0 (unit :: rest) =
      [0] ++ [0, 0, 1] ++ (preventEmulation 0 unit.data ++ assembleUnits codec 1 rest) := by
    have hzero : cbsH2645UnitRequiresZeroByte codec unit.type 0 = true := rfl
    rw [assembleUnits, if_pos hzero, List.append_assoc]
  have hlen := congrArg List.length hassemble
  have hunit := List.length_pos_iff.mpr (preventEmulation_ne_nil 0 (h unit (List.mem_cons_self ..)).nonempty)
  have hrest := length_le_assembleUnits 1 fun u hu => h u (List.mem_cons_of_mem unit hu)
  simp only [List.length_append, List.length_cons, List.length_nil] at hlen
  obtain ⟨nals, hloop, hadd⟩ := @splitLoop_units codec unit
    (assembleUnits codec 0 (unit :: rest) ++ padding) padding (assembleUnits codec 0 (unit :: rest)).length 0
    b rb n [0] 0 rest ((assembleUnits codec 0 (unit :: rest)).length + 1) [] h hsize (.inl rfl)
    (by rw [List.drop_zero, hassemble]) (by simp only [List.length_append, List.length_cons, List.length_nil]; omega)
    (by omega) (by
      rw [List.length_cons] at hroom
      rw [List.length_nil]
      omega)
  refine ⟨nals, ?_, hadd⟩
  rw [ffH2645PacketSplit, if_neg]
  · exact hloop
  · simp only [if_true, Nat.add_zero]
    omega

/-- Units that are put together fit in the buffer, stand behind the start codes that are written
and no others, and come back when the packet is split, if they and their bits can be counted. -/
theorem assembled_units_split (b : ScanBuild) (rb : ReaderBuild) (n : Nat) (padding : List UInt8) (hne : units ≠ [])
    (h : ∀ unit ∈ units, Coded codec unit) :
    ∃ data, cbsH2645AssembleFragment codec units = some data ∧
      (∀ k, startCodeAt data k = true ↔ k ∈ startCodes codec 0 0 units) ∧
      (data.length ≤ intMax - avInputBufferPaddingSize → units.length < intMax / sizeofH2645NAL →
        (∀ unit ∈ units, 8 * unit.data.length ≤ intMax - 512) → ∃ nals,
          ffH2645PacketSplit b rb codec data padding false n true = some (.ok nals) ∧
            cbsH2645FragmentAddNals codec nals = units) := by
  refine ⟨assembleUnits codec 0 units, if_pos (assembleUnits_le_maxSize codec 0 units), fun k => ?_,
    fun htotal hroom hsize => ?_⟩
  · rw [startCodeAt_assembleUnits 0 0 k h, Nat.zero_add]
  · obtain ⟨nals, hsplit, hadd⟩ :=
      packetSplit_units b rb n padding hne h (fun unit hunit _ => hsize unit hunit) htotal hroom
    refine ⟨nals, hsplit, ?_⟩
    rw [hadd, List.filter_eq_self]
    intro unit hunit
    have hlt := hsize unit hunit
    rw [Kept, decide_eq_true_eq, Nat.le_div_iff_mul_le (by decide)]
    omega

theorem assembled_units_split_parameters : ∃ data nals,
    cbsH2645AssembleFragment .h264 [⟨7, [0x67, 0, 0, 1]⟩, ⟨5, [0x65, 0, 0, 0, 3]⟩, ⟨1, [0x41]⟩] = some data ∧
    ffH2645PacketSplit (.words64 false) ⟨true, false⟩ .h264 data [0, 0, 0] false 0 true = some (.ok nals) ∧
    cbsH2645FragmentAddNals .h264 nals = [⟨7, [0x67, 0, 0, 1]⟩, ⟨5, [0x65, 0, 0, 0, 3]⟩, ⟨1, [0x41]⟩] := by
  have hcoded : ∀ unit ∈ ([⟨7, [0x67, 0, 0, 1]⟩, ⟨5, [0x65, 0, 0, 0, 3]⟩, ⟨1, [0x41]⟩] : List CodedBitstreamUnit),
      Coded .h264 unit := by
    intro unit hunit
    simp only [List.mem_cons, List.not_mem_nil, or_false] at hunit
    obtain rfl | rfl | rfl := hunit
    · exact ⟨by decide, by decide, by decide +kernel⟩
    · exact ⟨by decide, by decide, by decide +kernel⟩
    · exact ⟨by decide, by decide, by decide +kernel⟩
  obtain ⟨data, hdata, -, hsplit⟩ :=
    assembled_units_split (.words64 false) ⟨true, false⟩ 0 [0, 0, 0] (List.cons_ne_nil _ _) hcoded
  have hlength : data.length ≤ intMax - avInputBufferPaddingSize := by
    have hvalue := congrArg (Option.map List.length) hdata
    have hcount : (cbsH2645AssembleFragment .h264
        [⟨7, [0x67, 0, 0, 1]⟩, ⟨5, [0x65, 0, 0, 0, 3]⟩, ⟨1, [0x41]⟩]).map List.length = some 22 := by
      decide +kernel
    rw [hcount, Option.map_some, Option.some.injEq] at hvalue
    rw [← hvalue]
    decide
  obtain ⟨nals, hnals, hadd⟩ := hsplit hlength (by decide) (by decide)
  exact ⟨data, nals, hdata, hnals, hadd⟩

theorem coded_ones (m : Nat) : Coded .h264 ⟨1, List.replicate (m + 1) 1⟩ := by
  have hfield : ∀ i n, i + n ≤ 8 → CodedBitstreamUnit.header ⟨1, List.replicate (m + 1) 1⟩ i n =
      CodedBitstreamUnit.header ⟨1, [1]⟩ i n :=
    fun i n hin => @header_append ⟨1, [1]⟩ i n (List.replicate m 1) hin
  refine ⟨List.cons_ne_nil 1 _, ?_, ?_⟩
  · rw [List.getLast_replicate]
    decide
  · have hone : HeaderFields .h264 ⟨1, [1]⟩ := by decide +kernel
    rw [HeaderFields, hfield 0 1 (by decide), hfield 3 5 (by decide)]
    exact hone

theorem preventEmulation_ones (m : Nat) : preventEmulation 0 (List.replicate m 1) = List.replicate m 1 := by
  induction m with
  | zero => rfl
  | succ m ih => rw [List.replicate_succ, preventEmulation, if_pos (by decide), if_neg (by decide), ih]

theorem long_unit_dropped {m : Nat} (hlong : intMax / 8 < m + 1) (hpacket : m + 5 ≤ intMax - avInputBufferPaddingSize)
    (b : ScanBuild) (rb : ReaderBuild) (n : Nat) (padding : List UInt8) :
    ∃ data nals, cbsH2645AssembleFragment .h264 [⟨1, List.replicate (m + 1) 1⟩] = some data ∧
      ffH2645PacketSplit b rb .h264 data padding false n true = some (.ok nals) ∧
      cbsH2645FragmentAddNals .h264 nals = [] := by
  have hcoded : ∀ unit ∈ ([⟨1, List.replicate (m + 1) 1⟩] : List CodedBitstreamUnit), Coded .h264 unit := by
    intro unit hunit
    rw [List.mem_singleton.mp hunit]
    exact coded_ones m
  have hdropped : ∀ unit ∈ ([⟨1, List.replicate (m + 1) 1⟩] : List CodedBitstreamUnit), Kept unit = false := by
    intro unit hunit
    rw [List.mem_singleton.mp hunit, Kept, List.length_replicate]
    exact decide_eq_false (Nat.not_le.mpr hlong)
  have htotal : (assembleUnits .h264 0 [⟨1, List.replicate (m + 1) 1⟩]).length ≤
      intMax - avInputBufferPaddingSize := by
    have hzero : cbsH2645UnitRequiresZeroByte .h264 1 0 = true := rfl
    rw [assembleUnits, assembleUnits, if_pos hzero, preventEmulation_ones]
    simp only [List.length_append, List.length_cons, List.length_nil, List.length_replicate]
    omega
  obtain ⟨nals, hsplit, hadd⟩ := packetSplit_units b rb n padding (List.cons_ne_nil _ _) hcoded
    (fun unit hunit hkept => absurd hkept (by rw [hdropped unit hunit]; decide)) htotal (by
      rw [List.length_singleton]
      decide)
  refine ⟨_, nals, if_pos (assembleUnits_le_maxSize .h264 0 _), hsplit, ?_⟩
  rw [hadd, List.filter_eq_nil_iff]
  intro unit hunit
  rw [hdropped unit hunit]
  decide

theorem long_unit_not_split : Coded .h264 ⟨1, List.replicate (268435455 + 1) 1⟩ ∧
    ¬ ∃ data nals, cbsH2645AssembleFragment .h264 [⟨1, List.replicate (268435455 + 1) 1⟩] = some data ∧
      ffH2645PacketSplit .bytes ⟨false, false⟩ .h264 data [] false 0 true = some (.ok nals) ∧
      cbsH2645FragmentAddNals .h264 nals = [⟨1, List.replicate (268435455 + 1) 1⟩] := by
  refine ⟨coded_ones _, ?_⟩
  rintro ⟨data, nals, hdata, hsplit, hadd⟩
  obtain ⟨data', nals', hdata', hsplit', hadd'⟩ :=
    @long_unit_dropped 268435455 (by decide) (by decide) .bytes ⟨false, false⟩ 0 []
  obtain rfl : data = data' := Option.some.inj (hdata.symm.trans hdata')
  obtain rfl : nals = nals' := Except.ok.inj (Option.some.inj (hsplit.symm.trans hsplit'))
  rw [hadd'] at hadd
  exact List.cons_ne_nil _ _ hadd.symm

end P2PFFmpeg.H2645
