import Mathlib.Data.List.GetD
import Mathlib.Tactic.Ring
import P2PFFmpeg.Payload.Startcode

namespace P2PFFmpeg.Payload

open Util Library.Scan

structure NalUnit where
  bytes : List UInt8
  nonempty : bytes ≠ []
  noCode : ∀ i, i + 2 < bytes.length → startCodeAt bytes i = false

def NalUnit.type (u : NalUnit) : UInt8 := byteAt u.bytes 0 &&& 0x1F

/-- A NAL unit that start codes can delimit. -/
structure Nal extends NalUnit where
  last : bytes.getLast nonempty ≠ 0

def startCode (long : Bool) : List UInt8 := if long then [0, 0, 0, 1] else [0, 0, 1]

def withStartCodes (units : List (Bool × List UInt8)) : List UInt8 :=
  units.flatMap fun u => startCode u.1 ++ u.2

def annexB (units : List (Bool × Nal)) : List UInt8 := withStartCodes (units.map fun u => (u.1, u.2.bytes))

/-- The last `n` bytes of a number, the highest first. -/
def beBytes : Nat → Nat → List UInt8
  | 0, _ => []
  | n + 1, v => UInt8.ofNat (v / 256 ^ n) :: beBytes n v

/-- The units with a length of `n` bytes in front of each. -/
def withLengths (n : Nat) (units : List (List UInt8)) : List UInt8 :=
  units.flatMap fun u => beBytes n u.length ++ u

def lengthPrefixed (n : Nat) (units : List Nal) : List UInt8 := withLengths n (units.map (·.bytes))

@[simp] theorem withStartCodes_cons (long : Bool) (u : List UInt8) (units : List (Bool × List UInt8)) :
    withStartCodes ((long, u) :: units) = startCode long ++ (u ++ withStartCodes units) := by
  rw [withStartCodes, List.flatMap_cons, List.append_assoc]
  rfl

@[simp] theorem withLengths_nil (n : Nat) : withLengths n [] = [] := rfl

@[simp] theorem withLengths_append (n : Nat) (us vs : List (List UInt8)) :
    withLengths n (us ++ vs) = withLengths n us ++ withLengths n vs := by
  exact List.flatMap_append

@[simp] theorem withLengths_cons (n : Nat) (u : List UInt8) (units : List (List UInt8)) :
    withLengths n (u :: units) = beBytes n u.length ++ (u ++ withLengths n units) := by
  rw [withLengths, List.flatMap_cons, List.append_assoc]
  rfl

@[simp] theorem annexB_nil : annexB [] = [] := rfl

@[simp] theorem annexB_cons (u : Bool × Nal) (units : List (Bool × Nal)) :
    annexB (u :: units) = startCode u.1 ++ (u.2.bytes ++ annexB units) :=
  withStartCodes_cons u.1 u.2.bytes _

@[simp] theorem lengthPrefixed_nil (n : Nat) : lengthPrefixed n [] = [] := rfl

@[simp] theorem lengthPrefixed_cons (n : Nat) (u : Nal) (units : List Nal) :
    lengthPrefixed n (u :: units) = beBytes n u.bytes.length ++ (u.bytes ++ lengthPrefixed n units) :=
  withLengths_cons n u.bytes _

theorem byteAt_append_left {xs ys : List UInt8} {i : Nat} (h : i < xs.length) :
    byteAt (xs ++ ys) i = byteAt xs i := by
  exact List.getD_append _ _ _ _ h

variable {bytes : List UInt8} {i : Nat}

theorem byteAt_append_right {xs ys : List UInt8} (h : xs.length ≤ i) :
    byteAt (xs ++ ys) i = byteAt ys (i - xs.length) := by
  exact List.getD_append_right _ _ _ _ h

theorem byteAt_of_le {xs : List UInt8} (h : xs.length ≤ i) : byteAt xs i = 0 := by
  simp [byteAt, List.getElem?_eq_none h]

theorem startCodeAt_of_third (h : byteAt bytes (i + 2) ≠ 1) : startCodeAt bytes i = false := by
  simp [startCodeAt, h]

theorem startCodeAt_append_right {head rest : List UInt8} (hi : head.length ≤ i) :
    startCodeAt (head ++ rest) i = startCodeAt rest (i - head.length) := by
  have hbyte : ∀ j, byteAt (head ++ rest) (i + j) = byteAt rest (i - head.length + j) := by
    intro j
    rw [byteAt_append_right (by omega), show i + j - head.length = i - head.length + j by omega]
  rw [startCodeAt, startCodeAt, hbyte 1, hbyte 2,
    show byteAt (head ++ rest) i = byteAt rest (i - head.length) from hbyte 0]

theorem NalUnit.startCodeAt (nal : NalUnit) (i : Nat) : startCodeAt nal.bytes i = false := by
  by_cases hi : i + 2 < nal.bytes.length
  · exact nal.noCode i hi
  · refine startCodeAt_of_third ?_
    rw [byteAt_of_le (Nat.not_lt.mp hi)]
    decide

theorem NalUnit.length_pos (nal : NalUnit) : 0 < nal.bytes.length := List.length_pos_iff.mpr nal.nonempty

theorem Nal.byteAt_last (nal : Nal) : byteAt nal.bytes (nal.bytes.length - 1) ≠ 0 := by
  have hlast := nal.last
  rw [List.getLast_eq_getElem] at hlast
  have hlt : nal.bytes.length - 1 < nal.bytes.length := Nat.sub_lt nal.length_pos (by decide)
  rwa [byteAt, List.getD_eq_getElem _ _ hlt]

theorem firstStartCode_eq {k : Nat} (hlt : k < bytes.length - 3)
    (hbefore : ∀ j < k, Payload.startCodeAt bytes j = false) (hk : Payload.startCodeAt bytes k = true) :
    firstStartCode bytes = k := by
  have hfirst : first (Payload.startCodeAt bytes) 0 (bytes.length - 3) = k :=
    first_eq (Nat.zero_le k) (by omega) (fun j _ hj => hbefore j hj) (fun _ => hk)
  simp only [firstStartCode, hfirst, if_pos hlt]

theorem firstStartCode_none (h : ∀ j, Payload.startCodeAt bytes j = false) :
    firstStartCode bytes = bytes.length := by
  have hfirst : first (Payload.startCodeAt bytes) 0 (bytes.length - 3) = bytes.length - 3 :=
    first_eq (Nat.zero_le _) (Nat.le_refl _) (fun j _ _ => h j) (fun hlt => absurd hlt (by omega))
  simp only [firstStartCode, hfirst, if_neg (Nat.lt_irrefl _)]

@[simp] theorem length_startCode_long : (startCode true).length = 4 := rfl

@[simp] theorem length_startCode_short : (startCode false).length = 3 := rfl

theorem firstStartCode_append {head rest : List UInt8} (long : Bool)
    (hhead : ∀ i, i + 2 < head.length → Payload.startCodeAt head i = false) (hrest : rest ≠ []) :
    firstStartCode (head ++ (startCode long ++ rest)) =
      head.length + (startCode long).length - 3 := by
  have hpos := List.length_pos_iff.mpr hrest
  have hcode : ∀ i, i < (startCode long).length →
      byteAt (head ++ (startCode long ++ rest)) (head.length + i) = byteAt (startCode long) i := by
    intro i hi
    rw [byteAt_append_right (by omega), Nat.add_sub_cancel_left, byteAt_append_left hi]
  refine firstStartCode_eq ?_ ?_ ?_
  · simp only [List.length_append]
    cases long <;> simp <;> omega
  · intro j hj
    by_cases hin : j + 2 < head.length
    · have hj := hhead j hin
      simpa only [Payload.startCodeAt, byteAt_append_left (show j < head.length by omega),
        byteAt_append_left (show j + 1 < head.length by omega), byteAt_append_left hin] using hj
    · refine startCodeAt_of_third ?_
      obtain ⟨i, hi⟩ := Nat.exists_eq_add_of_le (Nat.not_lt.mp hin)
      rw [hi, hcode i (by omega)]
      cases long with
      | true =>
          have hcases : i = 0 ∨ i = 1 ∨ i = 2 := by
            simp only [length_startCode_long] at hj
            omega
          rcases hcases with rfl | rfl | rfl <;> decide
      | false =>
          have hcases : i = 0 ∨ i = 1 := by
            simp only [length_startCode_short] at hj
            omega
          rcases hcases with rfl | rfl <;> decide
  · cases long with
    | true =>
        rw [startCodeAt_iff, length_startCode_long,
          show head.length + 4 - 3 = head.length + 1 by omega,
          show head.length + 1 + 1 = head.length + 2 by omega,
          show head.length + 1 + 2 = head.length + 3 by omega,
          hcode 1 (by decide), hcode 2 (by decide), hcode 3 (by decide)]
        decide
    | false =>
        have h₀ := hcode 0 (by decide)
        rw [Nat.add_zero] at h₀
        rw [startCodeAt_iff, length_startCode_short, Nat.add_sub_cancel, h₀, hcode 1 (by decide),
          hcode 2 (by decide)]
        decide

theorem ffAvcFindStartcode_unit (addr : Nat) (nal : Nal) (long : Bool) {rest : List UInt8}
    (hrest : rest ≠ []) :
    ffAvcFindStartcode addr (nal.bytes ++ (startCode long ++ rest)) = nal.bytes.length := by
  have hpos := nal.length_pos
  have hlen := List.length_pos_iff.mpr hrest
  simp only [ffAvcFindStartcode, avcFindStartcodeInternal_eq,
    firstStartCode_append long nal.noCode hrest]
  cases long with
  | true =>
      rw [length_startCode_long, if_pos]
      · omega
      · refine ⟨by omega, by simp only [List.length_append, length_startCode_long]; omega, ?_⟩
        rw [byteAt_append_right (by omega), byteAt_append_left (by simp)]
        rw [show nal.bytes.length + 4 - 3 - 1 - nal.bytes.length = 0 by omega]
        rfl
  | false =>
      rw [length_startCode_short, Nat.add_sub_cancel, if_neg]
      rintro ⟨_, _, hzero⟩
      rw [byteAt_append_left (by omega)] at hzero
      exact nal.byteAt_last hzero

theorem ffAvcFindStartcode_start (addr : Nat) (long : Bool) {rest : List UInt8} (hrest : rest ≠ []) :
    ffAvcFindStartcode addr (startCode long ++ rest) = 0 := by
  have hlen := List.length_pos_iff.mpr hrest
  have hfirst := @firstStartCode_append [] rest long (fun i hi => absurd hi (by simp)) hrest
  simp only [List.nil_append, List.length_nil, Nat.zero_add] at hfirst
  simp only [ffAvcFindStartcode, avcFindStartcodeInternal_eq, hfirst]
  cases long with
  | true =>
      rw [length_startCode_long, if_pos]
      refine ⟨by decide, by simp only [List.length_append, length_startCode_long]; omega, ?_⟩
      rw [byteAt_append_left (by decide)]
      decide
  | false => rw [length_startCode_short, if_neg (by omega)]

theorem ffAvcFindStartcode_end (addr : Nat) (nal : Nal) :
    ffAvcFindStartcode addr nal.bytes = nal.bytes.length := by
  simp only [ffAvcFindStartcode, avcFindStartcodeInternal_eq, firstStartCode_none nal.startCodeAt]
  rw [if_neg (by omega)]

theorem foldl_bigEndian (bytes : List UInt8) (start : Nat) :
    bytes.foldl (fun res b => res * 256 + b.toNat) start = start * 256 ^ bytes.length + bigEndian bytes := by
  induction bytes generalizing start with
  | nil => simp [bigEndian]
  | cons b bytes ih =>
      rw [bigEndian, List.foldl_cons, List.foldl_cons, ih, ih (0 * 256 + b.toNat), List.length_cons,
        Nat.pow_succ]
      ring

theorem bigEndian_append (xs ys : List UInt8) :
    bigEndian (xs ++ ys) = bigEndian xs * 256 ^ ys.length + bigEndian ys := by
  rw [bigEndian, List.foldl_append, foldl_bigEndian]
  rfl

theorem bigEndian_cons (b : UInt8) (bytes : List UInt8) :
    bigEndian (b :: bytes) = b.toNat * 256 ^ bytes.length + bigEndian bytes := by
  have hsplit := bigEndian_append [b] bytes
  rwa [List.singleton_append, show bigEndian [b] = b.toNat from Nat.zero_add _] at hsplit

theorem bigEndian_lt (bytes : List UInt8) : bigEndian bytes < 256 ^ bytes.length := by
  induction bytes with
  | nil => exact Nat.one_pos
  | cons b bytes ih =>
      have hb := b.toNat_lt
      calc bigEndian (b :: bytes)
          = b.toNat * 256 ^ bytes.length + bigEndian bytes := bigEndian_cons b bytes
        _ < b.toNat * 256 ^ bytes.length + 256 ^ bytes.length := Nat.add_lt_add_left ih _
        _ = (b.toNat + 1) * 256 ^ bytes.length := (Nat.succ_mul _ _).symm
        _ ≤ 256 * 256 ^ bytes.length := Nat.mul_le_mul_right _ hb
        _ = 256 ^ (b :: bytes).length := by rw [List.length_cons, Nat.pow_succ, Nat.mul_comm]

theorem length_beBytes (n v : Nat) : (beBytes n v).length = n := by
  induction n with
  | zero => rfl
  | succ n ih => rw [beBytes, List.length_cons, ih]

theorem foldl_beBytes (n v start : Nat) :
    (beBytes n v).foldl (fun res b => res * 256 + b.toNat) start = start * 256 ^ n + v % 256 ^ n := by
  induction n generalizing start with
  | zero => simp [beBytes, Nat.mod_one]
  | succ n ih =>
      have hsplit : v % 256 ^ (n + 1) = v / 256 ^ n % 256 * 256 ^ n + v % 256 ^ n := by
        rw [Nat.pow_succ, Nat.mod_mul, Nat.add_comm, Nat.mul_comm]
      rw [beBytes, List.foldl_cons, ih, hsplit, UInt8.toNat_ofNat']
      change (start * 256 + v / 256 ^ n % 256) * 256 ^ n + v % 256 ^ n = _
      ring

theorem bigEndian_beBytes {n v : Nat} (h : v < 256 ^ n) : bigEndian (beBytes n v) = v := by
  rw [bigEndian, foldl_beBytes, Nat.zero_mul, Nat.zero_add, Nat.mod_eq_of_lt h]

theorem avRb16_beBytes {v : Nat} (h : v < 65536) (rest : List UInt8) :
    (avRb16 (beBytes 2 v ++ rest) 0).toNat = v := by
  have hhi : byteAt (beBytes 2 v ++ rest) 0 = UInt8.ofNat (v / 256) := by
    simp [beBytes, byteAt]
  have hlo : byteAt (beBytes 2 v ++ rest) 1 = UInt8.ofNat v := by
    simp [beBytes, byteAt]
  rw [avRb16, hhi, hlo]
  simp only [UInt16.toNat_add, UInt16.toNat_mul, UInt8.toNat_toUInt16, UInt8.toNat_ofNat',
    UInt16.reduceToNat]
  omega

theorem beBytes_add_mul (n v k : Nat) : beBytes n (v + k * 256 ^ n) = beBytes n v := by
  induction n generalizing k with
  | zero => rfl
  | succ n ih =>
      have hhead : (v + k * 256 ^ (n + 1)) / 256 ^ n = v / 256 ^ n + k * 256 := by
        rw [Nat.pow_succ, Nat.mul_comm (256 ^ n), ← Nat.mul_assoc, Nat.add_mul_div_right _ _ (Nat.pow_pos (by decide))]
      have htail : v + k * 256 ^ (n + 1) = v + k * 256 * 256 ^ n := by
        rw [Nat.pow_succ, Nat.mul_comm (256 ^ n), Nat.mul_assoc]
      rw [beBytes, beBytes, hhead, htail, ih, List.cons_eq_cons, and_iff_left rfl, ← UInt8.toNat_inj,
        UInt8.toNat_ofNat', UInt8.toNat_ofNat', Nat.add_mul_mod_self_right]

theorem beBytes_bigEndian (bytes : List UInt8) : beBytes bytes.length (bigEndian bytes) = bytes := by
  induction bytes with
  | nil => rfl
  | cons b bytes ih =>
      have hhead : (b.toNat * 256 ^ bytes.length + bigEndian bytes) / 256 ^ bytes.length = b.toNat := by
        rw [Nat.add_comm, Nat.add_mul_div_right _ _ (Nat.pow_pos (by decide)), Nat.div_eq_of_lt (bigEndian_lt bytes),
          Nat.zero_add]
      rw [bigEndian_cons, List.length_cons, beBytes, hhead, UInt8.ofNat_toNat, Nat.add_comm, beBytes_add_mul, ih]

theorem toNat_avRb32 (buf : List UInt8) (i : Nat) :
    (avRb32 buf i).toNat = bigEndian [byteAt buf i, byteAt buf (i + 1), byteAt buf (i + 2), byteAt buf (i + 3)] := by
  have h₀ := (byteAt buf i).toNat_lt
  have h₁ := (byteAt buf (i + 1)).toNat_lt
  have h₂ := (byteAt buf (i + 2)).toNat_lt
  have h₃ := (byteAt buf (i + 3)).toNat_lt
  rw [avRb32, avRb16, avRb16, show i + 2 + 1 = i + 3 from rfl]
  simp only [bigEndian, List.foldl_cons, List.foldl_nil, UInt32.toNat_add, UInt32.toNat_mul,
    UInt16.toNat_toUInt32, UInt16.toNat_add, UInt16.toNat_mul, UInt8.toNat_toUInt16, UInt16.reduceToNat,
    UInt32.reduceToNat]
  omega

theorem avRb32_length (xs rest : List UInt8) {v : Nat} (hv : v < 4294967296) :
    avRb32 (xs ++ (beBytes 4 v ++ rest)) xs.length = UInt32.ofNat v := by
  have hbyte : ∀ j < 4, byteAt (xs ++ (beBytes 4 v ++ rest)) (xs.length + j) = byteAt (beBytes 4 v) j := by
    intro j hj
    rw [byteAt_append_right (Nat.le_add_right _ _), Nat.add_sub_cancel_left,
      byteAt_append_left (by rwa [length_beBytes])]
  have hfirst : byteAt (xs ++ (beBytes 4 v ++ rest)) xs.length = byteAt (beBytes 4 v) 0 := hbyte 0 (by decide)
  rw [← UInt32.toNat_inj, toNat_avRb32, hfirst, hbyte 1 (by decide), hbyte 2 (by decide), hbyte 3 (by decide),
    UInt32.toNat_ofNat', Nat.mod_eq_of_lt hv]
  exact bigEndian_beBytes (n := 4) hv

theorem beBytes_avRb32 {rest : List UInt8} (h : 4 ≤ rest.length) : beBytes 4 (avRb32 rest 0).toNat = rest.take 4 := by
  rcases rest with _ | ⟨b₀, _ | ⟨b₁, _ | ⟨b₂, _ | ⟨b₃, rest⟩⟩⟩⟩
  iterate 4 exact absurd h (by simp)
  rw [toNat_avRb32]
  exact beBytes_bigEndian [b₀, b₁, b₂, b₃]

theorem avRb32_append_right (xs rest : List UInt8) : avRb32 (xs ++ rest) xs.length = avRb32 rest 0 := by
  have hbyte : ∀ j, byteAt (xs ++ rest) (xs.length + j) = byteAt rest j := by
    intro j
    rw [byteAt_append_right (Nat.le_add_right _ _), Nat.add_sub_cancel_left]
  have hfirst : byteAt (xs ++ rest) xs.length = byteAt rest 0 := hbyte 0
  rw [← UInt32.toNat_inj, toNat_avRb32, toNat_avRb32, hfirst, hbyte 1, hbyte 2, hbyte 3]
theorem ffAvcMp4FindStartcode_unit {n : Nat} {unit rest : List UInt8} (hn : n ≤ 4)
    (h : unit.length < 256 ^ n) :
    ffAvcMp4FindStartcode (beBytes n unit.length ++ unit ++ rest) n = some (n + unit.length) := by
  have hsmall : unit.length < 4294967296 :=
    Nat.lt_of_lt_of_le h (Nat.pow_le_pow_right (by decide) hn)
  rw [ffAvcMp4FindStartcode, if_neg (by simp [length_beBytes])]
  have htake : (beBytes n unit.length ++ unit ++ rest).take n = beBytes n unit.length := by
    rw [List.append_assoc]
    exact List.take_left' (length_beBytes _ _)
  simp only [htake, bigEndian_beBytes h, Nat.mod_eq_of_lt hsmall]
  rw [if_neg]
  simp only [List.length_append, length_beBytes]
  omega

end P2PFFmpeg.Payload
