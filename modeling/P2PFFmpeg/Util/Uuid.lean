import P2PFFmpeg.Util.AvString
import P2PFFmpeg.Util.Dict
import P2PFFmpeg.Util.Error

namespace P2PFFmpeg.Util

def dash : UInt8 := 45

structure AVUUID where
  bytes : List UInt8
  size : bytes.length = 16

def xdigitToInt (c : UInt8) : Int :=
  let c := avTolower c
  if 97 ≤ c ∧ c ≤ 102 then (c.toNat : Int) - 97 + 10
  else if 48 ≤ c ∧ c ≤ 57 then (c.toNat : Int) - 48
  else -1

def parseBytes : Nat → Nat → List UInt8 → Except Int (List UInt8)
  | 0, _, _ => .ok []
  | n + 1, i, cp =>
      -- the character here is not read
      let cp := if i = 4 ∨ i = 6 ∨ i = 8 ∨ i = 10 then cp.tail else cp
      let hi := xdigitToInt (cp.getD 0 0)
      let lo := xdigitToInt (cp.getD 1 0)
      if hi = -1 ∨ lo = -1 then .error averrorEinval
      else (parseBytes n (i + 1) (cp.drop 2)).map (UInt8.ofNat (hi * 16 + lo).toNat :: ·)

/-- The characters of a range; its end has no character. -/
def avUuidParseRange (s : List UInt8) : Except Int (List UInt8) :=
  if s.length ≠ 36 then .error averrorEinval else parseBytes 16 0 s

def avUuidParse (s : CString) : Except Int (List UInt8) :=
  if s.bytes.length ≠ 36 then .error averrorEinval else avUuidParseRange (s.bytes.take 36)

def hexdigitsLower : List UInt8 :=
  [48, 49, 50, 51, 52, 53, 54, 55, 56, 57, 97, 98, 99, 100, 101, 102]

def unparseBytes : Nat → List UInt8 → List UInt8
  | _, [] => []
  | i, tmp :: rest =>
      let digits := hexdigitsLower.getD (tmp.toNat / 16) 0 :: hexdigitsLower.getD (tmp.toNat % 16) 0 ::
        unparseBytes (i + 1) rest
      if i = 4 ∨ i = 6 ∨ i = 8 ∨ i = 10 then dash :: digits else digits

theorem mem_unparseBytes {bytes : List UInt8} {i : Nat} {c : UInt8} (h : c ∈ unparseBytes i bytes) : 48 ≤ c ∨ c = dash := by
  have hdigit (n : Nat) (hn : n < 16) : 48 ≤ hexdigitsLower.getD n 0 :=
    (show ∀ n < 16, 48 ≤ hexdigitsLower.getD n 0 by decide) n hn
  induction bytes generalizing i with
  | nil => cases h
  | cons tmp rest ih =>
      have htmp := tmp.toNat_lt
      rw [unparseBytes] at h
      have hmem : c = dash ∨ c = hexdigitsLower.getD (tmp.toNat / 16) 0 ∨ c = hexdigitsLower.getD (tmp.toNat % 16) 0 ∨
          c ∈ unparseBytes (i + 1) rest := by
        split at h
        · simpa only [List.mem_cons] using h
        · exact .inr (by simpa only [List.mem_cons] using h)
      obtain hdash | rfl | rfl | hrest := hmem
      · exact .inr hdash
      · exact .inl (hdigit _ (by omega))
      · exact .inl (hdigit _ (by omega))
      · exact ih hrest

theorem length_unparseBytes (bytes : List UInt8) (i : Nat) :
    (unparseBytes i bytes).length = 2 * bytes.length +
      ((List.range' i bytes.length).filter fun i => i = 4 ∨ i = 6 ∨ i = 8 ∨ i = 10).length := by
  induction bytes generalizing i with
  | nil => rfl
  | cons tmp rest ih =>
      rw [unparseBytes, List.length_cons, List.range'_succ, List.filter_cons]
      by_cases hdash : i = 4 ∨ i = 6 ∨ i = 8 ∨ i = 10
      · rw [if_pos hdash, if_pos (decide_eq_true hdash)]
        simp only [List.length_cons, ih (i + 1)]
        omega
      · rw [if_neg hdash, if_neg (by simpa using hdash)]
        simp only [List.length_cons, ih (i + 1)]
        omega

theorem length_unparse (uuid : AVUUID) : (unparseBytes 0 uuid.bytes).length = 36 := by
  rw [length_unparseBytes, uuid.size]
  rfl

/-- The characters before the NUL that is written behind them. -/
def avUuidUnparse (uuid : AVUUID) : CString where
  bytes := unparseBytes 0 uuid.bytes
  noNul h := by
    obtain hdigit | hdash := mem_unparseBytes h
    · exact absurd hdigit (by decide)
    · exact absurd hdash (by decide)
  fits := by
    rw [length_unparse]
    decide

def avStristart : List UInt8 → List UInt8 → Bool
  | _, [] => true
  | s, p :: pfx => avToupper p == avToupper (s.headD 0) && avStristart s.tail pfx

/-- How far on the first such text is. -/
def avStristr (s pfx : List UInt8) : Option Nat :=
  if avStristart s pfx then some 0
  else match s with
    | [] => none
    | _ :: rest => (avStristr rest pfx).map (· + 1)

/-- `urn:uuid:` -/
def urnPrefix : List UInt8 := [117, 114, 110, 58, 117, 117, 105, 100, 58]

def CString.drop (s : CString) (n : Nat) : CString where
  bytes := s.bytes.drop n
  noNul h := s.noNul (List.mem_of_mem_drop h)
  fits := by
    rw [List.length_drop]
    exact lt_of_le_of_lt (Nat.sub_le _ _) s.fits

def avUuidUrnParse (s : CString) : Except Int (List UInt8) :=
  if avStristr s.bytes urnPrefix ≠ some 0 then .error averrorEinval else avUuidParse (s.drop 9)

/-- A character that stands for a hexadecimal digit. -/
def IsXdigit (c : UInt8) : Prop := 48 ≤ c ∧ c ≤ 57 ∨ 65 ≤ c ∧ c ≤ 70 ∨ 97 ≤ c ∧ c ≤ 102

instance (c : UInt8) : Decidable (IsXdigit c) := inferInstanceAs (Decidable (_ ∨ _ ∨ _))

theorem byte_cases {p : UInt8 → Prop} (h : ∀ n : Fin 256, p (UInt8.ofNat n)) (c : UInt8) : p c := by
  have hc := h ⟨c.toNat, c.toNat_lt⟩
  rwa [UInt8.ofNat_toNat] at hc

theorem xdigitToInt_ne (c : UInt8) : xdigitToInt c ≠ -1 ↔ IsXdigit c :=
  @byte_cases (fun c => xdigitToInt c ≠ -1 ↔ IsXdigit c) (by decide +kernel) c

theorem xdigitToInt_digits (c : UInt8) :
    xdigitToInt (hexdigitsLower.getD (c.toNat / 16) 0) = (c.toNat / 16 : Nat) ∧
      xdigitToInt (hexdigitsLower.getD (c.toNat % 16) 0) = (c.toNat % 16 : Nat) :=
  @byte_cases (fun c => xdigitToInt (hexdigitsLower.getD (c.toNat / 16) 0) = (c.toNat / 16 : Nat) ∧
    xdigitToInt (hexdigitsLower.getD (c.toNat % 16) 0) = (c.toNat % 16 : Nat)) (by decide +kernel) c

theorem parseBytes_unparse (bytes : List UInt8) (i : Nat) :
    parseBytes bytes.length i (unparseBytes i bytes) = .ok bytes := by
  induction bytes generalizing i with
  | nil => rfl
  | cons c rest ih =>
      obtain ⟨hhigh, hlow⟩ := xdigitToInt_digits c
      have hc := c.toNat_lt
      have hbyte : UInt8.ofNat (((c.toNat / 16 : Nat) : Int) * 16 + (c.toNat % 16 : Nat)).toNat = c := by
        rw [show (((c.toNat / 16 : Nat) : Int) * 16 + (c.toNat % 16 : Nat)).toNat = c.toNat by omega, UInt8.ofNat_toNat]
      have hskip : (if i = 4 ∨ i = 6 ∨ i = 8 ∨ i = 10 then (unparseBytes i (c :: rest)).tail
          else unparseBytes i (c :: rest)) =
          hexdigitsLower.getD (c.toNat / 16) 0 :: hexdigitsLower.getD (c.toNat % 16) 0 ::
            unparseBytes (i + 1) rest := by
        rw [unparseBytes]
        split <;> rfl
      rw [List.length_cons, parseBytes]
      simp only [hskip, List.getD_cons_zero, List.getD_cons_succ, hhigh, hlow, List.drop_succ_cons, List.drop_zero,
        ih (i + 1), hbyte]
      rw [if_neg (by omega)]
      rfl

def digitAt (i : Nat) : Nat :=
  2 * i + (if 4 ≤ i then 1 else 0) + (if 6 ≤ i then 1 else 0) + (if 8 ≤ i then 1 else 0) + (if 10 ≤ i then 1 else 0)

def startAt (i : Nat) : Nat := digitAt i - if i = 4 ∨ i = 6 ∨ i = 8 ∨ i = 10 then 1 else 0

theorem startAt_succ (i : Nat) : startAt (i + 1) = digitAt i + 2 := by
  unfold startAt digitAt
  grind

theorem drop_startAt (s : List UInt8) (i : Nat) :
    (if i = 4 ∨ i = 6 ∨ i = 8 ∨ i = 10 then (s.drop (startAt i)).tail else s.drop (startAt i)) = s.drop (digitAt i) := by
  rw [startAt]
  split
  · have hpos : 1 ≤ digitAt i := by
      unfold digitAt
      grind
    rw [List.tail_drop, Nat.sub_add_cancel hpos]
  · rw [Nat.sub_zero]

theorem isOk_map {α β : Type} (r : Except Int α) (f : α → β) : (r.map f).isOk = r.isOk := by
  cases r <;> rfl

theorem parseBytes_isOk (s : List UInt8) (n i : Nat) : (parseBytes n i (s.drop (startAt i))).isOk ↔
      ∀ k, i ≤ k → k < i + n → IsXdigit (s.getD (digitAt k) 0) ∧ IsXdigit (s.getD (digitAt k + 1) 0) := by
  induction n generalizing i with
  | zero => exact ⟨fun _ k hlow hhigh => absurd hhigh (by omega), fun _ => rfl⟩
  | succ n ih =>
      have hgetD (k : Nat) : (s.drop (digitAt i)).getD k 0 = s.getD (digitAt i + k) 0 := by
        rw [List.getD_eq_getElem?_getD, List.getElem?_drop, List.getD_eq_getElem?_getD]
      have hhi := xdigitToInt_ne (s.getD (digitAt i) 0)
      have hlo := xdigitToInt_ne (s.getD (digitAt i + 1) 0)
      have hrest := ih (i + 1)
      rw [startAt_succ, ← List.drop_drop] at hrest
      rw [parseBytes]
      simp only [drop_startAt, hgetD, Nat.add_zero]
      split
      · next hbad =>
          refine ⟨fun h => (by cases h), fun h => ?_⟩
          obtain ⟨hhigh, hlow⟩ := h i le_rfl (by omega)
          exact absurd hbad (not_or.mpr ⟨hhi.mpr hhigh, hlo.mpr hlow⟩)
      · next hgood =>
          rw [not_or] at hgood
          rw [isOk_map, hrest]
          constructor
          · intro h k hlow hhigh
            rcases Nat.eq_or_lt_of_le hlow with rfl | hlt
            · exact ⟨hhi.mp hgood.1, hlo.mp hgood.2⟩
            · exact h k hlt (by omega)
          · intro h k hlow hhigh
            exact h k (by omega) (by omega)

def separators : List Nat := [8, 13, 18, 23]

def Grouped (s : List UInt8) : Prop := ∀ i < 36, i ∉ separators → IsXdigit (s.getD i 0)

/-- The text of a UUID, with digits of either case. -/
structure UuidText (s : List UInt8) : Prop where
  length : s.length = 36
  digits : Grouped s
  dashes : ∀ i ∈ separators, s.getD i 0 = dash

theorem digitAt_places : ∀ k < 16, digitAt k < 36 ∧ digitAt k ∉ separators ∧ digitAt k + 1 < 36 ∧
    digitAt k + 1 ∉ separators := by decide

theorem digitAt_onto : ∀ i < 36, i ∉ separators → ∃ k < 16, i = digitAt k ∨ i = digitAt k + 1 := by decide

theorem parseBytes_grouped (s : List UInt8) : (parseBytes 16 0 s).isOk ↔ Grouped s := by
  refine (parseBytes_isOk s 16 0).trans ⟨fun h i hi hsep => ?_, fun h k _ hk => ?_⟩
  · obtain ⟨k, hk, rfl | rfl⟩ := digitAt_onto i hi hsep
    · exact (h k (Nat.zero_le k) (by omega)).1
    · exact (h k (Nat.zero_le k) (by omega)).2
  · obtain ⟨hfirst, hfirst', hsecond, hsecond'⟩ := digitAt_places k (by omega)
    exact ⟨h _ hfirst hfirst', h _ hsecond hsecond'⟩

theorem avUuidParseRange_isOk (s : List UInt8) : (avUuidParseRange s).isOk ↔ s.length = 36 ∧ Grouped s := by
  rw [avUuidParseRange]
  split
  · next hlength => exact ⟨fun h => (by cases h), fun h => absurd h.1 hlength⟩
  · next hlength => rw [parseBytes_grouped, and_iff_right (not_not.mp hlength)]

theorem avUuidParse_eq (s : CString) : avUuidParse s = avUuidParseRange s.bytes := by
  rw [avUuidParse]
  split
  · next hlength => rw [avUuidParseRange, if_pos hlength]
  · next hlength => rw [List.take_of_length_le (not_not.mp hlength).le]

theorem avStristart_iff (s pfx : List UInt8) (hnul : ∀ p ∈ pfx, avToupper p ≠ 0) :
    avStristart s pfx ↔ (s.take pfx.length).map avToupper = pfx.map avToupper := by
  induction pfx generalizing s with
  | nil => exact ⟨fun _ => rfl, fun _ => rfl⟩
  | cons p pfx ih =>
      have hp := hnul p List.mem_cons_self
      rw [avStristart, Bool.and_eq_true, beq_iff_eq, ih s.tail fun q hq => hnul q (List.mem_cons_of_mem p hq)]
      cases s with
      | nil => exact ⟨fun h => absurd h.1 hp, fun h => by cases h⟩
      | cons c s =>
          rw [List.length_cons, List.take_succ_cons, List.map_cons, List.map_cons, List.cons.injEq]
          exact and_congr_left fun _ => eq_comm

/-- The prefix of a URN, in letters of either case. -/
def UrnPrefixed (s : List UInt8) : Prop := (s.take 9).map avToupper = urnPrefix.map avToupper

theorem avStristr_zero (s pfx : List UInt8) : avStristr s pfx = some 0 ↔ avStristart s pfx := by
  rw [avStristr.eq_def]
  split
  · next hstart => exact ⟨fun _ => hstart, fun _ => rfl⟩
  · next hstart =>
      refine ⟨fun h => ?_, fun h => absurd h hstart⟩
      cases s with
      | nil => cases h
      | cons c rest =>
          obtain ⟨i, -, hi⟩ := Option.map_eq_some_iff.mp h
          cases hi

theorem avUuidUrnParse_isOk (s : CString) : (avUuidUrnParse s).isOk ↔
    UrnPrefixed s.bytes ∧ (s.bytes.drop 9).length = 36 ∧ Grouped (s.bytes.drop 9) := by
  have hstart := avStristart_iff s.bytes urnPrefix (by simp [urnPrefix, avToupper])
  rw [← avStristr_zero] at hstart
  rw [avUuidUrnParse]
  split
  · next hother => exact ⟨fun h => (by cases h), fun h => absurd (hstart.mpr h.1) hother⟩
  · next hprefix =>
      rw [avUuidParse_eq, avUuidParseRange_isOk]
      exact (and_iff_right (hstart.mp (not_not.mp hprefix))).symm

/-- The characters between the groups are dashes, if the rest is well formed. -/
def SeparatorsTold (s : List UInt8) : Prop :=
  s.length = 36 → Grouped s → ∀ i ∈ separators, s.getD i 0 = dash

theorem accepts_iff (s : List UInt8) : (s.length = 36 ∧ Grouped s → UuidText s) ↔ SeparatorsTold s :=
  ⟨fun h hlength hdigits => (h ⟨hlength, hdigits⟩).dashes, fun h hgood => ⟨hgood.1, hgood.2, h hgood.1 hgood.2⟩⟩

theorem UuidText.grouped {s : List UInt8} (h : UuidText s) : s.length = 36 ∧ Grouped s := ⟨h.length, h.digits⟩

theorem parse_unparse (id : AVUUID) : avUuidParse (avUuidUnparse id) = .ok id.bytes := by
  have hparse := parseBytes_unparse id.bytes 0
  have hlength : ¬(avUuidUnparse id).bytes.length ≠ 36 := not_not.mpr (length_unparse id)
  rw [id.size] at hparse
  rw [avUuidParse_eq, avUuidParseRange, if_neg hlength]
  exact hparse

/-- A UUID is read back from its text, and a text is told right where its separators are. -/
theorem uuid_text (id : AVUUID) (s : CString) (range : List UInt8) :
    avUuidParse (avUuidUnparse id) = .ok id.bytes ∧
      (((avUuidParse s).isOk ↔ UuidText s.bytes) ↔ SeparatorsTold s.bytes) ∧
      (((avUuidParseRange range).isOk → UuidText range) ↔ SeparatorsTold range) ∧
      (((avUuidUrnParse s).isOk ↔ UrnPrefixed s.bytes ∧ UuidText (s.bytes.drop 9)) ↔
        (UrnPrefixed s.bytes → SeparatorsTold (s.bytes.drop 9))) := by
  refine ⟨parse_unparse id, ?_, ?_, ?_⟩
  · rw [avUuidParse_eq, avUuidParseRange_isOk, ← accepts_iff]
    exact ⟨fun h => h.mp, fun h => ⟨h, UuidText.grouped⟩⟩
  · rw [avUuidParseRange_isOk, accepts_iff]
  · rw [avUuidUrnParse_isOk, ← accepts_iff]
    exact ⟨fun h hpre hgood => (h.mp ⟨hpre, hgood⟩).2,
      fun h => ⟨fun hgood => ⟨hgood.1, h hgood.1 hgood.2⟩, fun htext => ⟨htext.1, htext.2.grouped⟩⟩⟩

def zeroDigits : CString where
  bytes := List.replicate 36 48
  noNul := by decide
  fits := by decide

theorem separators_not_read : (avUuidParse zeroDigits).isOk ∧ ¬UuidText zeroDigits.bytes :=
  ⟨by decide, fun h => absurd (h.dashes 8 (by decide)) (by decide)⟩

end P2PFFmpeg.Util
