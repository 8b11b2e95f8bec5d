import Mathlib.Data.Nat.Find
import P2PFFmpeg.Library.Scan
import P2PFFmpeg.Util.Packet

/-!
The functions look at the bytes from a pointer `p` to `end`; positions are
offsets from `p`, and `addr` is the address of `p`.
-/

namespace P2PFFmpeg.Payload

open Util Library.Scan

/-- `p[0] == 0 && p[1] == 0 && p[2] == 1` at an offset. -/
def startCodeAt (bytes : List UInt8) (i : Nat) : Bool :=
  byteAt bytes i = 0 && byteAt bytes (i + 1) = 0 && byteAt bytes (i + 2) = 1

/-- `*(const uint32_t*)p`; the test made of it does not depend on the byte order. -/
def word32 (bytes : List UInt8) (i : Nat) : UInt32 :=
  (byteAt bytes i).toUInt32 + 256 * (byteAt bytes (i + 1)).toUInt32 +
    65536 * (byteAt bytes (i + 2)).toUInt32 + 16777216 * (byteAt bytes (i + 3)).toUInt32

/-- `(x - 0x01010101) & (~x) & 0x80808080`: some byte of the word is zero. -/
def hasZeroByte (x : UInt32) : Bool :=
  ((x - 0x01010101) &&& ~~~x &&& 0x80808080) != 0

inductive Scanned
  | found (i : Nat)
  | reached (i : Nat)
deriving DecidableEq, Repr

/-- `for (; p < stop; p++)` -/
def scanBytes (bytes : List UInt8) (i stop : Nat) : Scanned :=
  if i < stop then
    if startCodeAt bytes i then .found i else scanBytes bytes (i + 1) stop
  else .reached i
termination_by stop - i

def wordHit (bytes : List UInt8) (i : Nat) : Option Nat :=
  if hasZeroByte (word32 bytes i) then
    if byteAt bytes (i + 1) = 0 ∧ byteAt bytes i = 0 ∧ byteAt bytes (i + 2) = 1 then some i
    else if byteAt bytes (i + 1) = 0 ∧ byteAt bytes (i + 2) = 0 ∧ byteAt bytes (i + 3) = 1 then
      some (i + 1)
    else if byteAt bytes (i + 3) = 0 ∧ byteAt bytes (i + 2) = 0 ∧ byteAt bytes (i + 4) = 1 then
      some (i + 2)
    else if byteAt bytes (i + 3) = 0 ∧ byteAt bytes (i + 4) = 0 ∧ byteAt bytes (i + 5) = 1 then
      some (i + 3)
    else none
  else none

/-- `for (; p < stop; p += 4)`, given the number of its turns. -/
def scanWords (bytes : List UInt8) : Nat → Nat → Scanned
  | 0, i => .reached i
  | turns + 1, i =>
      match wordHit bytes i with
      | some k => .found k
      | none => scanWords bytes turns (i + 4)

def avcFindStartcodeInternal (addr : Nat) (bytes : List UInt8) : Nat :=
  match scanBytes bytes 0 (min (4 - addr % 4) (bytes.length - 3)) with
  | .found i => i
  | .reached i =>
      match scanWords bytes ((bytes.length - 6 - i + 3) / 4) i with
      | .found i => i
      | .reached i =>
          match scanBytes bytes i (bytes.length - 3) with
          | .found i => i
          | .reached _ => bytes.length

def ffAvcFindStartcode (addr : Nat) (bytes : List UInt8) : Nat :=
  let out := avcFindStartcodeInternal addr bytes
  if 0 < out ∧ out < bytes.length ∧ byteAt bytes (out - 1) = 0 then out - 1 else out

def bigEndian (bytes : List UInt8) : Nat := bytes.foldl (fun res b => res * 256 + b.toNat) 0

/-- The offset of the next length prefix; `none` is a NULL result. -/
def ffAvcMp4FindStartcode (bytes : List UInt8) (nalLengthSize : Nat) : Option Nat :=
  if bytes.length < nalLengthSize then none
  else
    let res := bigEndian (bytes.take nalLengthSize) % 4294967296
    if res > bytes.length - nalLengthSize then none else some (nalLengthSize + res)

def firstStartCode (bytes : List UInt8) : Nat :=
  let i := first (startCodeAt bytes) 0 (bytes.length - 3)
  if i < bytes.length - 3 then i else bytes.length

theorem startCodeAt_iff {bytes : List UInt8} {i : Nat} : startCodeAt bytes i = true ↔
    byteAt bytes i = 0 ∧ byteAt bytes (i + 1) = 0 ∧ byteAt bytes (i + 2) = 1 := by
  simp only [startCodeAt, Bool.and_eq_true, decide_eq_true_eq, and_assoc]

theorem scanBytes_eq (bytes : List UInt8) (i stop : Nat) : scanBytes bytes i stop =
      if first (startCodeAt bytes) i stop < stop then .found (first (startCodeAt bytes) i stop)
      else .reached (max i stop) := by
  fun_induction scanBytes bytes i stop with
  | case1 i hlt hcode => rw [first_here hlt hcode, if_pos hlt]
  | case2 i hlt hcode ih =>
      rw [ih, first_next hlt (by simpa using hcode)]
      congr 2
      omega
  | case3 i hge =>
      rw [first_of_le (Nat.not_lt.mp hge), if_neg (Nat.lt_irrefl _)]
      congr 1
      omega

theorem word32_toNat (bytes : List UInt8) (i : Nat) : (word32 bytes i).toNat =
    (byteAt bytes i).toNat + 256 * (byteAt bytes (i + 1)).toNat +
      65536 * (byteAt bytes (i + 2)).toNat + 16777216 * (byteAt bytes (i + 3)).toNat := by
  have h₀ := (byteAt bytes i).toNat_lt
  have h₁ := (byteAt bytes (i + 1)).toNat_lt
  have h₂ := (byteAt bytes (i + 2)).toNat_lt
  have h₃ := (byteAt bytes (i + 3)).toNat_lt
  simp only [word32, UInt32.toNat_add, UInt32.toNat_mul, UInt8.toNat_toUInt32, UInt32.reduceToNat]
  omega

theorem borrow_bit {x : Nat} {k : Nat} (hk : k < 4) (hx : x < 4294967296)
    (hzero : x / 256 ^ k % 256 = 0) (hlow : ∀ j < k, x / 256 ^ j % 256 ≠ 0) :
    ((x + 4294967296 - 16843009) % 4294967296).testBit (8 * k + 7) = true := by
  rw [Nat.testBit_eq_decide_div_mod_eq, decide_eq_true_eq]
  match k, hk with
  | 0, _ => 
    simp only [Nat.pow_zero, Nat.div_one, Nat.mul_zero, Nat.zero_add] at hzero ⊢
    omega
  | 1, _ =>
    have h₀ := hlow 0 (by omega)
    simp only [Nat.pow_zero, Nat.div_one, Nat.pow_one] at hzero h₀ ⊢
    omega
  | 2, _ =>
    have h₀ := hlow 0 (by omega)
    have h₁ := hlow 1 (by omega)
    simp only [Nat.pow_zero, Nat.div_one, Nat.pow_one] at hzero h₀ h₁ ⊢
    omega
  | 3, _ =>
    have h₀ := hlow 0 (by omega)
    have h₁ := hlow 1 (by omega)
    have h₂ := hlow 2 (by omega)
    simp only [Nat.pow_zero, Nat.div_one, Nat.pow_one] at hzero h₀ h₁ h₂ ⊢
    omega

theorem hasZeroByte_of_low {x : UInt32} {k : Nat} (hk : k < 4)
    (hzero : x.toNat / 256 ^ k % 256 = 0) (hlow : ∀ j < k, x.toNat / 256 ^ j % 256 ≠ 0) :
    hasZeroByte x = true := by
  have hx : x.toNat < 4294967296 := x.toNat_lt
  have hborrow := borrow_bit hk hx hzero hlow
  have hbit : x.toNat.testBit (8 * k + 7) = false := by
    rw [Nat.testBit_eq_decide_div_mod_eq, decide_eq_false_iff_not]
    rw [Nat.pow_add, Nat.pow_mul, ← Nat.div_div_eq_div_mul]
    change ¬x.toNat / 256 ^ k / 128 % 2 = 1
    omega
  have hmask : Nat.testBit 2155905152 (8 * k + 7) = true := by
    have hcases : k = 0 ∨ k = 1 ∨ k = 2 ∨ k = 3 := by omega
    rcases hcases with rfl | rfl | rfl | rfl <;> decide +kernel
  have hand : (((x - 0x01010101) &&& ~~~x &&& 0x80808080).toNat).testBit (8 * k + 7) = true := by
    rw [UInt32.toNat_and, UInt32.toNat_and, Nat.testBit_and, Nat.testBit_and]
    have hsub : (x - 0x01010101).toNat = (x.toNat + 4294967296 - 16843009) % 4294967296 := by
      have hconst : (0x01010101 : UInt32).toNat = 16843009 := by decide +kernel
      rw [UInt32.toNat_sub, hconst]
      omega
    have hnot : (~~~x).toNat = 2 ^ 32 - (x.toNat + 1) := by
      rw [UInt32.toNat_not]
      simp only [UInt32.size]
      omega
    have hbound : 8 * k + 7 < 32 := by omega
    rw [hsub, hborrow, hnot, Nat.testBit_two_pow_sub_succ hx, hbit]
    simpa [hbound] using hmask
  simp only [hasZeroByte, bne_iff_ne, ne_eq]
  intro h
  rw [h] at hand
  simp at hand

theorem hasZeroByte_of_zero {bytes : List UInt8} {i k : Nat} (hk : k < 4)
    (h : byteAt bytes (i + k) = 0) : hasZeroByte (word32 bytes i) = true := by
  have hword := word32_toNat bytes i
  have h₀ := (byteAt bytes i).toNat_lt
  have h₁ := (byteAt bytes (i + 1)).toNat_lt
  have h₂ := (byteAt bytes (i + 2)).toNat_lt
  have h₃ := (byteAt bytes (i + 3)).toNat_lt
  have hbyte : ∀ j < 4, (word32 bytes i).toNat / 256 ^ j % 256 = (byteAt bytes (i + j)).toNat := by
    intro j hj
    have hcases : j = 0 ∨ j = 1 ∨ j = 2 ∨ j = 3 := by omega
    rcases hcases with rfl | rfl | rfl | rfl <;> simp only [hword, Nat.add_zero] <;> omega
  have hsome : ∃ j, j < 4 ∧ byteAt bytes (i + j) = 0 := ⟨k, hk, h⟩
  classical
  refine hasZeroByte_of_low (Nat.find_spec hsome).1 ?_ ?_
  · rw [hbyte _ (Nat.find_spec hsome).1, (Nat.find_spec hsome).2]
    rfl
  · intro j hj hzero
    have hj4 : j < 4 := Nat.lt_trans hj (Nat.find_spec hsome).1
    rw [hbyte j hj4] at hzero
    exact Nat.find_min hsome hj ⟨hj4, UInt8.toNat_inj.mp hzero⟩

theorem wordHit_eq (bytes : List UInt8) (i : Nat) : wordHit bytes i =
    if first (startCodeAt bytes) i (i + 4) < i + 4 then some (first (startCodeAt bytes) i (i + 4))
    else none := by
  have hodd : ∀ k, k = 1 ∨ k = 3 → byteAt bytes (i + k) = 0 → hasZeroByte (word32 bytes i) = true :=
    fun k hk hzero => hasZeroByte_of_zero (by omega) hzero
  cases h₀ : startCodeAt bytes i with
  | true =>
      obtain ⟨ha, hb, hc⟩ := startCodeAt_iff.mp h₀
      rw [first_here (by omega) h₀, wordHit, hodd 1 (.inl rfl) hb, if_pos rfl, if_pos ⟨hb, ha, hc⟩,
        if_pos (by omega)]
  | false =>
  have hno₀ : ¬(byteAt bytes (i + 1) = 0 ∧ byteAt bytes i = 0 ∧ byteAt bytes (i + 2) = 1) :=
    fun ⟨hb, ha, hc⟩ => by simp [startCodeAt, ha, hb, hc] at h₀
  rw [first_next (by omega) h₀]
  cases h₁ : startCodeAt bytes (i + 1) with
  | true =>
      obtain ⟨ha, hb, hc⟩ := startCodeAt_iff.mp h₁
      rw [first_here (by omega) h₁, wordHit, hodd 1 (.inl rfl) ha, if_pos rfl, if_neg hno₀,
        if_pos ⟨ha, hb, hc⟩, if_pos (by omega)]
  | false =>
  have hno₁ : ¬(byteAt bytes (i + 1) = 0 ∧ byteAt bytes (i + 2) = 0 ∧ byteAt bytes (i + 3) = 1) :=
    fun h => by
      rw [startCodeAt_iff.mpr h] at h₁
      cases h₁
  rw [first_next (by omega) h₁]
  cases h₂ : startCodeAt bytes (i + 2) with
  | true =>
      obtain ⟨ha, hb, hc⟩ := startCodeAt_iff.mp h₂
      rw [first_here (by omega) h₂, wordHit, hodd 3 (.inr rfl) hb, if_pos rfl, if_neg hno₀,
        if_neg hno₁, if_pos ⟨hb, ha, hc⟩, if_pos (by omega)]
  | false =>
  have hno₂ : ¬(byteAt bytes (i + 3) = 0 ∧ byteAt bytes (i + 2) = 0 ∧ byteAt bytes (i + 4) = 1) :=
    fun ⟨hb, ha, hc⟩ => by
      rw [startCodeAt_iff.mpr ⟨ha, hb, hc⟩] at h₂
      cases h₂
  rw [first_next (by omega) h₂]
  cases h₃ : startCodeAt bytes (i + 3) with
  | true =>
      obtain ⟨ha, hb, hc⟩ := startCodeAt_iff.mp h₃
      rw [first_here (by omega) h₃, wordHit, hodd 3 (.inr rfl) ha, if_pos rfl, if_neg hno₀,
        if_neg hno₁, if_neg hno₂, if_pos ⟨ha, hb, hc⟩, if_pos (by omega)]
  | false =>
  have hno₃ : ¬(byteAt bytes (i + 3) = 0 ∧ byteAt bytes (i + 4) = 0 ∧ byteAt bytes (i + 5) = 1) :=
    fun h => by
      rw [startCodeAt_iff.mpr h] at h₃
      cases h₃
  rw [first_next (by omega) h₃, first_of_le (by omega), if_neg (by omega), wordHit, if_neg hno₀,
    if_neg hno₁, if_neg hno₂, if_neg hno₃, ite_self]

theorem scanWords_eq (bytes : List UInt8) (turns i : Nat) : scanWords bytes turns i =
    if first (startCodeAt bytes) i (i + 4 * turns) < i + 4 * turns then
      .found (first (startCodeAt bytes) i (i + 4 * turns)) else .reached (i + 4 * turns) := by
  induction turns generalizing i with
  | zero =>
      rw [first_of_le (by omega), if_neg (by omega)]
      rfl
  | succ turns ih =>
      have hend : i + 4 + 4 * turns = i + 4 * (turns + 1) := by omega
      rw [scanWords, wordHit_eq, ih, hend,
        first_split (p := startCodeAt bytes) (i := i) (k := i + 4) (n := i + 4 * (turns + 1))
          (by omega) (by omega)]
      by_cases hword : first (startCodeAt bytes) i (i + 4) < i + 4
      · simp only [hword, if_true]
        rw [if_pos (by omega)]
      · simp only [hword, if_false]

theorem avcFindStartcodeInternal_eq (addr : Nat) (bytes : List UInt8) :
    avcFindStartcodeInternal addr bytes = firstStartCode bytes := by
  unfold avcFindStartcodeInternal firstStartCode
  dsimp only
  generalize hstop : min (4 - addr % 4) (bytes.length - 3) = stop
  have hle : stop ≤ bytes.length - 3 := by omega
  rw [scanBytes_eq, first_split (Nat.zero_le stop) hle]
  by_cases hfirst : first (startCodeAt bytes) 0 stop < stop
  · simp only [hfirst, if_true]
    rw [if_pos (by omega)]
  simp only [hfirst, if_false, Nat.zero_max]
  generalize hturns : (bytes.length - 6 - stop + 3) / 4 = turns
  have hlast : stop + 4 * turns ≤ bytes.length - 3 := by omega
  rw [scanWords_eq, first_split (i := stop) (k := stop + 4 * turns) (by omega) hlast]
  by_cases hwords : first (startCodeAt bytes) stop (stop + 4 * turns) < stop + 4 * turns
  · simp only [hwords, if_true]
    rw [if_pos (by omega)]
  simp only [hwords, if_false]
  rw [scanBytes_eq]
  by_cases hrest : first (startCodeAt bytes) (stop + 4 * turns) (bytes.length - 3) < bytes.length - 3
  · simp only [hrest, if_true]
  · simp only [hrest, if_false]

end P2PFFmpeg.Payload
