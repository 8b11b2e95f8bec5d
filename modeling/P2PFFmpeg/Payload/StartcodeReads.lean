import P2PFFmpeg.Payload.Startcode

/-!
The search for a start code with every read checked: a byte outside of the range, or a word at an
address that is not a multiple of 4, is `none`.
-/

namespace P2PFFmpeg.Payload

open Util Library.Scan

/-- `p[0] == 0 && p[1] == 0 && p[2] == 1` -/
def startCodeRead (bytes : List UInt8) (i : Nat) : Option Bool := do
  let b₀ ← bytes[i]?
  if b₀ = 0 then
    let b₁ ← bytes[i + 1]?
    if b₁ = 0 then
      let b₂ ← bytes[i + 2]?
      some (b₂ = 1)
    else some false
  else some false

def scanBytesRead (bytes : List UInt8) (i stop : Nat) : Option Scanned :=
  if i < stop then do
    let hit ← startCodeRead bytes i
    if hit then some (.found i) else scanBytesRead bytes (i + 1) stop
  else some (.reached i)
termination_by stop - i

def wordRead (addr : Nat) (bytes : List UInt8) (i : Nat) : Option UInt32 :=
  if (addr + i) % 4 = 0 ∧ i + 4 ≤ bytes.length then some (word32 bytes i) else none

/-- `if (p[1] == 0)` -/
def lowHitRead (bytes : List UInt8) (i : Nat) : Option (Option Nat) := do
  let b₁ ← bytes[i + 1]?
  if b₁ = 0 then
    let b₀ ← bytes[i]?
    let b₂ ← bytes[i + 2]?
    if b₀ = 0 ∧ b₂ = 1 then some (some i)
    else if b₂ = 0 then
      let b₃ ← bytes[i + 3]?
      some (if b₃ = 1 then some (i + 1) else none)
    else some none
  else some none

/-- `if (p[3] == 0)` -/
def highHitRead (bytes : List UInt8) (i : Nat) : Option (Option Nat) := do
  let b₃ ← bytes[i + 3]?
  if b₃ = 0 then
    let b₂ ← bytes[i + 2]?
    let b₄ ← bytes[i + 4]?
    if b₂ = 0 ∧ b₄ = 1 then some (some (i + 2))
    else if b₄ = 0 then
      let b₅ ← bytes[i + 5]?
      some (if b₅ = 1 then some (i + 3) else none)
    else some none
  else some none

def wordHitRead (addr : Nat) (bytes : List UInt8) (i : Nat) : Option (Option Nat) := do
  let x ← wordRead addr bytes i
  if hasZeroByte x then
    match ← lowHitRead bytes i with
    | some k => some (some k)
    | none => highHitRead bytes i
  else some none

def scanWordsRead (addr : Nat) (bytes : List UInt8) (i stop : Nat) : Option Scanned :=
  if i < stop then do
    match ← wordHitRead addr bytes i with
    | some k => some (.found k)
    | none => scanWordsRead addr bytes (i + 4) stop
  else some (.reached i)
termination_by stop - i

def avcFindStartcodeInternalRead (addr : Nat) (bytes : List UInt8) : Option Nat := do
  match ← scanBytesRead bytes 0 (min (4 - addr % 4) (bytes.length - 3)) with
  | .found i => some i
  | .reached i =>
      match ← scanWordsRead addr bytes i (bytes.length - 6) with
      | .found i => some i
      | .reached i =>
          match ← scanBytesRead bytes i (bytes.length - 3) with
          | .found i => some i
          | .reached _ => some bytes.length

def ffAvcFindStartcodeRead (addr : Nat) (bytes : List UInt8) : Option Nat := do
  let out ← avcFindStartcodeInternalRead addr bytes
  if 0 < out ∧ out < bytes.length then
    let before ← bytes[out - 1]?
    some (if before = 0 then out - 1 else out)
  else some out

variable {addr i k stop : Nat} {bytes : List UInt8}

theorem byte_read (h : i < bytes.length) : bytes[i]? = some (byteAt bytes i) := by
  rw [byteAt, List.getD_eq_getElem?_getD, List.getElem?_eq_getElem h, Option.getD_some]

theorem startCodeRead_eq (h : i + 2 < bytes.length) : startCodeRead bytes i = some (startCodeAt bytes i) := by
  rw [startCodeRead, byte_read (by omega), byte_read (by omega), byte_read h, startCodeAt]
  simp only [Option.bind_eq_bind, Option.bind_some]
  split
  · next h₀ =>
      rw [h₀]
      split
      · next h₁ => simp [h₁]
      · next h₁ => simp [h₁]
  · next h₀ => simp [h₀]

theorem scanBytesRead_eq (h : stop + 2 ≤ bytes.length ∨ stop = 0) : scanBytesRead bytes i stop = some (scanBytes bytes i stop) := by
  fun_induction scanBytes bytes i stop with
  | case1 i hlt hcode =>
      rw [scanBytesRead, if_pos hlt, startCodeRead_eq (by omega), hcode]
      rfl
  | case2 i hlt hcode ih =>
      rw [scanBytesRead, if_pos hlt, startCodeRead_eq (by omega), Option.bind_eq_bind, Option.bind_some, if_neg hcode]
      exact ih
  | case3 i hge => rw [scanBytesRead, if_neg hge]

theorem lowHitRead_eq (h : i + 3 < bytes.length) : lowHitRead bytes i = some
    (if byteAt bytes (i + 1) = 0 ∧ byteAt bytes i = 0 ∧ byteAt bytes (i + 2) = 1 then some i
    else if byteAt bytes (i + 1) = 0 ∧ byteAt bytes (i + 2) = 0 ∧ byteAt bytes (i + 3) = 1 then some (i + 1) else none) := by
  rw [lowHitRead, byte_read (by omega), byte_read (by omega), byte_read (by omega), byte_read h]
  simp only [Option.bind_eq_bind, Option.bind_some]
  by_cases h₁ : byteAt bytes (i + 1) = 0
  · simp only [h₁, if_true, true_and]
    split
    · rfl
    · by_cases h₂ : byteAt bytes (i + 2) = 0
      · simp only [h₂, if_true, true_and]
      · simp only [h₂, if_false, false_and]
  · simp only [h₁, if_false, false_and]

theorem highHitRead_eq (h : i + 5 < bytes.length) : highHitRead bytes i = some
    (if byteAt bytes (i + 3) = 0 ∧ byteAt bytes (i + 2) = 0 ∧ byteAt bytes (i + 4) = 1 then some (i + 2)
    else if byteAt bytes (i + 3) = 0 ∧ byteAt bytes (i + 4) = 0 ∧ byteAt bytes (i + 5) = 1 then some (i + 3) else none) := by
  rw [highHitRead, byte_read (by omega), byte_read (by omega), byte_read (by omega), byte_read h]
  simp only [Option.bind_eq_bind, Option.bind_some]
  by_cases h₃ : byteAt bytes (i + 3) = 0
  · simp only [h₃, if_true, true_and]
    split
    · rfl
    · by_cases h₄ : byteAt bytes (i + 4) = 0
      · simp only [h₄, if_true, true_and]
      · simp only [h₄, if_false, false_and]
  · simp only [h₃, if_false, false_and]

theorem wordHitRead_eq (hi : i + 5 < bytes.length) (haddr : (addr + i) % 4 = 0) :
    wordHitRead addr bytes i = some (wordHit bytes i) := by
  rw [wordHitRead, wordRead, if_pos ⟨haddr, by omega⟩, wordHit, Option.bind_eq_bind, Option.bind_some,
    lowHitRead_eq (by omega), highHitRead_eq hi]
  split
  · by_cases hlow : byteAt bytes (i + 1) = 0 ∧ byteAt bytes i = 0 ∧ byteAt bytes (i + 2) = 1
    · simp only [if_pos hlow, Option.bind_eq_bind, Option.bind_some]
    · by_cases hlow' : byteAt bytes (i + 1) = 0 ∧ byteAt bytes (i + 2) = 0 ∧ byteAt bytes (i + 3) = 1
      · simp only [if_neg hlow, if_pos hlow', Option.bind_eq_bind, Option.bind_some]
      · simp only [if_neg hlow, if_neg hlow', Option.bind_eq_bind, Option.bind_some]
  · rfl

/-- As long as a word is looked at there are two more bytes behind it, and it stands at a multiple of 4. -/
theorem scanWordsRead_eq (hstop : stop + 6 ≤ bytes.length ∨ stop = 0) (haddr : i < stop → (addr + i) % 4 = 0) :
    scanWordsRead addr bytes i stop = some (scanWords bytes ((stop - i + 3) / 4) i) := by
  fun_induction scanWordsRead addr bytes i stop with
  | case1 i hlt ih =>
      have hturns : (stop - i + 3) / 4 = (stop - (i + 4) + 3) / 4 + 1 := by omega
      rw [wordHitRead_eq (by omega) (haddr hlt), hturns, scanWords, Option.bind_eq_bind, Option.bind_some]
      cases wordHit bytes i with
      | some k => rfl
      | none =>
          refine ih fun hmore => ?_
          have hword := haddr hlt
          omega
  | case2 i hge =>
      rw [show (stop - i + 3) / 4 = 0 by omega]
      rfl

theorem avcFindStartcodeInternalRead_eq (addr : Nat) (bytes : List UInt8) :
    avcFindStartcodeInternalRead addr bytes = some (avcFindStartcodeInternal addr bytes) := by
  rw [avcFindStartcodeInternalRead, avcFindStartcodeInternal, scanBytesRead_eq (by omega), Option.bind_eq_bind,
    Option.bind_some]
  cases hprologue : scanBytes bytes 0 (min (4 - addr % 4) (bytes.length - 3)) with
  | found i => rfl
  | reached i =>
      -- the words begin at a multiple of 4, unless too few bytes are left for one
      have hi : i = min (4 - addr % 4) (bytes.length - 3) := by
        rw [scanBytes_eq] at hprologue
        split at hprologue
        · cases hprologue
        · cases hprologue
          exact Nat.zero_max _
      simp only
      rw [scanWordsRead_eq (by omega) (by omega), Option.bind_some]
      cases scanWords bytes ((bytes.length - 6 - i + 3) / 4) i with
      | found i => rfl
      | reached i =>
          simp only
          rw [scanBytesRead_eq (by omega), Option.bind_some]
          cases scanBytes bytes i (bytes.length - 3) with
          | found i => rfl
          | reached i => rfl

theorem ffAvcFindStartcodeRead_eq (addr : Nat) (bytes : List UInt8) :
    ffAvcFindStartcodeRead addr bytes = some (ffAvcFindStartcode addr bytes) := by
  rw [ffAvcFindStartcodeRead, ffAvcFindStartcode, avcFindStartcodeInternalRead_eq, Option.bind_eq_bind, Option.bind_some]
  generalize avcFindStartcodeInternal addr bytes = out
  by_cases hinside : 0 < out ∧ out < bytes.length
  · rw [if_pos hinside, byte_read (by omega), Option.bind_eq_bind, Option.bind_some]
    simp only [hinside, true_and]
  · rw [if_neg hinside, if_neg fun h => hinside ⟨h.1, h.2.1⟩]

/-- The search gives what a scan byte by byte gives: the first start code with a byte behind it, or the zero byte
right before it; or the end. -/
theorem avc_find_startcode_naive (addr : Nat) (bytes : List UInt8) :
    ffAvcFindStartcodeRead addr bytes = some (ffAvcFindStartcode addr bytes) ∧
    ((∃ s, s + 3 < bytes.length ∧ startCodeAt bytes s = true ∧ (∀ t < s, startCodeAt bytes t = false) ∧
      ffAvcFindStartcode addr bytes = if 0 < s ∧ byteAt bytes (s - 1) = 0 then s - 1 else s) ∨
    (∀ s, s + 3 < bytes.length → startCodeAt bytes s = false) ∧ ffAvcFindStartcode addr bytes = bytes.length) := by
  refine ⟨ffAvcFindStartcodeRead_eq addr bytes, ?_⟩
  rw [ffAvcFindStartcode, avcFindStartcodeInternal_eq, firstStartCode]
  by_cases hfound : first (startCodeAt bytes) 0 (bytes.length - 3) < bytes.length - 3
  · simp only [if_pos hfound]
    refine .inl ⟨first (startCodeAt bytes) 0 (bytes.length - 3), by omega, holds_at_first hfound,
      fun t ht => fails_before_first (Nat.zero_le t) ht, ?_⟩
    have hinside : first (startCodeAt bytes) 0 (bytes.length - 3) < bytes.length := by omega
    simp only [hinside, true_and]
  · simp only [if_neg hfound, Nat.lt_irrefl, false_and, and_false, if_false, and_true]
    refine .inr fun s hs => @fails_before_first (startCodeAt bytes) 0 (bytes.length - 3) s (Nat.zero_le s) ?_
    omega

end P2PFFmpeg.Payload
