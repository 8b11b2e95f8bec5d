import P2PFFmpeg.Demux.NalUnits

/-!
scan_h264_nals with every read and every addition of its ints checked.
-/

namespace P2PFFmpeg.Demux

open Util
open Payload (NalUnit startCodeAt startCodeAt_iff beBytes length_beBytes avRb32_length avRb32_append_right
  beBytes_avRb32 withLengths withLengths_nil withLengths_cons)

inductive ScanFault
  | overflow
  | outside
  | endless
deriving DecidableEq, Repr

abbrev Checked : Type → Type := Except ScanFault

def addInt (a b : Int) : Checked Int :=
  if -2147483648 ≤ a + b ∧ a + b ≤ int32Max then .ok (a + b) else .error .overflow

def readByte (data : List UInt8) (i : Int) : Checked UInt8 :=
  if 0 ≤ i ∧ i < data.length then .ok (byteAt data i.toNat) else .error .outside

/-- `data[i] == b && data[i+1] == ...`, which reads no further than it has to. -/
def isCode (data : List UInt8) (i : Int) : Int → List UInt8 → Checked Bool
  | _, [] => .ok true
  | k, b :: bs => do
      let x ← readByte data (← addInt i k)
      if x = b then isCode data i (k + 1) bs else .ok false

/-- The loop over `j`. -/
def nextCodeChecked (data : List UInt8) : Nat → Int → Checked Int
  | 0, _ => .error .endless
  | fuel + 1, j => do
      if (← addInt j 4) ≤ data.length then
        let nsc3 ← isCode data j 0 [0, 0, 1]
        let nsc4 ← if (← addInt j 1) < data.length then isCode data j 0 [0, 0, 0, 1] else .ok false
        if nsc3 || nsc4 then .ok j else nextCodeChecked data fuel (← addInt j 1)
      else .ok j

def annexBChecked (data : List UInt8) : Nat → Int → Bool → Nals → Checked (Bool × Nals)
  | 0, _, _, _ => .error .endless
  | fuel + 1, i, found, n => do
      if (← addInt i 4) ≤ data.length then
        let sc3 ← if (← addInt i 3) ≤ data.length then isCode data i 0 [0, 0, 1] else .ok false
        let sc4 ← if (← addInt i 4) ≤ data.length then isCode data i 0 [0, 0, 0, 1] else .ok false
        if !sc3 && !sc4 then annexBChecked data fuel (← addInt i 1) found n
        else
          let nalStart ← addInt i (if sc4 then 4 else 3)
          let j ← nextCodeChecked data fuel nalStart
          let n ← if nalStart < data.length then do .ok (n.note (← readByte data nalStart)) else .ok n
          annexBChecked data fuel (← addInt (← addInt j (-1)) 1) true n
      else .ok (found, n)

def readWord (data : List UInt8) (pos : Int) : Checked UInt32 := do
  let _ ← readByte data pos
  let _ ← readByte data (pos + 1)
  let _ ← readByte data (pos + 2)
  let _ ← readByte data (pos + 3)
  .ok (avRb32 data pos.toNat)

def lengthChecked (data : List UInt8) : Nat → Int → Nals → Checked Nals
  | 0, _, _ => .error .endless
  | fuel + 1, pos, n => do
      if (← addInt pos 4) ≤ data.length then
        let len ← readWord data pos
        let pos ← addInt pos 4
        if len = 0 then .ok n
        else if (← addInt pos (Rtp.signed32 len)) > data.length then .ok n
        else
          let nalh ← readByte data pos
          lengthChecked data fuel (← addInt pos (Rtp.signed32 len)) (n.note nalh)
      else .ok n

def scanChecked (fuel : Nat) (data : List UInt8) : Checked Nals :=
  if data = [] then .ok .none
  else do
    let (found, n) ← annexBChecked data fuel 0 false .none
    if found then .ok n else lengthChecked data fuel 0 n

/-- The scan terminates, inside its data and without an overflow. -/
def ScansSafely (data : List UInt8) : Prop := ∃ fuel n, scanChecked fuel data = .ok n

def codeEnd (data : List UInt8) (i : Nat) : Nat := if startCode4 data i then i + 4 else i + 3

/-- Behind every start code from a place on there are four more ints. -/
structure CodesFit (data : List UInt8) (i : Nat) : Prop where
  size : (data.length : Int) < int32Max
  start : (i : Int) + 4 ≤ int32Max
  ends : ∀ p, i ≤ p → p + 4 ≤ data.length → (startCodeAt data p || startCode4 data p) = true →
    (codeEnd data p : Int) + 4 ≤ int32Max

/-- Where the length prefixes come to their end: less than four bytes are left, or
the next length is zero, or it leads beyond the data to a place that fits in an int. -/
def LastPrefix (p : Nat) (rest : List UInt8) : Prop :=
  rest.length < 4 ∧ (p : Int) + 4 ≤ int32Max ∨
    4 ≤ rest.length ∧ (avRb32 rest 0 = 0 ∨ rest.length < 4 + (avRb32 rest 0).toNat ∧
      (p : Int) + 4 + (avRb32 rest 0).toNat ≤ int32Max)

/-- Units that are not empty, each behind its length, up to the end of the lengths. -/
def LengthPrefixed (data : List UInt8) : Prop :=
  ∃ units rest, data = withLengths 4 units ++ rest ∧ (∀ u ∈ units, u ≠ []) ∧
    LastPrefix (withLengths 4 units).length rest

/-- Behind some units with their lengths stands a length that is negative as an int. -/
def NegativeLength (data : List UInt8) : Prop :=
  ∃ units rest, data = withLengths 4 units ++ rest ∧ (∀ u ∈ units, u ≠ []) ∧ 4 ≤ rest.length ∧
    2147483648 ≤ (avRb32 rest 0).toNat

inductive LengthChain (data : List UInt8) : Int → Prop
  | short {p : Int} (last : (data.length : Int) < p + 4) (fits : p + 4 ≤ int32Max) : LengthChain data p
  | zero {p : Int} (start : 0 ≤ p) (room : p + 4 ≤ data.length) (len : avRb32 data p.toNat = 0) :
      LengthChain data p
  | beyond {p : Int} (start : 0 ≤ p) (room : p + 4 ≤ data.length)
      (last : (data.length : Int) < p + 4 + Rtp.signed32 (avRb32 data p.toNat))
      (fits : p + 4 + Rtp.signed32 (avRb32 data p.toNat) ≤ int32Max) : LengthChain data p
  | unit {p : Int} (start : 0 ≤ p) (room : p + 4 < data.length) (len : avRb32 data p.toNat ≠ 0)
      (inside : p + 4 + Rtp.signed32 (avRb32 data p.toNat) ≤ data.length)
      (rest : LengthChain data (p + 4 + Rtp.signed32 (avRb32 data p.toNat))) : LengthChain data p

section Checks

variable {data : List UInt8} {a b : Int}

@[simp] theorem ok_bind {α β : Type} (x : α) (f : α → Checked β) : ((Except.ok x : Checked α) >>= f) = f x := rfl

theorem bind_eq_ok {α β : Type} {x : Checked α} {f : α → Checked β} {y : β} (h : (x >>= f) = .ok y) :
    ∃ a, x = .ok a ∧ f a = .ok y := by
  cases x with
  | error e => cases h
  | ok a => exact ⟨a, rfl, h⟩

theorem addInt_ok (h : -2147483648 ≤ a + b) (h' : a + b ≤ int32Max) : addInt a b = .ok (a + b) :=
  if_pos ⟨h, h'⟩

theorem addInt_overflow (h : int32Max < a + b) : addInt a b = .error .overflow :=
  if_neg fun hfits => absurd hfits.2 (Int.not_le.mpr h)

theorem readByte_ok {i : Nat} (h : i < data.length) : readByte data i = .ok (byteAt data i) :=
  if_pos ⟨Int.natCast_nonneg i, Int.ofNat_lt.mpr h⟩

theorem addInt_eq_ok {c : Int} (h : addInt a b = .ok c) : c = a + b ∧ a + b ≤ int32Max := by
  unfold addInt at h
  split at h
  · next hfits => exact ⟨(Except.ok.inj h).symm, hfits.2⟩
  · cases h

theorem isCode_cons {i k : Nat} (b : UInt8) (bs : List UInt8) (hroom : i + k < data.length)
    (hsize : (data.length : Int) ≤ int32Max) : isCode data i k (b :: bs) =
      if byteAt data (i + k) = b then isCode data i (k + 1 : Nat) bs else .ok false := by
  have hread := readByte_ok hroom
  rw [Nat.cast_add] at hread
  rw [isCode, addInt_ok (by omega) (by omega)]
  simp only [ok_bind, hread]
  rfl

theorem isCode_three {i : Nat} (hroom : i + 3 ≤ data.length) (hsize : (data.length : Int) ≤ int32Max) :
    isCode data i 0 [0, 0, 1] = .ok (startCodeAt data i) := by
  rw [← Nat.cast_zero, isCode_cons _ _ (by omega) hsize, isCode_cons _ _ (by omega) hsize,
    isCode_cons _ _ (by omega) hsize, isCode]
  unfold startCodeAt
  by_cases h₀ : byteAt data i = 0 <;> by_cases h₁ : byteAt data (i + 1) = 0 <;>
    by_cases h₂ : byteAt data (i + 2) = 1 <;> simp [h₀, h₁, h₂]

theorem isCode_four {i : Nat} (hroom : i + 4 ≤ data.length) (hsize : (data.length : Int) ≤ int32Max) :
    isCode data i 0 [0, 0, 0, 1] = .ok (startCode4 data i) := by
  rw [← Nat.cast_zero, isCode_cons _ _ (by omega) hsize, isCode_cons _ _ (by omega) hsize,
    isCode_cons _ _ (by omega) hsize, isCode_cons _ _ (by omega) hsize, isCode]
  unfold startCode4
  by_cases h₀ : byteAt data i = 0 <;> by_cases h₁ : byteAt data (i + 1) = 0 <;>
    by_cases h₂ : byteAt data (i + 2) = 0 <;> by_cases h₃ : byteAt data (i + 3) = 1 <;> simp [h₀, h₁, h₂, h₃]

end Checks

section Codes

variable {data : List UInt8} {i j fuel : Nat} {found : Bool} {n : Nals}

theorem nextCodeChecked_succ (hsize : (data.length : Int) ≤ int32Max) : nextCodeChecked data (fuel + 1) j =
      if int32Max < (j : Int) + 4 then .error .overflow
      else if j + 4 ≤ data.length then
        if startCodeAt data j || startCode4 data j then .ok j else nextCodeChecked data fuel (j + 1 : Nat)
      else .ok j := by
  unfold int32Max at *
  rw [nextCodeChecked]
  by_cases hover : (2147483647 : Int) < j + 4
  · rw [if_pos hover, addInt_overflow hover]
    rfl
  rw [if_neg hover, addInt_ok (by omega) (by unfold int32Max; omega), ok_bind]
  by_cases hroom : j + 4 ≤ data.length
  · rw [if_pos (by omega), if_pos hroom, isCode_three (by omega) hsize, addInt_ok (by omega) (by unfold int32Max; omega)]
    simp only [ok_bind]
    rw [if_pos (by omega), isCode_four hroom hsize]
    rfl
  · rw [if_neg (by omega), if_neg hroom]

theorem nextCodeChecked_ok (hsize : (data.length : Int) < int32Max) (hfits : (j : Int) + 4 ≤ int32Max)
    (hfuel : data.length - j < fuel) : nextCodeChecked data fuel j = .ok (nextStartCode data j : Int) := by
  induction fuel generalizing j with
  | zero => exact absurd hfuel (Nat.not_lt_zero _)
  | succ fuel ih =>
      rw [nextCodeChecked_succ (Int.le_of_lt hsize), if_neg (Int.not_lt.mpr hfits), nextStartCode]
      by_cases hroom : j + 4 ≤ data.length
      · rw [if_pos hroom, if_pos hroom]
        split
        · rfl
        · exact ih (by unfold int32Max at *; omega) (by omega)
      · rw [if_neg hroom, if_neg hroom]

theorem nextCodeChecked_only {c : Int} (hsize : (data.length : Int) ≤ int32Max)
    (h : nextCodeChecked data fuel j = .ok c) : (j : Int) + 4 ≤ int32Max ∧ c = nextStartCode data j := by
  induction fuel generalizing j with
  | zero => cases h
  | succ fuel ih =>
      rw [nextCodeChecked_succ hsize] at h
      rw [nextStartCode]
      by_cases hover : int32Max < (j : Int) + 4
      · rw [if_pos hover] at h
        cases h
      rw [if_neg hover] at h
      refine ⟨Int.not_lt.mp hover, ?_⟩
      split at h
      · next hroom =>
          rw [if_pos hroom]
          split at h
          · next hcode =>
              rw [if_pos hcode]
              exact (Except.ok.inj h).symm
          · next hcode =>
              rw [if_neg hcode]
              exact (ih h).2
      · next hroom =>
          rw [if_neg hroom]
          exact (Except.ok.inj h).symm

theorem nextStartCode_le (data : List UInt8) (j : Nat) :
    nextStartCode data j = j ∨ nextStartCode data j + 3 ≤ data.length := by
  fun_induction nextStartCode data j with
  | case1 j | case3 j => exact Or.inl rfl
  | case2 j hroom hcode ih => omega

theorem annexBChecked_succ (hsize : (data.length : Int) ≤ int32Max) :
    annexBChecked data (fuel + 1) i found n =
      if int32Max < (i : Int) + 4 then .error .overflow
      else if i + 4 ≤ data.length then
        if startCodeAt data i || startCode4 data i then do
          let j ← nextCodeChecked data fuel (codeEnd data i)
          annexBChecked data fuel (← addInt (← addInt j (-1)) 1) true
            (if codeEnd data i < data.length then n.note (byteAt data (codeEnd data i)) else n)
        else annexBChecked data fuel (i + 1 : Nat) found n
      else .ok (found, n) := by
  by_cases hover : int32Max < (i : Int) + 4
  · rw [if_pos hover, annexBChecked, addInt_overflow hover]
    rfl
  rw [if_neg hover]
  have hint : ∀ k : Int, 0 ≤ k → k ≤ 4 → addInt (i : Int) k = .ok (i + k) := by
    intro k hk hk'
    exact addInt_ok (by omega) (by omega)
  by_cases hroom : i + 4 ≤ data.length
  · have hroom₄ : ((i : Int) + 4 ≤ data.length) := by omega
    have hroom₃ : ((i : Int) + 3 ≤ data.length) := by omega
    rw [if_pos hroom, annexBChecked]
    simp only [hint 4 (by omega) (by omega), hint 3 (by omega) (by omega), hint 1 (by omega) (by omega), ok_bind,
      if_pos hroom₄, if_pos hroom₃, isCode_three (Nat.le_of_succ_le hroom) hsize, isCode_four hroom hsize]
    have hend : addInt (i : Int) (if startCode4 data i = true then 4 else 3) = .ok (codeEnd data i : Int) := by
      unfold codeEnd
      split
      · exact hint 4 (by omega) (by omega)
      · exact hint 3 (by omega) (by omega)
    rw [hend]
    simp only [ok_bind]
    by_cases hcode : (startCodeAt data i || startCode4 data i) = true
    · have hfound : ¬((!startCodeAt data i && !startCode4 data i) = true) := by
        rw [Bool.or_eq_true] at hcode
        simpa [Decidable.imp_iff_not_or] using hcode
      rw [if_pos hcode, if_neg hfound]
      congr 1
      funext j
      by_cases hnal : codeEnd data i < data.length
      · rw [if_pos (Int.ofNat_lt.mpr hnal), if_pos hnal, readByte_ok hnal]
        rfl
      · rw [if_neg (by omega), if_neg hnal]
    · rw [if_neg hcode, if_pos (by simpa using hcode), Nat.cast_succ]
  · rw [if_neg hroom, annexBChecked, hint 4 (by omega) (by omega), ok_bind, if_neg (by omega)]

theorem addInt_back (hj : (j : Int) ≤ int32Max) (f : Int → Checked (Bool × Nals)) :
    (do f (← addInt (← addInt (j : Int) (-1)) 1)) = f j := by
  unfold int32Max at hj
  rw [addInt_ok (by omega) (by unfold int32Max; omega), ok_bind,
    addInt_ok (by omega) (by unfold int32Max; omega), ok_bind, Int.neg_add_cancel_right]

theorem CodesFit.mono (h : CodesFit data i) (hij : i ≤ j) (hj : (j : Int) + 4 ≤ int32Max) : CodesFit data j where
  size := h.size
  start := hj
  ends p hp := h.ends p (Nat.le_trans hij hp)

theorem codeEnd_bounds (data : List UInt8) (i : Nat) : i + 3 ≤ codeEnd data i ∧ codeEnd data i ≤ i + 4 := by
  unfold codeEnd
  split
  · exact ⟨Nat.le_succ _, Nat.le_refl _⟩
  · exact ⟨Nat.le_refl _, Nat.le_succ _⟩

theorem annexBChecked_ok (h : CodesFit data i) (hfuel : data.length - i < fuel) :
    annexBChecked data fuel i found n = .ok (scanAnnexB data i found n) := by
  induction fuel generalizing i found n with
  | zero => exact absurd hfuel (Nat.not_lt_zero _)
  | succ fuel ih =>
      have hsize := h.size
      have hstart := h.start
      rw [annexBChecked_succ (Int.le_of_lt hsize), if_neg (Int.not_lt.mpr hstart), scanAnnexB]
      by_cases hroom : i + 4 ≤ data.length
      · rw [if_pos hroom, if_pos hroom]
        by_cases hcode : (startCodeAt data i || startCode4 data i) = true
        · have hend := h.ends i (Nat.le_refl i) hroom hcode
          have hbounds := codeEnd_bounds data i
          have hle := nextStartCode_le data (codeEnd data i)
          have hge := le_nextStartCode data (codeEnd data i)
          rw [if_pos hcode, if_pos hcode, nextCodeChecked_ok hsize hend (by omega), ok_bind,
            addInt_back (by unfold int32Max at *; omega)]
          exact ih (h.mono (by omega) (by unfold int32Max at *; omega)) (by omega)
        · rw [if_neg hcode, if_neg hcode]
          exact ih (h.mono (Nat.le_succ i) (by unfold int32Max at *; omega)) (by omega)
      · rw [if_neg hroom, if_neg hroom]

theorem codeEnd_inside {p : Nat} (hi : (startCodeAt data i || startCode4 data i) = true)
    (hp : (startCodeAt data p || startCode4 data p) = true) (hlt : i < p) (hend : p < codeEnd data i) :
    codeEnd data p = codeEnd data i := by
  obtain ⟨q, -, hq, hcode, honly⟩ := startCode_end hi
  change codeEnd data i = q + 3 at hq
  have hbounds := codeEnd_bounds data i
  have hshort : startCode4 data p = false := by
    by_contra hlong
    obtain ⟨hzero, hnext⟩ := startCode4_iff.mp (Bool.eq_true_of_not_eq_false hlong)
    by_cases hbehind : p + 1 < q + 3
    · have hsame := honly (p + 1) (by omega) hbehind hnext
      omega
    · obtain rfl : p = q + 2 := by omega
      exact absurd ((startCodeAt_iff.mp hcode).2.2.symm.trans hzero) (by decide)
  rw [hshort, Bool.or_false] at hp
  rw [codeEnd, hshort, hq, honly p (Nat.le_of_lt hlt) (by omega) hp]
  rfl

theorem annexBChecked_only {r : Bool × Nals} (hsize : (data.length : Int) ≤ int32Max)
    (h : annexBChecked data fuel i found n = .ok r) : CodesFit data i ∧ r = scanAnnexB data i found n := by
  induction fuel generalizing i found n with
  | zero => cases h
  | succ fuel ih =>
      rw [annexBChecked_succ hsize] at h
      rw [scanAnnexB]
      by_cases hover : int32Max < (i : Int) + 4
      · rw [if_pos hover] at h
        cases h
      rw [if_neg hover] at h
      by_cases hroom : i + 4 ≤ data.length
      · rw [if_pos hroom] at h ⊢
        by_cases hcode : (startCodeAt data i || startCode4 data i) = true
        · rw [if_pos hcode] at h ⊢
          obtain ⟨c, hc, hrest⟩ := bind_eq_ok h
          obtain ⟨hend, rfl⟩ := nextCodeChecked_only hsize hc
          have hle := nextStartCode_le data (codeEnd data i)
          rw [addInt_back (by unfold int32Max at *; omega)] at hrest
          obtain ⟨hfit, hr⟩ := ih hrest
          refine ⟨⟨hfit.size, Int.not_lt.mp hover, fun p hp hlast hcodep => ?_⟩, hr⟩
          by_cases hbehind : nextStartCode data (codeEnd data i) ≤ p
          · exact hfit.ends p hbehind hlast hcodep
          by_cases hinside : p < codeEnd data i
          · obtain rfl | hlt := Nat.eq_or_lt_of_le hp
            · exact hend
            · rwa [codeEnd_inside hcode hcodep hlt hinside]
          · have hfree := nextStartCode_free data _ p (Nat.not_lt.mp hinside) (Nat.not_le.mp hbehind)
            rw [hfree.1, hfree.2] at hcodep
            cases hcodep
        · rw [if_neg hcode] at h ⊢
          obtain ⟨hfit, hr⟩ := ih h
          refine ⟨⟨hfit.size, Int.not_lt.mp hover, fun p hp hlast hcodep => ?_⟩, hr⟩
          obtain rfl | hlt := Nat.eq_or_lt_of_le hp
          · exact absurd hcodep hcode
          · exact hfit.ends p hlt hlast hcodep
      · rw [if_neg hroom] at h ⊢
        have hsize' : (data.length : Int) < int32Max := by omega
        exact ⟨⟨hsize', Int.not_lt.mp hover, fun p hp hlast => absurd hlast (by omega)⟩, (Except.ok.inj h).symm⟩

end Codes

section Lengths

variable {data : List UInt8} {p : Int} {fuel : Nat} {n : Nals}

theorem readByte_eq_ok {i : Int} {x : UInt8} (h : readByte data i = .ok x) :
    0 ≤ i ∧ i < data.length ∧ x = byteAt data i.toNat := by
  unfold readByte at h
  split at h
  · next hin => exact ⟨hin.1, hin.2, (Except.ok.inj h).symm⟩
  · cases h

theorem readWord_ok (hstart : 0 ≤ p) (hroom : p + 4 ≤ data.length) : readWord data p = .ok (avRb32 data p.toNat) := by
  have hbyte : ∀ k : Int, 0 ≤ k → k < 4 → readByte data (p + k) = .ok (byteAt data (p + k).toNat) := by
    intro k hk hk'
    exact if_pos ⟨by omega, by omega⟩
  have hfirst := hbyte 0 (by decide) (by decide)
  rw [Int.add_zero] at hfirst
  rw [readWord, hfirst, hbyte 1 (by decide) (by decide), hbyte 2 (by decide) (by decide),
    hbyte 3 (by decide) (by decide)]
  rfl

theorem signed32_bounds (x : UInt32) : -2147483648 ≤ Rtp.signed32 x ∧ Rtp.signed32 x ≤ 2147483647 := by
  have hlow := BitVec.le_toInt x.toBitVec
  have hhigh := @BitVec.toInt_lt 32 x.toBitVec
  unfold Rtp.signed32
  omega

theorem readWord_eq_ok {x : UInt32} (hroom : p + 4 ≤ data.length) (h : readWord data p = .ok x) :
    0 ≤ p ∧ x = avRb32 data p.toNat := by
  obtain ⟨b, hb, -⟩ := bind_eq_ok h
  obtain ⟨hstart, -, -⟩ := readByte_eq_ok hb
  rw [readWord_ok hstart hroom] at h
  exact ⟨hstart, (Except.ok.inj h).symm⟩

/-- The loop over the lengths follows the chain of lengths, and notes the types
that its function does. -/
theorem lengthChecked_only {m : Nals} (h : lengthChecked data fuel p n = .ok m) :
    LengthChain data p ∧ scanLengthPrefixed data fuel p n = some m := by
  induction fuel generalizing p n with
  | zero => cases h
  | succ fuel ih =>
      rw [lengthChecked] at h
      rw [scanLengthPrefixed]
      obtain ⟨c, hc, h⟩ := bind_eq_ok h
      obtain ⟨rfl, hfits⟩ := addInt_eq_ok hc
      by_cases hroom : p + 4 ≤ data.length
      · rw [if_pos hroom] at h
        obtain ⟨len, hlen, h⟩ := bind_eq_ok h
        obtain ⟨hstart, rfl⟩ := readWord_eq_ok hroom hlen
        rw [if_pos hroom, if_neg (Int.not_lt.mpr hstart)]
        dsimp only
        rw [hc, ok_bind] at h
        by_cases hzero : avRb32 data p.toNat = 0
        · rw [if_pos hzero] at h ⊢
          exact ⟨.zero hstart hroom hzero, congrArg some (Except.ok.inj h)⟩
        rw [if_neg hzero] at h ⊢
        obtain ⟨q, hq, h⟩ := bind_eq_ok h
        obtain ⟨rfl, hnext⟩ := addInt_eq_ok hq
        rw [if_neg (Int.not_lt.mpr hnext)]
        by_cases hlast : p + 4 + Rtp.signed32 (avRb32 data p.toNat) > data.length
        · rw [if_pos hlast] at h ⊢
          exact ⟨.beyond hstart hroom hlast hnext, congrArg some (Except.ok.inj h)⟩
        rw [if_neg hlast] at h ⊢
        obtain ⟨nalh, hread, h⟩ := bind_eq_ok h
        obtain ⟨-, hinside, rfl⟩ := readByte_eq_ok hread
        rw [hq, ok_bind] at h
        obtain ⟨hrest, hsame⟩ := ih h
        exact ⟨.unit hstart hinside hzero (Int.not_lt.mp hlast) hrest, hsame⟩
      · rw [if_neg hroom] at h ⊢
        exact ⟨.short (Int.not_le.mp hroom) hfits, congrArg some (Except.ok.inj h)⟩

theorem lengthChecked_ok (h : LengthChain data p) (hsize : (data.length : Int) ≤ int32Max) :
    ∃ least, ∀ fuel n, least ≤ fuel → ∃ m, lengthChecked data fuel p n = .ok m := by
  unfold int32Max at hsize
  induction h with
  | short last fits =>
      refine ⟨1, fun fuel n hfuel => ⟨n, ?_⟩⟩
      obtain ⟨fuel, rfl⟩ := Nat.exists_eq_add_of_le' hfuel
      rw [lengthChecked, addInt_ok (by omega) fits, ok_bind, if_neg (Int.not_le.mpr last)]
  | zero start room len =>
      refine ⟨1, fun fuel n hfuel => ⟨n, ?_⟩⟩
      obtain ⟨fuel, rfl⟩ := Nat.exists_eq_add_of_le' hfuel
      rw [lengthChecked, addInt_ok (by omega) (by unfold int32Max; omega), ok_bind, if_pos room,
        readWord_ok start room]
      simp only [ok_bind, len, if_true]
  | @beyond p start room last fits =>
      -- the number read stays a variable for the arithmetic
      obtain ⟨len, hread⟩ : ∃ len, avRb32 data p.toNat = len := ⟨_, rfl⟩
      rw [hread] at last fits
      have hint := addInt_ok (by omega : -2147483648 ≤ p + 4) (by unfold int32Max; omega)
      have hlen : len ≠ 0 := by
        rintro rfl
        exact absurd last (Int.not_lt.mpr (by simpa [Rtp.signed32] using room))
      refine ⟨1, fun fuel n hfuel => ⟨n, ?_⟩⟩
      obtain ⟨fuel, rfl⟩ := Nat.exists_eq_add_of_le' hfuel
      rw [lengthChecked, hint, ok_bind, if_pos room, readWord_ok start room, hread]
      simp only [ok_bind]
      rw [if_neg hlen, addInt_ok (by omega) fits, ok_bind, if_pos last]
  | @unit p start room len inside rest ih =>
      obtain ⟨least, hrun⟩ := ih
      obtain ⟨size, hsize'⟩ : ∃ size, avRb32 data p.toNat = size := ⟨_, rfl⟩
      rw [hsize'] at len inside hrun
      have hbounds := signed32_bounds size
      have hroom : p + 4 ≤ data.length := Int.le_of_lt room
      have hint := addInt_ok (by omega : -2147483648 ≤ p + 4) (by unfold int32Max; omega)
      have hnext := addInt_ok (by omega : -2147483648 ≤ p + 4 + Rtp.signed32 size) (by unfold int32Max; omega)
      have hread : readByte data (p + 4) = .ok (byteAt data (p + 4).toNat) := if_pos ⟨by omega, room⟩
      refine ⟨least + 1, fun fuel n hfuel => ?_⟩
      obtain ⟨fuel, rfl⟩ := Nat.exists_eq_add_of_le' (Nat.le_trans (Nat.le_add_left 1 least) hfuel)
      obtain ⟨m, hm⟩ := hrun fuel (n.note (byteAt data (p + 4).toNat)) (Nat.le_of_succ_le_succ hfuel)
      refine ⟨m, ?_⟩
      rw [lengthChecked, hint, ok_bind, if_pos hroom, readWord_ok start hroom, hsize']
      simp only [ok_bind]
      rw [if_neg len, hnext, ok_bind, if_neg (Int.not_lt.mpr inside), hread]
      simp only [ok_bind]
      exact hm

end Lengths

section Prefixes

variable {head rest : List UInt8}

theorem signed32_of_lt {x : UInt32} (h : x.toNat < 2147483648) : Rtp.signed32 x = x.toNat := by
  have hsmall := signed32_small h
  rwa [UInt32.ofNat_toNat] at hsmall

theorem chain_of_last (hsize : ((head ++ rest).length : Int) ≤ int32Max) (h : LastPrefix head.length rest) :
    LengthChain (head ++ rest) head.length := by
  rw [List.length_append] at hsize
  unfold int32Max at hsize
  have hword : avRb32 (head ++ rest) (head.length : Int).toNat = avRb32 rest 0 := by
    rw [Int.toNat_natCast, avRb32_append_right]
  have hlength : ((head ++ rest).length : Int) = head.length + rest.length := by
    rw [List.length_append, Nat.cast_add]
  rcases h with ⟨hshort, hfits⟩ | ⟨hroom, hzero | ⟨hbeyond, hfits⟩⟩
  · exact .short (by omega) hfits
  · exact .zero (Int.natCast_nonneg _) (by omega) (hword.trans hzero)
  · have hsigned : Rtp.signed32 (avRb32 (head ++ rest) (head.length : Int).toNat) = (avRb32 rest 0).toNat := by
      rw [hword]
      apply signed32_of_lt
      unfold int32Max at hfits
      omega
    apply LengthChain.beyond (Int.natCast_nonneg _)
    · omega
    · omega
    · rwa [hsigned]

theorem chain_of_units (units : List (List UInt8)) (hunits : ∀ u ∈ units, u ≠ [])
    (hsize : ((head ++ (withLengths 4 units ++ rest)).length : Int) ≤ int32Max)
    (h : LastPrefix (head ++ withLengths 4 units).length rest) :
    LengthChain (head ++ (withLengths 4 units ++ rest)) head.length := by
  induction units generalizing head with
  | nil =>
      rw [withLengths_nil, List.append_nil] at h
      exact chain_of_last hsize h
  | cons u units ih =>
      have hpos := List.length_pos_iff.mpr (hunits u (List.mem_cons_self ..))
      rw [withLengths_cons] at hsize h ⊢
      simp only [List.append_assoc] at hsize ⊢
      have hlength : ((head ++ (beBytes 4 u.length ++ (u ++ (withLengths 4 units ++ rest)))).length : Int) =
          head.length + (4 + (u.length + (withLengths 4 units ++ rest).length)) := by
        simp only [List.length_append, length_beBytes, Nat.cast_add, Nat.cast_ofNat]
      rw [hlength] at hsize
      unfold int32Max at hsize
      have hword := avRb32_length head (u ++ (withLengths 4 units ++ rest)) (by omega : u.length < 4294967296)
      have hsigned := @signed32_small u.length (by omega)
      have hnext : head ++ (beBytes 4 u.length ++ (u ++ (withLengths 4 units ++ rest))) =
          (head ++ (beBytes 4 u.length ++ u)) ++ (withLengths 4 units ++ rest) := by
        simp only [List.append_assoc]
      have hplace : (head.length : Int) + 4 + u.length = ((head ++ (beBytes 4 u.length ++ u)).length : Int) := by
        simp only [List.length_append, length_beBytes]
        omega
      have hrest := ih (fun v hv => hunits v (List.mem_cons_of_mem u hv))
        (by rw [← hnext, hlength]; unfold int32Max; omega) (by simpa only [List.append_assoc] using h)
      rw [← hnext, ← hplace] at hrest
      rw [← hsigned, ← hword] at hrest
      rw [← hword] at hsigned
      refine .unit (Int.natCast_nonneg _) (by omega) ?_ (by rw [Int.toNat_natCast]; omega) hrest
      intro hzero
      rw [Int.toNat_natCast] at hzero
      have hcast : Rtp.signed32 (0 : UInt32) = 0 := by decide
      rw [hzero, hcast] at hsigned
      omega

/-- The bytes in front of the place of a non-negative length that fits are those of a unit. -/
theorem unit_split {tail : List UInt8} {n : Nat} (hword : (avRb32 tail 0).toNat = n) (hroom : 4 + n ≤ tail.length) :
    ∃ u rest, u.length = n ∧ tail = beBytes 4 u.length ++ (u ++ rest) := by
  refine ⟨(tail.drop 4).take n, (tail.drop 4).drop n, ?_, ?_⟩
  · rw [List.length_take, List.length_drop]
    omega
  · have hlength : ((tail.drop 4).take n).length = n := by
      rw [List.length_take, List.length_drop]
      omega
    rw [hlength, ← hword, beBytes_avRb32 (Nat.le_trans (Nat.le_add_right 4 n) hroom), List.take_append_drop,
      List.take_append_drop]

def Framed (p : Nat) (tail : List UInt8) : Prop :=
  ∃ units rest, tail = withLengths 4 units ++ rest ∧ (∀ u ∈ units, u ≠ []) ∧
    (LastPrefix (p + (withLengths 4 units).length) rest ∨ 4 ≤ rest.length ∧ 2147483648 ≤ (avRb32 rest 0).toNat)

theorem framed_here {p : Nat} (h : LastPrefix p rest ∨ 4 ≤ rest.length ∧ 2147483648 ≤ (avRb32 rest 0).toNat) :
    Framed p rest :=
  ⟨[], rest, rfl, fun _ hu => absurd hu List.not_mem_nil, h⟩

theorem Framed.cons {p : Nat} {u : List UInt8} (hu : u ≠ []) (h : Framed (p + (4 + u.length)) rest) :
    Framed p (beBytes 4 u.length ++ (u ++ rest)) := by
  obtain ⟨units, rest, rfl, hunits, hlast⟩ := h
  refine ⟨u :: units, rest, ?_, List.forall_mem_cons.mpr ⟨hu, hunits⟩, ?_⟩
  · rw [withLengths_cons, List.append_assoc, List.append_assoc]
  · rw [withLengths_cons, List.length_append, List.length_append, length_beBytes]
    rwa [Nat.add_assoc, Nat.add_assoc] at hlast

/-- The loop over the lengths goes from unit to unit as long as no length is negative. -/
theorem LengthChain.framed {data : List UInt8} {p : Int} (h : LengthChain data p) (hdata : data = head ++ rest)
    (hp : p = head.length) : Framed head.length rest := by
  have hlength : data.length = head.length + rest.length := by
    rw [hdata, List.length_append]
  have hword : avRb32 data p.toNat = avRb32 rest 0 := by
    rw [hp, hdata, Int.toNat_natCast, avRb32_append_right]
  induction h generalizing head rest with
  | short last fits => exact framed_here (.inl (.inl ⟨by omega, by rwa [hp] at fits⟩))
  | zero start room len => exact framed_here (.inl (.inr ⟨by omega, .inl (hword ▸ len)⟩))
  | beyond start room last fits =>
      by_cases hneg : (avRb32 rest 0).toNat < 2147483648
      · rw [hword, signed32_of_lt hneg] at last fits
        exact framed_here (.inl (.inr ⟨by omega, .inr ⟨by omega, by rwa [hp] at fits⟩⟩))
      · exact framed_here (.inr ⟨by omega, Nat.not_lt.mp hneg⟩)
  | @unit p start room len inside _ ih =>
      by_cases hneg : (avRb32 rest 0).toNat < 2147483648
      · rw [hword] at len
        rw [hword, signed32_of_lt hneg] at inside ih
        obtain ⟨u, tail, hu, rfl⟩ := @unit_split rest _ rfl (by omega)
        have hne : u ≠ [] := by
          rintro rfl
          exact len (UInt32.toNat_inj.mp hu.symm)
        apply Framed.cons hne
        have hplace : (head ++ (beBytes 4 u.length ++ u)).length = head.length + (4 + u.length) := by
          rw [List.length_append, List.length_append, length_beBytes]
        rw [← hplace]
        have hdata' : data = (head ++ (beBytes 4 u.length ++ u)) ++ tail := by
          rw [hdata, List.append_assoc, List.append_assoc]
        have hnext : p + 4 + ((avRb32 (beBytes 4 u.length ++ (u ++ tail)) 0).toNat : Int) =
            ((head ++ (beBytes 4 u.length ++ u)).length : Int) := by
          rw [hplace]
          omega
        refine ih hdata' hnext ?_ ?_
        · rw [hdata', List.length_append]
        · rw [hnext, Int.toNat_natCast, hdata', avRb32_append_right]
      · exact framed_here (.inr ⟨by omega, Nat.not_lt.mp hneg⟩)

end Prefixes

/-- The scan of a packet is safe where the loop over the start codes fits in an int
and either it finds one or the loop over the lengths comes to its end. -/
theorem scansSafely_iff_chain (data : List UInt8) (hsize : (data.length : Int) ≤ int32Max) :
    ScansSafely data ↔ data = [] ∨ CodesFit data 0 ∧ (CodeFrom data 0 ∨ LengthChain data 0) := by
  constructor
  · rintro ⟨fuel, n, h⟩
    by_cases hempty : data = []
    · exact Or.inl hempty
    rw [scanChecked, if_neg hempty] at h
    obtain ⟨⟨found, m⟩, hcodes, h⟩ := bind_eq_ok h
    obtain ⟨hfit, hscan⟩ := @annexBChecked_only data 0 fuel false .none _ hsize hcodes
    refine Or.inr ⟨hfit, ?_⟩
    cases found with
    | true => exact Or.inl ((scanAnnexB_found .none).mp (congrArg Prod.fst hscan).symm)
    | false => exact Or.inr (lengthChecked_only h).1
  · rintro (rfl | ⟨hfit, hrest⟩)
    · exact ⟨0, .none, rfl⟩
    by_cases hempty : data = []
    · exact ⟨0, .none, if_pos hempty⟩
    have hcodes : ∀ fuel, data.length < fuel → annexBChecked data fuel 0 false .none =
        .ok (scanAnnexB data 0 false .none) := fun fuel hfuel => annexBChecked_ok hfit hfuel
    by_cases hfound : (scanAnnexB data 0 false .none).1 = true
    · refine ⟨data.length + 1, (scanAnnexB data 0 false .none).2, ?_⟩
      rw [scanChecked, if_neg hempty, hcodes _ (Nat.lt_succ_self _), ok_bind]
      exact if_pos hfound
    · have hchain := hrest.resolve_left fun hcode => hfound ((scanAnnexB_found .none).mpr hcode)
      obtain ⟨least, hrun⟩ := lengthChecked_ok hchain hsize
      obtain ⟨m, hm⟩ := hrun (least + data.length + 1) (scanAnnexB data 0 false .none).2 (by omega)
      refine ⟨least + data.length + 1, m, ?_⟩
      rw [scanChecked, if_neg hempty, hcodes _ (by omega), ok_bind]
      exact (if_neg hfound).trans hm

/-- The scan of a packet is safe where the loop over the start codes fits in an int
and either it finds one or the data is a row of units with their lengths. Other data is
scanned safely only where a length of 2 ^ 31 or more is taken as one that fits. -/
theorem scans_safely_prefixed (data : List UInt8) (hsize : (data.length : Int) ≤ int32Max) :
    (data = [] ∨ CodesFit data 0 ∧ (CodeFrom data 0 ∨ LengthPrefixed data) → ScansSafely data) ∧
      (ScansSafely data → (data = [] ∨ CodesFit data 0 ∧ (CodeFrom data 0 ∨ LengthPrefixed data)) ∨
        NegativeLength data) := by
  rw [scansSafely_iff_chain data hsize]
  constructor
  · rintro (hempty | ⟨hfit, hcode | ⟨units, rest, rfl, hunits, hlast⟩⟩)
    · exact Or.inl hempty
    · exact Or.inr ⟨hfit, Or.inl hcode⟩
    · exact Or.inr ⟨hfit, Or.inr (@chain_of_units [] rest units hunits hsize hlast)⟩
  · rintro (hempty | ⟨hfit, hcode | hchain⟩)
    · exact Or.inl (Or.inl hempty)
    · exact Or.inl (Or.inr ⟨hfit, Or.inl hcode⟩)
    · obtain ⟨units, rest, hdata, hunits, hlast | hneg⟩ := @LengthChain.framed [] data data 0 hchain rfl rfl
      · rw [List.length_nil, Nat.zero_add] at hlast
        exact Or.inl (Or.inr ⟨hfit, Or.inr ⟨units, rest, hdata, hunits, hlast⟩⟩)
      · exact Or.inr ⟨units, rest, hdata, hunits, hneg⟩

section Examples

/-- A length of -8 that leads back to a length of zero: scanned safely, though no row
of units with their lengths. -/
example : ScansSafely [0, 0, 0, 4, 0, 0, 0, 0, 0xFF, 0xFF, 0xFF, 0xF8, 0] := by
  exact ⟨14, .none, by decide +kernel⟩

/-- Two parameter sets, each behind its length. -/
theorem scans_safely_parameter_sets : ScansSafely [0, 0, 0, 2, 0x67, 0x42, 0, 0, 0, 2, 0x68, 0xCE] := by
  refine (scans_safely_prefixed [0, 0, 0, 2, 0x67, 0x42, 0, 0, 0, 2, 0x68, 0xCE] (by decide)).1
    (Or.inr ⟨⟨by decide, by decide, fun p _ hp _ => ?_⟩,
      Or.inr ⟨[[0x67, 0x42], [0x68, 0xCE]], [], rfl, by decide, Or.inl (by decide)⟩⟩)
  have hend := codeEnd_bounds [0, 0, 0, 2, 0x67, 0x42, 0, 0, 0, 2, 0x68, 0xCE] p
  change p + 4 ≤ 12 at hp
  unfold int32Max
  omega

/-- Behind a length of four bytes of ones there is no unit header to read. -/
theorem ones_read_outside :
    ¬ ∀ data : List UInt8, (data.length : Int) ≤ int32Max → ScansSafely data := by
  intro h
  obtain ⟨fuel, n, hscan⟩ := h [0xFF, 0xFF, 0xFF, 0xFF] (by decide)
  obtain ⟨⟨found, m⟩, hcodes, hlength⟩ := bind_eq_ok hscan
  obtain ⟨-, hannexB⟩ := @annexBChecked_only [0xFF, 0xFF, 0xFF, 0xFF] 0 fuel false .none _ (by decide) hcodes
  have hones : scanAnnexB [0xFF, 0xFF, 0xFF, 0xFF] 0 false .none = (false, .none) := by
    rw [scanAnnexB, if_pos (by decide), if_neg (by decide), scanAnnexB, if_neg (by decide)]
  rw [hones] at hannexB
  obtain ⟨rfl, rfl⟩ := Prod.mk.inj hannexB
  have hword : Rtp.signed32 (avRb32 [0xFF, 0xFF, 0xFF, 0xFF] (0 : Int).toNat) = -1 := by decide
  cases (lengthChecked_only hlength).1 with
  | short last => exact absurd last (by decide)
  | zero _ _ len => exact absurd len (by decide)
  | beyond _ _ last =>
      rw [hword] at last
      exact absurd last (by decide)
  | unit _ room => exact absurd room (by decide)

end Examples

end P2PFFmpeg.Demux
