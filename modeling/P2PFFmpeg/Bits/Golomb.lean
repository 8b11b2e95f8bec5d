import P2PFFmpeg.Bits.GetBits
import P2PFFmpeg.Bits.PutBits
import P2PFFmpeg.Util.Error

/-!
Exp-Golomb codes and the fields of coded bitstreams, with tracing off.
-/

namespace P2PFFmpeg.Bits

open Library.BitField

def uint32Max : Nat := 4294967295

/-- `av_log2`, which is 0 at 0. -/
def avLog2 (x : Nat) : Nat := x.log2

def ffUeGolombLen : List Nat :=
  [1, 3, 3, 5, 5, 5, 5, 7, 7, 7, 7, 7, 7, 7, 7, 9, 9, 9, 9, 9, 9, 9, 9, 9, 9, 9, 9, 9, 9, 9, 9, 11,
   11, 11, 11, 11, 11, 11, 11, 11, 11, 11, 11, 11, 11, 11, 11, 11, 11, 11, 11, 11, 11, 11, 11, 11,
   11, 11, 11, 11, 11, 11, 11, 13, 13, 13, 13, 13, 13, 13, 13, 13, 13, 13, 13, 13, 13, 13, 13, 13,
   13, 13, 13, 13, 13, 13, 13, 13, 13, 13, 13, 13, 13, 13, 13, 13, 13, 13, 13, 13, 13, 13, 13, 13,
   13, 13, 13, 13, 13, 13, 13, 13, 13, 13, 13, 13, 13, 13, 13, 13, 13, 13, 13, 13, 13, 13, 13, 15,
   15, 15, 15, 15, 15, 15, 15, 15, 15, 15, 15, 15, 15, 15, 15, 15, 15, 15, 15, 15, 15, 15, 15, 15,
   15, 15, 15, 15, 15, 15, 15, 15, 15, 15, 15, 15, 15, 15, 15, 15, 15, 15, 15, 15, 15, 15, 15, 15,
   15, 15, 15, 15, 15, 15, 15, 15, 15, 15, 15, 15, 15, 15, 15, 15, 15, 15, 15, 15, 15, 15, 15, 15,
   15, 15, 15, 15, 15, 15, 15, 15, 15, 15, 15, 15, 15, 15, 15, 15, 15, 15, 15, 15, 15, 15, 15, 15,
   15, 15, 15, 15, 15, 15, 15, 15, 15, 15, 15, 15, 15, 15, 15, 15, 15, 15, 15, 15, 15, 15, 15, 15,
   15, 15, 15, 15, 15, 15, 15, 17]

def ffGolombVlcLen : List Nat :=
  [19, 17, 15, 15, 13, 13, 13, 13, 11, 11, 11, 11, 11, 11, 11, 11, 9, 9, 9, 9, 9, 9, 9, 9, 9, 9, 9,
   9, 9, 9, 9, 9, 7, 7, 7, 7, 7, 7, 7, 7, 7, 7, 7, 7, 7, 7, 7, 7, 7, 7, 7, 7, 7, 7, 7, 7, 7, 7, 7,
   7, 7, 7, 7, 7, 5, 5, 5, 5, 5, 5, 5, 5, 5, 5, 5, 5, 5, 5, 5, 5, 5, 5, 5, 5, 5, 5, 5, 5, 5, 5, 5,
   5, 5, 5, 5, 5, 5, 5, 5, 5, 5, 5, 5, 5, 5, 5, 5, 5, 5, 5, 5, 5, 5, 5, 5, 5, 5, 5, 5, 5, 5, 5, 5,
   5, 5, 5, 5, 5, 3, 3, 3, 3, 3, 3, 3, 3, 3, 3, 3, 3, 3, 3, 3, 3, 3, 3, 3, 3, 3, 3, 3, 3, 3, 3, 3,
   3, 3, 3, 3, 3, 3, 3, 3, 3, 3, 3, 3, 3, 3, 3, 3, 3, 3, 3, 3, 3, 3, 3, 3, 3, 3, 3, 3, 3, 3, 3, 3,
   3, 3, 3, 3, 3, 3, 3, 3, 3, 3, 3, 3, 3, 3, 3, 3, 3, 3, 3, 3, 3, 3, 3, 3, 3, 3, 3, 3, 3, 3, 3, 3,
   3, 3, 3, 3, 3, 3, 3, 3, 3, 3, 3, 3, 3, 3, 3, 3, 3, 3, 3, 3, 3, 3, 3, 3, 3, 3, 3, 3, 3, 3, 3, 3,
   3, 3, 3, 3, 3, 1, 1, 1, 1, 1, 1, 1, 1, 1, 1, 1, 1, 1, 1, 1, 1, 1, 1, 1, 1, 1, 1, 1, 1, 1, 1, 1,
   1, 1, 1, 1, 1, 1, 1, 1, 1, 1, 1, 1, 1, 1, 1, 1, 1, 1, 1, 1, 1, 1, 1, 1, 1, 1, 1, 1, 1, 1, 1, 1,
   1, 1, 1, 1, 1, 1, 1, 1, 1, 1, 1, 1, 1, 1, 1, 1, 1, 1, 1, 1, 1, 1, 1, 1, 1, 1, 1, 1, 1, 1, 1, 1,
   1, 1, 1, 1, 1, 1, 1, 1, 1, 1, 1, 1, 1, 1, 1, 1, 1, 1, 1, 1, 1, 1, 1, 1, 1, 1, 1, 1, 1, 1, 1, 1,
   1, 1, 1, 1, 1, 1, 1, 1, 1, 1, 1, 1, 1, 1, 1, 1, 1, 1, 1, 1, 1, 1, 1, 1, 1, 1, 1, 1, 1, 1, 1, 1,
   1, 1, 1, 1, 1, 1, 1, 1, 1, 1, 1, 1, 1, 1, 1, 1, 1, 1, 1, 1, 1, 1, 1, 1, 1, 1, 1, 1, 1, 1, 1, 1,
   1, 1, 1, 1, 1, 1, 1, 1, 1, 1, 1, 1, 1, 1, 1, 1, 1, 1, 1, 1, 1, 1, 1, 1, 1, 1, 1, 1, 1, 1, 1, 1,
   1, 1, 1, 1, 1, 1, 1, 1, 1, 1, 1, 1, 1, 1, 1, 1, 1, 1, 1, 1, 1, 1, 1, 1, 1, 1, 1, 1, 1, 1, 1, 1,
   1, 1, 1, 1, 1]

def ffUeGolombVlcCode : List Nat :=
  [32, 32, 32, 32, 32, 32, 32, 32, 31, 32, 32, 32, 32, 32, 32, 32, 15, 16, 17, 18, 19, 20, 21, 22,
   23, 24, 25, 26, 27, 28, 29, 30, 7, 7, 7, 7, 8, 8, 8, 8, 9, 9, 9, 9, 10, 10, 10, 10, 11, 11, 11,
   11, 12, 12, 12, 12, 13, 13, 13, 13, 14, 14, 14, 14, 3, 3, 3, 3, 3, 3, 3, 3, 3, 3, 3, 3, 3, 3, 3,
   3, 4, 4, 4, 4, 4, 4, 4, 4, 4, 4, 4, 4, 4, 4, 4, 4, 5, 5, 5, 5, 5, 5, 5, 5, 5, 5, 5, 5, 5, 5, 5,
   5, 6, 6, 6, 6, 6, 6, 6, 6, 6, 6, 6, 6, 6, 6, 6, 6, 1, 1, 1, 1, 1, 1, 1, 1, 1, 1, 1, 1, 1, 1, 1,
   1, 1, 1, 1, 1, 1, 1, 1, 1, 1, 1, 1, 1, 1, 1, 1, 1, 1, 1, 1, 1, 1, 1, 1, 1, 1, 1, 1, 1, 1, 1, 1,
   1, 1, 1, 1, 1, 1, 1, 1, 1, 1, 1, 1, 1, 1, 1, 1, 1, 2, 2, 2, 2, 2, 2, 2, 2, 2, 2, 2, 2, 2, 2, 2,
   2, 2, 2, 2, 2, 2, 2, 2, 2, 2, 2, 2, 2, 2, 2, 2, 2, 2, 2, 2, 2, 2, 2, 2, 2, 2, 2, 2, 2, 2, 2, 2,
   2, 2, 2, 2, 2, 2, 2, 2, 2, 2, 2, 2, 2, 2, 2, 2, 2, 0, 0, 0, 0, 0, 0, 0, 0, 0, 0, 0, 0, 0, 0, 0,
   0, 0, 0, 0, 0, 0, 0, 0, 0, 0, 0, 0, 0, 0, 0, 0, 0, 0, 0, 0, 0, 0, 0, 0, 0, 0, 0, 0, 0, 0, 0, 0,
   0, 0, 0, 0, 0, 0, 0, 0, 0, 0, 0, 0, 0, 0, 0, 0, 0, 0, 0, 0, 0, 0, 0, 0, 0, 0, 0, 0, 0, 0, 0, 0,
   0, 0, 0, 0, 0, 0, 0, 0, 0, 0, 0, 0, 0, 0, 0, 0, 0, 0, 0, 0, 0, 0, 0, 0, 0, 0, 0, 0, 0, 0, 0, 0,
   0, 0, 0, 0, 0, 0, 0, 0, 0, 0, 0, 0, 0, 0, 0, 0, 0, 0, 0, 0, 0, 0, 0, 0, 0, 0, 0, 0, 0, 0, 0, 0,
   0, 0, 0, 0, 0, 0, 0, 0, 0, 0, 0, 0, 0, 0, 0, 0, 0, 0, 0, 0, 0, 0, 0, 0, 0, 0, 0, 0, 0, 0, 0, 0,
   0, 0, 0, 0, 0, 0, 0, 0, 0, 0, 0, 0, 0, 0, 0, 0, 0, 0, 0, 0, 0, 0, 0, 0, 0, 0, 0, 0, 0, 0, 0, 0,
   0, 0, 0, 0, 0, 0, 0, 0, 0, 0, 0, 0, 0, 0, 0, 0, 0, 0, 0, 0, 0, 0, 0, 0, 0, 0, 0, 0, 0, 0, 0, 0,
   0, 0, 0, 0, 0, 0, 0, 0, 0, 0, 0, 0, 0, 0, 0, 0, 0]

def setUeGolomb (w : BitBuf) (i : Nat) (s : PutBitContext) : PutBitContext :=
  if i < 256 then putBits w (ffUeGolombLen.getD i 0) (i + 1) s
  else
    let e := avLog2 (i + 1)
    putBits w (2 * e + 1) (i + 1) s

def setUeGolombLong (w : BitBuf) (i : Nat) (s : PutBitContext) : PutBitContext :=
  if i < 256 then putBits w (ffUeGolombLen.getD i 0) (i + 1) s
  else
    let e := avLog2 (i + 1)
    putBits64 w (2 * e + 1) (i + 1) s

/-- `i ^ -1` is `-i - 1`. -/
def setSeGolomb (w : BitBuf) (i : Int) (s : PutBitContext) : PutBitContext :=
  let i := 2 * i - 1
  let i := if i < 0 then -i - 1 else i
  setUeGolomb w i.toNat s

/-- What both writers of coded bitstreams do with `value + 1`. -/
def cbsPutGolomb (w : BitBuf) (x : Nat) (s : PutBitContext) : Int × PutBitContext :=
  let len := avLog2 x
  if putBitsLeft w s < 2 * len + 1 then (averrorEnospc, s)
  else
    let s := putBits w len 0 s
    (0, if len + 1 < 32 then putBits w (len + 1) x s else putBits32 w x s)

/-- `none` is a failed assertion. -/
def cbsWriteUeGolomb (w : BitBuf) (value rangeMin rangeMax : Nat) (s : PutBitContext) :
    Option (Int × PutBitContext) :=
  if value < rangeMin ∨ value > rangeMax then some (averrorInvaliddata, s)
  else if value = uint32Max then none
  else some (cbsPutGolomb w (value + 1) s)

def cbsWriteSeGolomb (w : BitBuf) (value rangeMin rangeMax : Int) (s : PutBitContext) :
    Option (Int × PutBitContext) :=
  if value < rangeMin ∨ value > rangeMax then some (averrorInvaliddata, s)
  else if value = -2147483648 then none
  else
    let uvalue := if value = 0 then 0 else if value > 0 then 2 * value.toNat - 1 else 2 * (-value).toNat
    some (cbsPutGolomb w (uvalue + 1) s)

def ffCbsWriteUnsigned (w : BitBuf) (width value rangeMin rangeMax : Nat) (s : PutBitContext) :
    Option (Int × PutBitContext) :=
  if ¬ (width > 0 ∧ width ≤ 32) then none
  else if value < rangeMin ∨ value > rangeMax then some (averrorInvaliddata, s)
  else if putBitsLeft w s < width then some (averrorEnospc, s)
  else some (0, if width < 32 then putBits w width value s else putBits32 w value s)

def getUeGolomb (b : ReaderBuild) (s : GetBitContext) : Int × GetBitContext :=
  let buf := cache s
  if buf ≥ 2 ^ 27 then
    let i := buf >>> (32 - 9)
    (ffUeGolombVlcCode.getD i 0, skipBitsLong b (ffGolombVlcLen.getD i 0) s)
  else
    let log : Int := 2 * avLog2 buf - 31
    let s := skipBitsLong b (32 - log).toNat s
    if log < 7 then (averrorInvaliddata, s) else ((buf >>> log.toNat : Nat) - 1, s)

/-- `x - 1` of an unsigned number of 32 bits. -/
def uint32Pred (x : Nat) : Nat := if x = 0 then uint32Max else x - 1

def getUeGolombLong (b : ReaderBuild) (s : GetBitContext) : Nat × GetBitContext :=
  let buf := showBitsLong b 32 s
  let log := 31 - avLog2 buf
  let (x, s) := getBitsLong b (log + 1) (skipBitsLong b log s)
  (uint32Pred x, s)

/-- `^ sign` is the identity or the complement. -/
def getSeGolombLong (b : ReaderBuild) (s : GetBitContext) : Int × GetBitContext :=
  let (buf, s) := getUeGolombLong b s
  let half := if buf % 2 = 1 then buf >>> 1 else uint32Max - buf >>> 1
  (toInt ((half + 1 : Nat) : Int), s)

def cbsGetGolomb (b : ReaderBuild) (s : GetBitContext) : Except Int (Nat × GetBitContext) :=
  let maxLength := min (getBitsLeft s) 32
  let leadingBits := if maxLength ≠ 0 then showBitsLong b maxLength.toNat s else 0
  if leadingBits = 0 then .error averrorInvaliddata
  else
    let leadingZeroes := (maxLength - 1 - avLog2 leadingBits).toNat
    let s := skipBitsLong b leadingZeroes s
    if getBitsLeft s < leadingZeroes + 1 then .error averrorInvaliddata
    else .ok (getBitsLong b (leadingZeroes + 1) s)

def cbsReadUeGolomb (b : ReaderBuild) (rangeMin rangeMax : Nat) (s : GetBitContext) :
    Except Int (Nat × GetBitContext) :=
  (cbsGetGolomb b s).bind fun (x, s) =>
    let value := uint32Pred x
    if value < rangeMin ∨ value > rangeMax then .error averrorInvaliddata else .ok (value, s)

def cbsReadSeGolomb (b : ReaderBuild) (rangeMin rangeMax : Int) (s : GetBitContext) :
    Except Int (Int × GetBitContext) :=
  (cbsGetGolomb b s).bind fun (x, s) =>
    let value : Int := if x % 2 = 1 then -(x / 2 : Nat) else (x / 2 : Nat)
    if value < rangeMin ∨ value > rangeMax then .error averrorInvaliddata else .ok (value, s)

def ffCbsReadUnsigned (b : ReaderBuild) (width rangeMin rangeMax : Nat) (s : GetBitContext) :
    Option (Except Int (Nat × GetBitContext)) :=
  if ¬ (width > 0 ∧ width ≤ 32) then none
  else if getBitsLeft s < width then some (.error averrorInvaliddata)
  else
    let (value, s) := getBitsLong b width s
    if value < rangeMin ∨ value > rangeMax then some (.error averrorInvaliddata) else some (.ok (value, s))

def golombLength (x : Nat) : Nat := 2 * x.log2 + 1

variable {w : BitBuf} {size count value x v : Nat} {s : PutBitContext}

theorem ffUeGolombLen_table : ffUeGolombLen = (List.range 256).map fun i => golombLength (i + 1) := by decide +kernel

theorem ffUeGolombLen_eq : ∀ i < 256, ffUeGolombLen.getD i 0 = golombLength (i + 1) := by
  intro i hi
  rw [ffUeGolombLen_table]
  simp [hi]

theorem lt_golomb (x : Nat) : x < 2 ^ golombLength x :=
  Nat.lt_of_lt_of_le Nat.lt_log2_self (Nat.pow_le_pow_right (by decide) (by rw [golombLength]; omega))

theorem log2_le {n : Nat} (h : x < 2 ^ (n + 1)) : x.log2 ≤ n := by
  by_cases hx : x = 0
  · subst hx
    exact Nat.zero_le _
  · exact Nat.le_of_lt_succ ((Nat.log2_lt hx).mpr h)

theorem setUeGolomb_written (h : Written w size s count value) (hv : v ≤ 0xfffe)
    (hroom : count + golombLength (v + 1) ≤ 8 * size) :
    Written w size (setUeGolomb w v s) (count + golombLength (v + 1))
      (value * 2 ^ golombLength (v + 1) + (v + 1)) := by
  have hlog : (v + 1).log2 ≤ 15 := log2_le (by omega)
  have hput := putBits_written h (by rw [golombLength]; omega) (lt_golomb (v + 1)) hroom
  rw [setUeGolomb]
  split
  · rename_i hsmall
    rw [ffUeGolombLen_eq v hsmall]
    exact hput
  · exact hput

theorem setUeGolombLong_written (h : Written w size s count value) (hv : v < uint32Max)
    (hroom : count + golombLength (v + 1) ≤ 8 * size) :
    Written w size (setUeGolombLong w v s) (count + golombLength (v + 1))
      (value * 2 ^ golombLength (v + 1) + (v + 1)) := by
  have hlog : (v + 1).log2 ≤ 31 := log2_le (by rw [uint32Max] at hv; omega)
  have hput := putBits64_written h (by rw [golombLength]; omega) (lt_golomb (v + 1)) hroom
  rw [setUeGolombLong]
  split
  · rename_i hsmall
    have hshort : (v + 1).log2 ≤ 8 := log2_le (by omega)
    rw [ffUeGolombLen_eq v hsmall]
    exact putBits_written h (by rw [golombLength]; omega) (lt_golomb (v + 1)) hroom
  · exact hput

/-- The number that a signed value is coded as. -/
def signedCode (i : Int) : Nat := if i > 0 then 2 * i.toNat else 2 * (-i).toNat + 1

theorem setSeGolomb_eq (w : BitBuf) (i : Int) (s : PutBitContext) :
    setSeGolomb w i s = setUeGolomb w (signedCode i - 1) s := by
  rw [setSeGolomb, signedCode]
  congr 1
  split <;> split <;> omega

theorem cbsPutGolomb_written (h : Written w size s count value) (hx : 0 < x) (hx32 : x ≤ uint32Max)
    (hroom : count + golombLength x ≤ 8 * size) : ∃ t, cbsPutGolomb w x s = (0, t) ∧
      Written w size t (count + golombLength x) (value * 2 ^ golombLength x + x) := by
  have hlog : x.log2 ≤ 31 := log2_le (by rw [uint32Max] at hx32; omega)
  have hlt : x < 2 ^ (x.log2 + 1) := Nat.lt_log2_self
  rw [golombLength] at hroom ⊢
  have hzeros := putBits_written h hlog (Nat.two_pow_pos x.log2) (by omega)
  have hleft : ¬ putBitsLeft w s < 2 * avLog2 x + 1 := by
    rw [h.putBitsLeft, avLog2]
    omega
  have hcount : count + (2 * x.log2 + 1) = count + x.log2 + (x.log2 + 1) := by omega
  have hvalue : value * 2 ^ (2 * x.log2 + 1) + x = (value * 2 ^ x.log2 + 0) * 2 ^ (x.log2 + 1) + x := by
    rw [show 2 * x.log2 + 1 = x.log2 + (x.log2 + 1) by omega, Nat.pow_add]
    ring
  rw [hcount, hvalue]
  rw [cbsPutGolomb, if_neg hleft]
  refine ⟨_, rfl, ?_⟩
  by_cases hshort : avLog2 x + 1 < 32
  · rw [if_pos hshort]
    change Written w size (putBits w (x.log2 + 1) x (putBits w x.log2 0 s)) _ _
    exact putBits_written hzeros (Nat.le_of_lt_succ hshort) hlt (by omega)
  · have hfull : x.log2 + 1 = 32 := by
      rw [avLog2] at hshort
      omega
    rw [if_neg hshort, hfull]
    change Written w size (putBits32 w x (putBits w x.log2 0 s)) _ _
    exact putBits32_written hzeros (hfull ▸ hlt) (by omega)

theorem cbsPutGolomb_full (h : Written w size s count value) (hroom : ¬ count + golombLength x ≤ 8 * size) :
    cbsPutGolomb w x s = (averrorEnospc, s) := by
  rw [golombLength] at hroom
  rw [cbsPutGolomb, if_pos]
  rw [h.putBitsLeft, avLog2]
  omega

/-- The code of `x` in front of a reader. -/
def Facing (x : Nat) (s : GetBitContext) : Prop :=
  Reading s (golombLength x) ∧ Coded (bitAt s.buffer) s.index x.log2 x

def GetBitContext.behind (x : Nat) (s : GetBitContext) : GetBitContext :=
  { s with index := s.index + golombLength x }

variable {b : ReaderBuild} {g : GetBitContext}

theorem Facing.mk' (hx : 0 < x) (hreading : Reading g (golombLength x)) (hahead : g.ahead (golombLength x) = x) :
    Facing x g :=
  ⟨hreading, hahead, Nat.log2_self_le (Nat.ne_of_gt hx), Nat.lt_log2_self⟩

theorem log2_mul_two_pow_add {hi lo k : Nat} (hhi : hi ≠ 0) (hlo : lo < 2 ^ k) :
    (hi * 2 ^ k + lo).log2 = hi.log2 + k := by
  have hpos := Nat.two_pow_pos k
  have hlow := Nat.log2_self_le hhi
  have hhigh := @Nat.lt_log2_self hi
  refine (Nat.log2_eq_iff ?_).mpr ⟨?_, ?_⟩
  · exact Nat.ne_of_gt (Nat.lt_of_lt_of_le (Nat.mul_pos (Nat.pos_of_ne_zero hhi) hpos) (Nat.le_add_right _ _))
  · rw [Nat.pow_add]
    exact Nat.le_trans (Nat.mul_le_mul_right _ hlow) (Nat.le_add_right _ _)
  · calc hi * 2 ^ k + lo < hi * 2 ^ k + 2 ^ k := Nat.add_lt_add_left hlo _
      _ = (hi + 1) * 2 ^ k := (Nat.succ_mul _ _).symm
      _ ≤ 2 ^ (hi.log2 + 1) * 2 ^ k := Nat.mul_le_mul_right _ hhigh
      _ = 2 ^ (hi.log2 + k + 1) := by rw [← Nat.pow_add]; congr 1; omega

theorem Facing.zeros (h : Facing x g) (hx : x ≤ uint32Max) : (showBitsLong b 32 g).log2 = 31 - x.log2 := by
  obtain ⟨hreading, hcoded⟩ := h
  have hlog : x.log2 ≤ 31 := log2_le (by rw [uint32Max] at hx; omega)
  rw [showBitsLong, if_neg (by decide), getBitsLong, if_neg (by decide), if_neg (fun hlong => absurd hlong.2 (by decide))]
  by_cases hfast : b.fast64 = true
  · rw [if_pos hfast, Nat.sub_self, Nat.shiftRight_zero, cache32_eq]
    exact hcoded.log2 (by omega)
  rw [if_neg hfast]
  have hfirst : (getBits b 16 g).1 = g.ahead 16 := showBits_eq (by decide)
  have hrest : (getBits b 16 (getBits b 16 g).2).1 < 2 ^ 16 := by
    rw [show (getBits b 16 (getBits b 16 g).2).1 = (getBits b 16 g).2.ahead 16 from showBits_eq (by decide)]
    exact window_lt _ _ _
  have hvalue : (g.ahead 16 <<< 16 % 2 ^ 32 ||| (getBits b 16 (getBits b 16 g).2).1) =
      g.ahead 16 * 2 ^ 16 + (getBits b 16 (getBits b 16 g).2).1 := by
    have hlt := window_lt (bitAt g.buffer) g.index 16
    rw [Nat.shiftLeft_eq, Nat.mod_eq_of_lt, mul_two_pow_or hrest]
    change window (bitAt g.buffer) g.index 16 * 2 ^ 16 < 2 ^ 32
    omega
  simp only [Nat.reduceSub]
  rw [hfirst, hvalue]
  by_cases hshort : x.log2 < 16
  · have hupper : (g.ahead 16).log2 = 15 - x.log2 := hcoded.log2 hshort
    have hne : g.ahead 16 ≠ 0 := by
      have hsplit := window_add (bitAt g.buffer) g.index (x.log2 + 1) (15 - x.log2)
      rw [hcoded.marker, show x.log2 + 1 + (15 - x.log2) = 16 by omega] at hsplit
      have hpos := Nat.two_pow_pos (15 - x.log2)
      rw [GetBitContext.ahead, hsplit]
      omega
    rw [log2_mul_two_pow_add hne hrest, hupper]
    omega
  · -- the code reaches behind both fields
    have hlen : 33 ≤ golombLength x := by
      rw [golombLength]
      omega
    have hskip := @getBits_eq b g 16 (hreading.mono (by omega)) (by decide)
    have hnext : (getBits b 16 (getBits b 16 g).2).1 = window (bitAt g.buffer) (g.index + 16) 16 := by
      rw [hskip]
      exact showBits_eq (by decide)
    have hjoin := window_add (bitAt g.buffer) g.index 16 16
    rw [hnext]
    change (window (bitAt g.buffer) g.index 16 * 2 ^ 16 + _).log2 = _
    rw [← hjoin]
    exact hcoded.log2 (by omega)

theorem Facing.number (h : Facing x g) (hx : x ≤ uint32Max) :
    getBitsLong b (x.log2 + 1) (skipBitsLong b x.log2 g) = (x, g.behind x) := by
  obtain ⟨hreading, hcoded⟩ := h
  have hlog : x.log2 ≤ 31 := log2_le (by rw [uint32Max] at hx; omega)
  have hlen : golombLength x = x.log2 + (x.log2 + 1) := by
    rw [golombLength]
    omega
  rw [skipBitsLong_eq (hreading.mono (by omega)), getBitsLong_eq (Reading.skip (hlen ▸ hreading)) (by omega)]
  refine Prod.ext hcoded.number ?_
  rw [GetBitContext.behind, hlen, Nat.add_assoc]

theorem getUeGolombLong_eq (h : Facing (v + 1) g) (hv : v < uint32Max) :
    getUeGolombLong b g = (v, g.behind (v + 1)) := by
  have hlog : (v + 1).log2 ≤ 31 := log2_le (by rw [uint32Max] at hv; omega)
  have hzeros : 31 - avLog2 (showBitsLong b 32 g) = (v + 1).log2 := by
    rw [avLog2, h.zeros hv]
    omega
  simp only [getUeGolombLong, hzeros, h.number hv]
  rfl

theorem getSeGolombLong_eq {i : Int} (hlo : -32767 ≤ i) (hhi : i ≤ 32767) (h : Facing (signedCode i) g) :
    getSeGolombLong b g = (i, g.behind (signedCode i)) := by
  have hcode : signedCode i = signedCode i - 1 + 1 := by
    rw [signedCode]
    split <;> omega
  have hsmall : signedCode i - 1 < uint32Max := by
    rw [signedCode, uint32Max]
    split <;> omega
  rw [hcode] at h
  rw [getSeGolombLong, getUeGolombLong_eq h hsmall, ← hcode]
  refine Prod.ext ?_ rfl
  simp only [Nat.shiftRight_eq_div_pow, Nat.pow_one]
  rw [signedCode]
  by_cases hpos : i > 0
  · rw [if_pos hpos, if_pos (by omega), toInt]
    omega
  · rw [if_neg hpos, if_neg (by omega), toInt, uint32Max]
    omega

theorem cbsGetGolomb_eq (h : Facing x g) (hx : 0 < x) (hx32 : x ≤ uint32Max) :
    cbsGetGolomb b g = .ok (x, g.behind x) := by
  have hlog : x.log2 ≤ 31 := log2_le (by rw [uint32Max] at hx32; omega)
  have hwithin := h.1.within
  rw [golombLength] at hwithin
  have hleft : getBitsLeft g = ((g.sizeInBits - g.index : Nat) : Int) := by
    rw [getBitsLeft]
    omega
  -- the field that is looked at reaches behind the zeros
  obtain ⟨m, hm, hmpos, hm32, hmleft⟩ : ∃ m : Nat, min (getBitsLeft g) 32 = m ∧ x.log2 < m ∧ m ≤ 32 ∧
      g.index + m ≤ g.sizeInBits := by
    refine ⟨min (g.sizeInBits - g.index) 32, ?_, by omega, by omega, by omega⟩
    rw [hleft]
    omega
  have hshow : showBitsLong b m g = g.ahead m := by
    rw [showBitsLong]
    by_cases hshort : m ≤ minCacheBits
    · rw [if_pos hshort]
      exact showBits_eq hshort
    · rw [if_neg hshort, getBitsLong_eq ⟨h.1.plus8, hmleft⟩ hm32]
  have hne : g.ahead m ≠ 0 := by
    have hsplit := window_add (bitAt g.buffer) g.index (x.log2 + 1) (m - 1 - x.log2)
    rw [h.2.marker, show x.log2 + 1 + (m - 1 - x.log2) = m by omega] at hsplit
    have hpos := Nat.two_pow_pos (m - 1 - x.log2)
    rw [GetBitContext.ahead, hsplit]
    omega
  have hzeros : ((m : Int) - 1 - avLog2 (g.ahead m)).toNat = x.log2 := by
    have hlog2 : (g.ahead m).log2 = m - 1 - x.log2 := h.2.log2 hmpos
    rw [avLog2, hlog2]
    omega
  have hrest : ¬ getBitsLeft (skipBitsLong b x.log2 g) < x.log2 + 1 := by
    rw [skipBitsLong_eq (h.1.mono (by rw [golombLength]; omega)), getBitsLeft]
    simp only
    omega
  simp only [cbsGetGolomb, hm, Int.toNat_natCast, hshow]
  rw [if_pos (by omega : (m : Int) ≠ 0), if_neg hne, hzeros, if_neg hrest, h.number hx32]

theorem ffGolombVlcLen_table :
    ffGolombVlcLen.drop 16 = (List.range' 16 496).map fun i => 2 * (8 - i.log2) + 1 := by decide +kernel

theorem ffUeGolombVlcCode_table :
    (ffUeGolombVlcCode.drop 16).map (· + 1) = (List.range' 16 496).map fun i => i / 2 ^ (2 * i.log2 - 8) := by
  decide +kernel

theorem getElem?_of_drop {α : Type} {xs : List α} {i n : Nat} (h : n ≤ i) : xs[i]? = (xs.drop n)[i - n]? := by
  rw [List.getElem?_drop, Nat.add_sub_cancel' h]

theorem ffGolombVlc_eq : ∀ i < 512, 16 ≤ i → ffGolombVlcLen.getD i 0 = 2 * (8 - i.log2) + 1 ∧
    ffUeGolombVlcCode.getD i 0 + 1 = i / 2 ^ (2 * i.log2 - 8) := by
  intro i hi hlow
  have hplace : (List.range' 16 496)[i - 16]? = some i := by
    rw [List.getElem?_range' (by omega)]
    simp only [Option.some.injEq]
    omega
  constructor
  · rw [List.getD_eq_getElem?_getD, getElem?_of_drop hlow, ffGolombVlcLen_table, List.getElem?_map, hplace]
    rfl
  · have hcode := congrArg (fun l : List Nat => l[i - 16]?) ffUeGolombVlcCode_table
    simp only [List.getElem?_map, hplace, ← getElem?_of_drop hlow, Option.map_some] at hcode
    obtain ⟨code, hget, hnext⟩ := Option.map_eq_some_iff.mp hcode
    rw [List.getD_eq_getElem?_getD, hget]
    exact hnext

theorem Facing.cache (h : Facing x g) (hlog : x.log2 ≤ 12) :
    ∃ r, cache g = x * 2 ^ (31 - 2 * x.log2) + r ∧ r < 2 ^ (31 - 2 * x.log2) := by
  have hmod : g.index % 8 < 8 := Nat.mod_lt _ (by decide)
  have hsplit := window_add (bitAt g.buffer) g.index (2 * x.log2 + 1) (31 - 2 * x.log2 - g.index % 8)
  rw [h.2.code, show 2 * x.log2 + 1 + (31 - 2 * x.log2 - g.index % 8) = 32 - g.index % 8 by omega] at hsplit
  have hpow : 2 ^ (31 - 2 * x.log2) = 2 ^ (31 - 2 * x.log2 - g.index % 8) * 2 ^ (g.index % 8) := by
    rw [← Nat.pow_add]
    congr 1
    omega
  have hlow := window_lt (bitAt g.buffer) (g.index + (2 * x.log2 + 1)) (31 - 2 * x.log2 - g.index % 8)
  refine ⟨window (bitAt g.buffer) (g.index + (2 * x.log2 + 1)) (31 - 2 * x.log2 - g.index % 8) *
    2 ^ (g.index % 8), ?_, ?_⟩
  · rw [cache_eq, GetBitContext.ahead, hsplit, hpow]
    ring
  · rw [hpow]
    exact Nat.mul_lt_mul_of_pos_right hlow (Nat.two_pow_pos _)

theorem getUeGolomb_eq (h : Facing (v + 1) g) (hv : v ≤ 8190) :
    getUeGolomb b g = ((v : Int), g.behind (v + 1)) := by
  have hlog : (v + 1).log2 ≤ 12 := log2_le (by omega)
  obtain ⟨r, hcache, hr⟩ := h.cache hlog
  have hreading := h.1
  generalize hx : v + 1 = x at *
  have hxne : x ≠ 0 := by omega
  have hlog2 : (cache g).log2 = 31 - x.log2 := by
    rw [hcache, log2_mul_two_pow_add hxne hr]
    omega
  have hcne : cache g ≠ 0 := by
    intro hzero
    rw [hzero, Nat.log2_zero] at hlog2
    omega
  have htop : cache g / 2 ^ (31 - 2 * x.log2) = x := by
    rw [hcache, Nat.mul_comm, Nat.mul_add_div (Nat.two_pow_pos _), Nat.div_eq_of_lt hr, Nat.add_zero]
  have hskip : skipBitsLong b (golombLength x) g = g.behind x := skipBitsLong_eq hreading
  rw [getUeGolomb]
  by_cases htable : cache g ≥ 2 ^ 27
  · -- at most four zeros
    have hshort : x.log2 ≤ 4 := by
      have hle := (Nat.le_log2 hcne).mpr htable
      omega
    have hdiv : cache g >>> 23 / 2 ^ (8 - 2 * x.log2) = x := by
      rw [Nat.shiftRight_eq_div_pow, Nat.div_div_eq_div_mul, ← Nat.pow_add,
        show 23 + (8 - 2 * x.log2) = 31 - 2 * x.log2 by omega]
      exact htop
    have hindex : (cache g >>> 23).log2 = 8 - x.log2 := by
      have hsplit := Nat.div_add_mod' (cache g >>> 23) (2 ^ (8 - 2 * x.log2))
      rw [hdiv] at hsplit
      rw [← hsplit, log2_mul_two_pow_add hxne (Nat.mod_lt _ (Nat.two_pow_pos _))]
      omega
    have hne : cache g >>> 23 ≠ 0 := by
      intro hzero
      rw [hzero, Nat.log2_zero] at hindex
      omega
    have hlt : cache g >>> 23 < 512 := by
      have hbound := (Nat.log2_lt hne).mp (show (cache g >>> 23).log2 < 9 by omega)
      exact hbound
    have hge : 16 ≤ cache g >>> 23 := (Nat.le_log2 hne).mp (show 4 ≤ (cache g >>> 23).log2 by omega)
    obtain ⟨hlen, hcode⟩ := ffGolombVlc_eq _ hlt hge
    rw [hindex, show 2 * (8 - x.log2) - 8 = 8 - 2 * x.log2 by omega, hdiv, ← hx] at hcode
    rw [hindex, show 2 * (8 - (8 - x.log2)) + 1 = golombLength x by rw [golombLength]; omega] at hlen
    simp only [if_pos htable, Nat.reduceSub]
    rw [hlen, hskip, Nat.succ_injective hcode]
  · have hlogInt : 2 * (avLog2 (cache g) : Int) - 31 = ((31 - 2 * x.log2 : Nat) : Int) := by
      rw [avLog2, hlog2]
      omega
    have hlength : (32 - ((31 - 2 * x.log2 : Nat) : Int)).toNat = golombLength x := by
      rw [golombLength]
      omega
    simp only [if_neg htable, hlogInt, hlength, Int.toNat_natCast]
    rw [if_neg (by omega), Nat.shiftRight_eq_div_pow, htop, hskip, ← hx]
    refine Prod.ext ?_ rfl
    simp only
    omega

end P2PFFmpeg.Bits
