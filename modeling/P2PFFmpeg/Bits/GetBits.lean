import P2PFFmpeg.Library.BitField
import P2PFFmpeg.Util.BPrint
import P2PFFmpeg.Util.Error
import P2PFFmpeg.Util.Packet

/-!
The bit reader that is not cached. The buffer is read with the padding behind it. A length
that the compiler knows may be read by `get_bits` in place of the longer fields of
`get_bits_long`, with the same result.
-/

namespace P2PFFmpeg.Bits

open Library.BitField Util

/-- `HAVE_FAST_64BIT` and `UNCHECKED_BITSTREAM_READER` -/
structure ReaderBuild where
  fast64 : Bool
  unchecked : Bool

structure GetBitContext where
  buffer : List UInt8
  index : Nat
  sizeInBits : Nat
  sizeInBitsPlus8 : Nat
deriving DecidableEq

def initGetBits (buffer : List UInt8) (bitSize : Nat) : Int × GetBitContext :=
  if bitSize ≥ intMax - max 7 (64 * 8) then (averrorInvaliddata, ⟨[], 0, 0, 8⟩)
  else (0, ⟨buffer, 0, bitSize, bitSize + 8⟩)

def getBitsLeft (s : GetBitContext) : Int := s.sizeInBits - s.index

def skipBitsLong (b : ReaderBuild) (n : Nat) (s : GetBitContext) : GetBitContext :=
  { s with index := if b.unchecked then s.index + n else min s.sizeInBitsPlus8 (s.index + n) }

/-- `UPDATE_CACHE` -/
def cache (s : GetBitContext) : Nat :=
  ((avRb32 s.buffer (s.index / 8)).toNat <<< (s.index % 8)) % 2 ^ 32

/-- `UPDATE_CACHE_32` -/
def cache32 (s : GetBitContext) : Nat :=
  (((avRb64 s.buffer (s.index / 8)).toNat <<< (s.index % 8)) % 2 ^ 64) >>> 32

def showBits (n : Nat) (s : GetBitContext) : Nat := cache s >>> (32 - n)

def getBits (b : ReaderBuild) (n : Nat) (s : GetBitContext) : Nat × GetBitContext :=
  (showBits n s, skipBitsLong b n s)

def getBits1 (b : ReaderBuild) (s : GetBitContext) : Nat × GetBitContext :=
  ((((byteAt s.buffer (s.index / 8)).toNat <<< (s.index % 8)) % 256) >>> 7,
    { s with index := if b.unchecked ∨ s.index < s.sizeInBitsPlus8 then s.index + 1 else s.index })

def minCacheBits : Nat := 25

def getBitsLong (b : ReaderBuild) (n : Nat) (s : GetBitContext) : Nat × GetBitContext :=
  if n = 0 then (0, s)
  else if b.fast64 = false ∧ n ≤ minCacheBits then getBits b n s
  else if b.fast64 then (cache32 s >>> (32 - n), skipBitsLong b n s)
  else
    let (ret, s) := getBits b 16 s
    let (rest, s) := getBits b (n - 16) s
    (ret <<< (n - 16) % 2 ^ 32 ||| rest, s)

def getBits64 (b : ReaderBuild) (n : Nat) (s : GetBitContext) : Nat × GetBitContext :=
  if n ≤ 32 then getBitsLong b n s
  else
    let (ret, s) := getBitsLong b (n - 32) s
    let (rest, s) := getBitsLong b 32 s
    (ret <<< 32 ||| rest, s)

def showBitsLong (b : ReaderBuild) (n : Nat) (s : GetBitContext) : Nat :=
  if n ≤ minCacheBits then showBits n s else (getBitsLong b n s).1

def bitAt (buf : List UInt8) (i : Nat) : Bool := (byteAt buf (i / 8)).toNat.testBit (7 - i % 8)

def GetBitContext.ahead (s : GetBitContext) (n : Nat) : Nat := window (bitAt s.buffer) s.index n

structure Reading (s : GetBitContext) (n : Nat) : Prop where
  plus8 : s.sizeInBitsPlus8 = s.sizeInBits + 8
  within : s.index + n ≤ s.sizeInBits

variable {b : ReaderBuild} {s : GetBitContext} {n m : Nat}

theorem Reading.mono (h : Reading s n) (hm : m ≤ n) : Reading s m :=
  ⟨h.plus8, Nat.le_trans (Nat.add_le_add_left hm _) h.within⟩

theorem Reading.skip (h : Reading s (n + m)) : Reading { s with index := s.index + n } m :=
  ⟨h.plus8, by simp only [Nat.add_assoc]; exact h.within⟩

theorem window_byte (buf : List UInt8) (k : Nat) : window (bitAt buf) (8 * k) 8 = (byteAt buf k).toNat := by
  have hbit : ∀ j < 8, bitAt buf (8 * k + j) = (byteAt buf k).toNat.testBit (7 - j) := by
    intro j hj
    rw [bitAt, show (8 * k + j) / 8 = k by omega, show (8 * k + j) % 8 = j by omega]
  simp only [window]
  rw [hbit 0 (by decide), hbit 1 (by decide), hbit 2 (by decide), hbit 3 (by decide), hbit 4 (by decide),
    hbit 5 (by decide), hbit 6 (by decide), hbit 7 (by decide)]
  have hlt := (byteAt buf k).toNat_lt
  generalize (byteAt buf k).toNat = v at hlt ⊢
  revert v
  decide +kernel

theorem window_rb32 (buf : List UInt8) (k : Nat) : window (bitAt buf) (8 * k) 32 = (avRb32 buf k).toNat := by
  have hword : (avRb32 buf k).toNat = (((byteAt buf k).toNat * 256 + (byteAt buf (k + 1)).toNat) * 256 +
      (byteAt buf (k + 2)).toNat) * 256 + (byteAt buf (k + 3)).toNat := by
    have h₀ := (byteAt buf k).toNat_lt
    have h₁ := (byteAt buf (k + 1)).toNat_lt
    have h₂ := (byteAt buf (k + 2)).toNat_lt
    have h₃ := (byteAt buf (k + 3)).toNat_lt
    rw [avRb32, avRb16, avRb16, show k + 2 + 1 = k + 3 from rfl]
    simp only [UInt32.toNat_add, UInt32.toNat_mul, UInt16.toNat_toUInt32, UInt16.toNat_add,
      UInt16.toNat_mul, UInt8.toNat_toUInt16, UInt32.reduceToNat, UInt16.reduceToNat]
    omega
  rw [show (32 : Nat) = 8 + 8 + 8 + 8 from rfl, window_add, window_add, window_add, window_byte,
    show 8 * k + 8 = 8 * (k + 1) by ring, window_byte, show 8 * k + (8 + 8) = 8 * (k + 2) by ring,
    window_byte, show 8 * k + (8 + 8 + 8) = 8 * (k + 3) by ring, window_byte, hword]
  simp only [Nat.reducePow]

theorem window_rb64 (buf : List UInt8) (k : Nat) : window (bitAt buf) (8 * k) 64 = (avRb64 buf k).toNat := by
  rw [show (64 : Nat) = 32 + 32 from rfl, window_add, window_rb32,
    show 8 * k + 32 = 8 * (k + 4) by ring, window_rb32]
  have h₀ := (avRb32 buf k).toNat_lt
  have h₁ := (avRb32 buf (k + 4)).toNat_lt
  simp only [avRb64, UInt64.toNat_add, UInt64.toNat_mul, UInt32.toNat_toUInt64, UInt64.reduceToNat]
  omega

theorem window_shift (bit : Nat → Bool) (i size shift : Nat) (h : shift ≤ size) :
    (window bit i size <<< shift) % 2 ^ size = window bit (i + shift) (size - shift) * 2 ^ shift := by
  have hsplit : 2 ^ size = 2 ^ (size - shift) * 2 ^ shift := by
    rw [← Nat.pow_add, Nat.sub_add_cancel h]
  have hmod := window_mod bit i shift (size - shift)
  rw [Nat.add_sub_cancel' h] at hmod
  rw [Nat.shiftLeft_eq, hsplit, Nat.mul_mod_mul_right, hmod]

theorem cache_eq (s : GetBitContext) : cache s = s.ahead (32 - s.index % 8) * 2 ^ (s.index % 8) := by
  have hindex : 8 * (s.index / 8) + s.index % 8 = s.index := Nat.div_add_mod s.index 8
  rw [cache, ← window_rb32, window_shift _ _ _ _ (by omega), hindex]
  rfl

theorem showBits_eq (hn : n ≤ 25) : showBits n s = s.ahead n := by
  have hmod : s.index % 8 < 8 := Nat.mod_lt _ (by decide)
  rw [showBits, cache_eq, Nat.shiftRight_eq_div_pow,
    show 32 - n = 32 - s.index % 8 - n + s.index % 8 by omega, Nat.pow_add,
    Nat.mul_div_mul_right _ _ (Nat.two_pow_pos _)]
  have hdiv := window_div (bitAt s.buffer) s.index n (32 - s.index % 8 - n)
  rw [show n + (32 - s.index % 8 - n) = 32 - s.index % 8 by omega] at hdiv
  exact hdiv

theorem cache32_eq (s : GetBitContext) : cache32 s = s.ahead 32 := by
  have hmod : s.index % 8 < 8 := Nat.mod_lt _ (by decide)
  have hindex : 8 * (s.index / 8) + s.index % 8 = s.index := Nat.div_add_mod s.index 8
  have hdiv := window_div (bitAt s.buffer) s.index 32 (32 - s.index % 8)
  rw [cache32, ← window_rb64, window_shift _ _ _ _ (by omega), hindex, Nat.shiftRight_eq_div_pow,
    show 2 ^ 32 = 2 ^ (32 - s.index % 8) * 2 ^ (s.index % 8) by rw [← Nat.pow_add]; congr 1; omega,
    Nat.mul_div_mul_right _ _ (Nat.two_pow_pos _)]
  rw [show 32 + (32 - s.index % 8) = 64 - s.index % 8 by omega] at hdiv
  exact hdiv

theorem skipBitsLong_eq (h : Reading s n) : skipBitsLong b n s = { s with index := s.index + n } := by
  have hwithin := h.within
  rw [skipBitsLong, h.plus8]
  split
  · rfl
  · rw [Nat.min_eq_right (by omega)]

theorem getBits_eq (h : Reading s n) (hn : n ≤ 25) :
    getBits b n s = (s.ahead n, { s with index := s.index + n }) := by
  rw [getBits, showBits_eq hn, skipBitsLong_eq h]

theorem getBits1_eq (h : Reading s 1) : getBits1 b s = (s.ahead 1, { s with index := s.index + 1 }) := by
  have hmod : s.index % 8 < 8 := Nat.mod_lt _ (by decide)
  have hindex : 8 * (s.index / 8) + s.index % 8 = s.index := Nat.div_add_mod s.index 8
  have hwithin := h.within
  have hbit : (((byteAt s.buffer (s.index / 8)).toNat <<< (s.index % 8)) % 256) >>> 7 = s.ahead 1 := by
    have hdiv := window_div (bitAt s.buffer) s.index 1 (7 - s.index % 8)
    rw [← window_byte, show (256 : Nat) = 2 ^ 8 from rfl, window_shift _ _ _ _ (by omega), hindex,
      Nat.shiftRight_eq_div_pow,
      show 2 ^ 7 = 2 ^ (7 - s.index % 8) * 2 ^ (s.index % 8) by rw [← Nat.pow_add]; congr 1; omega,
      Nat.mul_div_mul_right _ _ (Nat.two_pow_pos _)]
    rw [show 1 + (7 - s.index % 8) = 8 - s.index % 8 by omega] at hdiv
    exact hdiv
  rw [getBits1, hbit, if_pos (.inr (by rw [h.plus8]; omega))]

theorem getBitsLong_eq (h : Reading s n) (hn : n ≤ 32) :
    getBitsLong b n s = (s.ahead n, { s with index := s.index + n }) := by
  rw [getBitsLong]
  by_cases hzero : n = 0
  · subst hzero
    rw [if_pos rfl]
    rfl
  rw [if_neg hzero]
  by_cases hshort : b.fast64 = false ∧ n ≤ minCacheBits
  · rw [if_pos hshort]
    exact getBits_eq h hshort.2
  rw [if_neg hshort]
  by_cases hfast : b.fast64 = true
  · have hdiv := window_div (bitAt s.buffer) s.index n (32 - n)
    rw [Nat.add_sub_cancel' hn] at hdiv
    rw [if_pos hfast, cache32_eq, skipBitsLong_eq h, Nat.shiftRight_eq_div_pow]
    exact congrArg (·, _) hdiv
  · -- two fields
    have hlong : 25 < n := by
      refine Nat.lt_of_not_le fun hle => hshort ⟨?_, hle⟩
      simpa using hfast
    have hsplit := window_add (bitAt s.buffer) s.index 16 (n - 16)
    rw [Nat.add_sub_cancel' (by omega)] at hsplit
    have hrest : Reading { s with index := s.index + 16 } (n - 16) :=
      Reading.skip (by rw [Nat.add_sub_cancel' (by omega)]; exact h)
    have hlow := window_lt (bitAt s.buffer) (s.index + 16) (n - 16)
    have hhigh : window (bitAt s.buffer) s.index 16 <<< (n - 16) < 2 ^ 32 := by
      rw [Nat.shiftLeft_eq]
      calc window (bitAt s.buffer) s.index 16 * 2 ^ (n - 16)
          < 2 ^ 16 * 2 ^ (n - 16) := Nat.mul_lt_mul_of_pos_right (window_lt _ _ _) (Nat.two_pow_pos _)
        _ = 2 ^ n := by rw [← Nat.pow_add, Nat.add_sub_cancel' (by omega)]
        _ ≤ 2 ^ 32 := Nat.pow_le_pow_right (by decide) hn
    rw [if_neg hfast, getBits_eq (h.mono (by omega)) (by decide)]
    simp only [getBits_eq hrest (by omega)]
    refine Prod.ext ?_ ?_
    · change window (bitAt s.buffer) s.index 16 <<< (n - 16) % 2 ^ 32 |||
        window (bitAt s.buffer) (s.index + 16) (n - 16) = window (bitAt s.buffer) s.index n
      rw [Nat.mod_eq_of_lt hhigh, Nat.shiftLeft_eq, Nat.mul_comm, ← Nat.two_pow_add_eq_or_of_lt hlow, hsplit,
        Nat.mul_comm]
    · simp only
      congr 1
      omega

theorem getBits64_eq (h : Reading s n) (hn : n ≤ 64) :
    getBits64 b n s = (s.ahead n, { s with index := s.index + n }) := by
  rw [getBits64]
  by_cases hshort : n ≤ 32
  · rw [if_pos hshort]
    exact getBitsLong_eq h hshort
  · have hsplit := window_add (bitAt s.buffer) s.index (n - 32) 32
    rw [Nat.sub_add_cancel (by omega)] at hsplit
    have hrest : Reading { s with index := s.index + (n - 32) } 32 :=
      Reading.skip (by rw [Nat.sub_add_cancel (by omega)]; exact h)
    have hlow := window_lt (bitAt s.buffer) (s.index + (n - 32)) 32
    rw [if_neg hshort, getBitsLong_eq (h.mono (by omega)) (by omega)]
    simp only [getBitsLong_eq hrest (Nat.le_refl _)]
    refine Prod.ext ?_ ?_
    · change window (bitAt s.buffer) s.index (n - 32) <<< 32 |||
        window (bitAt s.buffer) (s.index + (n - 32)) 32 = window (bitAt s.buffer) s.index n
      rw [Nat.shiftLeft_eq, Nat.mul_comm, ← Nat.two_pow_add_eq_or_of_lt hlow, hsplit, Nat.mul_comm]
    · simp only
      congr 1
      omega

end P2PFFmpeg.Bits
