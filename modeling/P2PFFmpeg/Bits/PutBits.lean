import P2PFFmpeg.Library.ByteFile
import P2PFFmpeg.Payload.AccessUnit
import P2PFFmpeg.Util.BPrint

/-!
The bit writer. The bits that are not yet in the buffer are the lowest ones of a machine
word; what is above them is left from earlier fields.
-/

namespace P2PFFmpeg.Bits

open Library.ByteFile Payload Util

inductive BitBuf
  | uint32
  | uint64

/-- `BUF_BITS` -/
def BitBuf.bits : BitBuf → Nat
  | .uint32 => 32
  | .uint64 => 64

/-- `buf` is the whole buffer, up to `buf_end`. -/
structure PutBitContext where
  bitBuf : Nat
  bitLeft : Nat
  buf : List UInt8
  bufPtr : Nat
deriving DecidableEq

def initPutBits (w : BitBuf) (buffer : List UInt8) : PutBitContext := ⟨0, w.bits, buffer, 0⟩

/-- The conversion to `int`. -/
def toInt (x : Int) : Int := (x + 2147483648) % 4294967296 - 2147483648

def putBitsCount (w : BitBuf) (s : PutBitContext) : Int := toInt (s.bufPtr * 8 + w.bits - s.bitLeft)

def putBitsLeft (w : BitBuf) (s : PutBitContext) : Int :=
  toInt (((s.buf.length : Int) - s.bufPtr) * 8 - w.bits + s.bitLeft)

/-- `AV_WBBUF` where there is room; otherwise the word is lost. -/
def PutBitContext.store (w : BitBuf) (word : Nat) (s : PutBitContext) : PutBitContext :=
  if s.buf.length - s.bufPtr ≥ w.bits / 8 then
    { s with
      buf := pwrite s.buf s.bufPtr (beBytes (w.bits / 8) word)
      bufPtr := s.bufPtr + w.bits / 8 }
  else s

def putBitsNoAssert (w : BitBuf) (n value : Nat) (s : PutBitContext) : PutBitContext :=
  if n < s.bitLeft then
    { s with bitBuf := (s.bitBuf <<< n) % 2 ^ w.bits ||| value, bitLeft := s.bitLeft - n }
  else
    let word := (s.bitBuf <<< s.bitLeft) % 2 ^ w.bits ||| value >>> (n - s.bitLeft)
    { s.store w word with bitLeft := s.bitLeft + (w.bits - n), bitBuf := value }

def putBits (w : BitBuf) (n value : Nat) (s : PutBitContext) : PutBitContext := putBitsNoAssert w n value s

def putBits32 (w : BitBuf) (value : Nat) (s : PutBitContext) : PutBitContext :=
  if w.bits > 32 then putBitsNoAssert w 32 value s
  else
    let word := (s.bitBuf <<< s.bitLeft) % 2 ^ w.bits ||| value >>> (w.bits - s.bitLeft)
    { s.store w word with bitBuf := value }

def putBits64 (w : BitBuf) (n value : Nat) (s : PutBitContext) : PutBitContext :=
  let lo := value % 2 ^ 32
  let hi := value >>> 32
  if n < 32 then putBits w n value s
  else if n = 32 then putBits32 w value s
  else if n < 64 then putBits32 w lo (putBits w (n - 32) hi s)
  else putBits32 w lo (putBits32 w hi s)

/-- The loop of `flush_put_bits`; `none` is a failed assertion. -/
def flushBytes (w : BitBuf) : Nat → PutBitContext → Option PutBitContext
  | 0, _ => none
  | fuel + 1, s =>
      if s.bitLeft < w.bits then
        if s.bufPtr < s.buf.length then
          flushBytes w fuel {
            bitBuf := (s.bitBuf <<< 8) % 2 ^ w.bits
            bitLeft := s.bitLeft + 8
            buf := pwrite s.buf s.bufPtr [UInt8.ofNat (s.bitBuf >>> (w.bits - 8))]
            bufPtr := s.bufPtr + 1 }
        else none
      else some s

def flushPutBits (w : BitBuf) (s : PutBitContext) : Option PutBitContext :=
  let s := if s.bitLeft < w.bits then { s with bitBuf := (s.bitBuf <<< s.bitLeft) % 2 ^ w.bits } else s
  (flushBytes w (w.bits / 8 + 1) s).map fun s => { s with bitLeft := w.bits, bitBuf := 0 }

/-- The first `count` bits of a buffer of `size` bytes are those of the number `value`. All
counts of bits are an `int`. -/
structure Written (w : BitBuf) (size : Nat) (s : PutBitContext) (count value : Nat) : Prop where
  leftPos : 1 ≤ s.bitLeft
  leftLe : s.bitLeft ≤ w.bits
  countEq : count = 8 * s.bufPtr + (w.bits - s.bitLeft)
  valueEq : value = bigEndian (s.buf.take s.bufPtr) * 2 ^ (w.bits - s.bitLeft) +
    s.bitBuf % 2 ^ (w.bits - s.bitLeft)
  sizeEq : s.buf.length = size
  room : count ≤ 8 * size
  small : 8 * size ≤ intMax

variable {w : BitBuf} {size count value n v : Nat} {s t : PutBitContext}

theorem BitBuf.bits_eq (w : BitBuf) : w.bits / 8 * 8 = w.bits := by cases w <;> rfl

theorem BitBuf.two_pow (w : BitBuf) : 256 ^ (w.bits / 8) = 2 ^ w.bits := by cases w <;> rfl

theorem toInt_eq {x : Int} (hlo : -2147483648 ≤ x) (hhi : x < 2147483648) : toInt x = x := by
  rw [toInt]
  omega

theorem initPutBits_written (w : BitBuf) {buffer : List UInt8} (hsmall : 8 * buffer.length ≤ intMax) :
    Written w buffer.length (initPutBits w buffer) 0 0 where
  leftPos := by cases w <;> simp [initPutBits, BitBuf.bits]
  leftLe := Nat.le_refl _
  countEq := by simp [initPutBits]
  valueEq := by simp [initPutBits, bigEndian, Nat.mod_one]
  sizeEq := rfl
  room := Nat.zero_le _
  small := hsmall

theorem Written.putBitsCount (h : Written w size s count value) : putBitsCount w s = count := by
  obtain ⟨-, hleft, hcount, -, -, hroom, hsmall⟩ := h
  rw [intMax] at hsmall
  rw [Bits.putBitsCount, toInt_eq] <;> omega

theorem Written.putBitsLeft (h : Written w size s count value) : putBitsLeft w s = 8 * size - count := by
  obtain ⟨-, hleft, hcount, -, hsize, hroom, hsmall⟩ := h
  rw [intMax] at hsmall
  rw [Bits.putBitsLeft, toInt_eq] <;> omega

theorem shiftLeft_mod {a p l b : Nat} (h : p + l = b) : (a <<< l) % 2 ^ b = (a % 2 ^ p) * 2 ^ l := by
  rw [Nat.shiftLeft_eq, ← h, Nat.pow_add, Nat.mul_mod_mul_right]

theorem mul_two_pow_or {a x l : Nat} (h : x < 2 ^ l) : a * 2 ^ l ||| x = a * 2 ^ l + x := by
  rw [Nat.mul_comm, Nat.two_pow_add_eq_or_of_lt h]

theorem store_spec {word : Nat} (hroom : 8 * s.bufPtr + w.bits ≤ 8 * s.buf.length)
    (hword : word < 2 ^ w.bits) : ((s.store w word).buf).length = s.buf.length ∧
      (s.store w word).bufPtr = s.bufPtr + w.bits / 8 ∧
      bigEndian ((s.store w word).buf.take (s.store w word).bufPtr) =
        bigEndian (s.buf.take s.bufPtr) * 2 ^ w.bits + word := by
  have hbits := w.bits_eq
  have hlen := length_beBytes (w.bits / 8) word
  rw [PutBitContext.store, if_pos (by omega)]
  refine ⟨?_, rfl, ?_⟩
  · simp only
    rw [length_pwrite (by omega), hlen]
    omega
  · have htake := @take_pwrite_end _ _ s.buf (beBytes (w.bits / 8) word) s.bufPtr (by omega)
    rw [hlen] at htake
    simp only
    rw [htake, bigEndian_append, hlen, w.two_pow, bigEndian_beBytes (w.two_pow ▸ hword)]

theorem putBitsNoAssert_written (h : Written w size s count value) (hn : n ≤ w.bits) (hv : v < 2 ^ n)
    (hroom : count + n ≤ 8 * size) :
    Written w size (putBitsNoAssert w n v s) (count + n) (value * 2 ^ n + v) := by
  obtain ⟨hpos, hle, hcount, hvalue, hsize, -, hlimit⟩ := h
  rw [putBitsNoAssert]
  by_cases hfits : n < s.bitLeft
  · rw [if_pos hfits]
    refine ⟨?_, ?_, ?_, ?_, hsize, hroom, hlimit⟩
    · simp only
      omega
    · simp only
      omega
    · simp only
      omega
    · have hshift := @shiftLeft_mod s.bitBuf (w.bits - n) n w.bits (by omega)
      have hpending : w.bits - (s.bitLeft - n) = w.bits - s.bitLeft + n := by omega
      have hlow : (s.bitBuf % 2 ^ (w.bits - n) * 2 ^ n + v) % 2 ^ (w.bits - s.bitLeft + n) =
          s.bitBuf % 2 ^ (w.bits - s.bitLeft) * 2 ^ n + v := by
        have hsmall : s.bitBuf % 2 ^ (w.bits - s.bitLeft) * 2 ^ n + v < 2 ^ (w.bits - s.bitLeft + n) := by
          have hlt := Nat.mod_lt s.bitBuf (Nat.two_pow_pos (w.bits - s.bitLeft))
          calc s.bitBuf % 2 ^ (w.bits - s.bitLeft) * 2 ^ n + v
              < s.bitBuf % 2 ^ (w.bits - s.bitLeft) * 2 ^ n + 2 ^ n := Nat.add_lt_add_left hv _
            _ = (s.bitBuf % 2 ^ (w.bits - s.bitLeft) + 1) * 2 ^ n := (Nat.succ_mul _ _).symm
            _ ≤ 2 ^ (w.bits - s.bitLeft) * 2 ^ n := Nat.mul_le_mul_right _ hlt
            _ = 2 ^ (w.bits - s.bitLeft + n) := (Nat.pow_add _ _ _).symm
        have hdvd : 2 ^ (w.bits - s.bitLeft) ∣ 2 ^ (w.bits - n) := Nat.pow_dvd_pow 2 (by omega)
        rw [Nat.add_mod, Nat.pow_add, Nat.mul_mod_mul_right, Nat.mod_mod_of_dvd _ hdvd, ← Nat.pow_add,
          Nat.mod_eq_of_lt (Nat.lt_of_lt_of_le hv (Nat.pow_le_pow_right (by decide) (by omega))),
          Nat.mod_eq_of_lt hsmall]
      simp only
      rw [hshift, mul_two_pow_or hv, hpending, hlow, hvalue, Nat.pow_add]
      ring
  · rw [if_neg hfits]
    have hword : (s.bitBuf <<< s.bitLeft) % 2 ^ w.bits ||| v >>> (n - s.bitLeft) =
        s.bitBuf % 2 ^ (w.bits - s.bitLeft) * 2 ^ s.bitLeft + v / 2 ^ (n - s.bitLeft) := by
      rw [shiftLeft_mod (by omega : w.bits - s.bitLeft + s.bitLeft = w.bits), Nat.shiftRight_eq_div_pow,
        mul_two_pow_or]
      refine Nat.div_lt_of_lt_mul ?_
      rw [← Nat.pow_add, Nat.sub_add_cancel (Nat.not_lt.mp hfits)]
      exact hv
    have hsmall : s.bitBuf % 2 ^ (w.bits - s.bitLeft) * 2 ^ s.bitLeft + v / 2 ^ (n - s.bitLeft) <
        2 ^ w.bits := by
      rw [← hword]
      refine Nat.or_lt_two_pow (Nat.mod_lt _ (Nat.two_pow_pos _)) ?_
      rw [Nat.shiftRight_eq_div_pow]
      exact Nat.lt_of_le_of_lt (Nat.div_le_self _ _)
        (Nat.lt_of_lt_of_le hv (Nat.pow_le_pow_right (by decide) hn))
    obtain ⟨hlen, hptr, hbytes⟩ := @store_spec w s _ (by omega) hsmall
    simp only [hword]
    generalize s.store w _ = t at hlen hptr hbytes
    have hbits := w.bits_eq
    refine ⟨?_, ?_, ?_, ?_, hlen.trans hsize, hroom, hlimit⟩
    · simp only
      omega
    · simp only
      omega
    · simp only [hptr]
      omega
    · simp only [hbytes]
      rw [hvalue, show w.bits - (s.bitLeft + (w.bits - n)) = n - s.bitLeft by omega]
      have hdiv := Nat.div_add_mod v (2 ^ (n - s.bitLeft))
      have hn' : 2 ^ n = 2 ^ s.bitLeft * 2 ^ (n - s.bitLeft) := by
        rw [← Nat.pow_add, Nat.add_sub_cancel' (Nat.not_lt.mp hfits)]
      have hb' : 2 ^ w.bits = 2 ^ (w.bits - s.bitLeft) * 2 ^ s.bitLeft := by
        rw [← Nat.pow_add, Nat.sub_add_cancel hle]
      rw [hn', hb']
      generalize v % 2 ^ (n - s.bitLeft) = lo at hdiv ⊢
      generalize v / 2 ^ (n - s.bitLeft) = hi at hdiv ⊢
      rw [← hdiv]
      ring

theorem putBits_written (h : Written w size s count value) (hn : n ≤ 31) (hv : v < 2 ^ n)
    (hroom : count + n ≤ 8 * size) : Written w size (putBits w n v s) (count + n) (value * 2 ^ n + v) := by
  refine putBitsNoAssert_written h ?_ hv hroom
  cases w
  · exact Nat.le_succ_of_le hn
  · exact Nat.le_trans hn (by decide)

theorem putBits32_written (h : Written w size s count value) (hv : v < 2 ^ 32)
    (hroom : count + 32 ≤ 8 * size) : Written w size (putBits32 w v s) (count + 32) (value * 2 ^ 32 + v) := by
  have hwhole : putBits32 w v s = putBitsNoAssert w 32 v s := by
    rw [putBits32]
    split
    · rfl
    · -- the word has 32 bits, and the field always fills it
      rename_i hshort
      have hbits : w.bits = 32 := by
        cases w
        · rfl
        · exact absurd (by decide) hshort
      have hleft := h.leftLe
      rw [putBitsNoAssert, if_neg (by omega)]
      simp only [hbits, Nat.sub_self, Nat.add_zero]
      rw [PutBitContext.store]
      split <;> rfl
  rw [hwhole]
  exact putBitsNoAssert_written h (by cases w <;> decide) hv hroom

theorem putBits64_written (h : Written w size s count value) (hn : n ≤ 64) (hv : v < 2 ^ n)
    (hroom : count + n ≤ 8 * size) : Written w size (putBits64 w n v s) (count + n) (value * 2 ^ n + v) := by
  have hlo : v % 2 ^ 32 < 2 ^ 32 := Nat.mod_lt _ (by decide)
  have hhi : v >>> 32 = v / 2 ^ 32 := Nat.shiftRight_eq_div_pow v 32
  have hsplit := Nat.div_add_mod v (2 ^ 32)
  rw [putBits64]
  by_cases hshort : n < 32
  · rw [if_pos hshort]
    exact putBits_written h (Nat.le_of_lt_succ hshort) hv hroom
  rw [if_neg hshort]
  by_cases hword : n = 32
  · subst hword
    rw [if_pos rfl]
    exact putBits32_written h hv hroom
  rw [if_neg hword]
  -- two fields, the upper one first
  have htwo : ∀ m t, n = m + 32 → Written w size t (count + m) (value * 2 ^ m + v / 2 ^ 32) →
      Written w size (putBits32 w (v % 2 ^ 32) t) (count + n) (value * 2 ^ n + v) := by
    rintro m t rfl ht
    have hboth := putBits32_written ht hlo (by omega)
    have hvalue : (value * 2 ^ m + v / 2 ^ 32) * 2 ^ 32 + v % 2 ^ 32 = value * 2 ^ (m + 32) + v := by
      generalize v / 2 ^ 32 = hi at hsplit ⊢
      generalize v % 2 ^ 32 = lo at hsplit ⊢
      rw [← hsplit, Nat.pow_add]
      ring
    rwa [hvalue, Nat.add_assoc] at hboth
  have hupper : ∀ m, n = m + 32 → v / 2 ^ 32 < 2 ^ m := by
    rintro m rfl
    refine Nat.div_lt_of_lt_mul ?_
    rwa [← Nat.pow_add, Nat.add_comm]
  rw [hhi]
  by_cases hlong : n < 64
  · rw [if_pos hlong]
    exact htwo _ _ (by omega) (putBits_written h (by omega) (hupper _ (by omega)) (by omega))
  · rw [if_neg hlong]
    exact htwo 32 _ (by omega) (putBits32_written h (hupper 32 (by omega)) (by omega))

theorem flushBytes_spec (fuel : Nat) (s : PutBitContext) (hfuel : (w.bits - s.bitLeft + 7) / 8 < fuel)
    (hbuf : s.bitBuf < 2 ^ w.bits) (hroom : 8 * s.bufPtr + (w.bits - s.bitLeft) ≤ 8 * s.buf.length) :
    ∃ t, flushBytes w fuel s = some t ∧ t.buf.length = s.buf.length ∧ t.bitBuf < 2 ^ w.bits ∧
      t.bufPtr = s.bufPtr + (w.bits - s.bitLeft + 7) / 8 ∧
      bigEndian (t.buf.take t.bufPtr) * 2 ^ w.bits + t.bitBuf =
        (bigEndian (s.buf.take s.bufPtr) * 2 ^ w.bits + s.bitBuf) *
          256 ^ ((w.bits - s.bitLeft + 7) / 8) := by
  induction fuel generalizing s with
  | zero => exact absurd hfuel (Nat.not_lt_zero _)
  | succ fuel ih =>
      rw [flushBytes]
      by_cases hmore : s.bitLeft < w.bits
      · have hsplit : 2 ^ w.bits = 2 ^ (w.bits - 8) * 256 := by cases w <;> rfl
        have hbyte : (UInt8.ofNat (s.bitBuf >>> (w.bits - 8))).toNat = s.bitBuf / 2 ^ (w.bits - 8) := by
          rw [Nat.shiftRight_eq_div_pow]
          exact Nat.mod_eq_of_lt (Nat.div_lt_of_lt_mul (hsplit ▸ hbuf))
        have hrest : (s.bitBuf <<< 8) % 2 ^ w.bits = s.bitBuf % 2 ^ (w.bits - 8) * 256 := by
          rw [Nat.shiftLeft_eq, hsplit]
          exact Nat.mul_mod_mul_right _ _ _
        have htake := @take_pwrite_end _ _ s.buf [UInt8.ofNat (s.bitBuf >>> (w.bits - 8))] s.bufPtr
          (by omega)
        rw [List.length_singleton] at htake
        have hlen := @length_pwrite _ _ s.buf [UInt8.ofNat (s.bitBuf >>> (w.bits - 8))] s.bufPtr (by omega)
        rw [List.length_singleton, Nat.max_eq_left (by omega)] at hlen
        rw [if_pos hmore, if_pos (by omega)]
        obtain ⟨t, hflush, htlen, htbuf, htptr, htvalue⟩ := ih { s with
          bitBuf := (s.bitBuf <<< 8) % 2 ^ w.bits
          bitLeft := s.bitLeft + 8
          buf := pwrite s.buf s.bufPtr [UInt8.ofNat (s.bitBuf >>> (w.bits - 8))]
          bufPtr := s.bufPtr + 1 } (by simp only; omega) (Nat.mod_lt _ (Nat.two_pow_pos _))
          (by simp only [hlen]; omega)
        refine ⟨t, hflush, htlen.trans hlen, htbuf, ?_, ?_⟩
        · rw [htptr]
          simp only
          omega
        · have hcount : (w.bits - s.bitLeft + 7) / 8 = (w.bits - (s.bitLeft + 8) + 7) / 8 + 1 := by omega
          simp only [htake, hrest] at htvalue
          rw [htvalue, hcount, Nat.pow_succ, bigEndian_append, List.length_singleton, Nat.pow_one,
            show bigEndian [UInt8.ofNat (s.bitBuf >>> (w.bits - 8))] = s.bitBuf / 2 ^ (w.bits - 8) from
              (Nat.zero_add _).trans hbyte, hsplit]
          have hdiv := Nat.div_add_mod s.bitBuf (2 ^ (w.bits - 8))
          generalize s.bitBuf % 2 ^ (w.bits - 8) = lo at hdiv ⊢
          generalize s.bitBuf / 2 ^ (w.bits - 8) = hi at hdiv ⊢
          rw [← hdiv]
          ring
      · rw [if_neg hmore]
        refine ⟨s, rfl, rfl, hbuf, ?_, ?_⟩
        · omega
        · rw [show (w.bits - s.bitLeft + 7) / 8 = 0 by omega, Nat.pow_zero, Nat.mul_one]

/-- After a flush the first bytes of the buffer are the bits that were written, with zeros
up to the end of the last byte. -/
theorem flushPutBits_spec (h : Written w size s count value) :
    ∃ t, flushPutBits w s = some t ∧ t.buf.length = size ∧ t.bufPtr = (count + 7) / 8 ∧
      bigEndian (t.buf.take t.bufPtr) = value * 2 ^ (8 * ((count + 7) / 8) - count) := by
  obtain ⟨hpos, hle, hcount, hvalue, hsize, hroom, -⟩ := h
  have hbits := w.bits_eq
  have hshift := @shiftLeft_mod s.bitBuf (w.bits - s.bitLeft) s.bitLeft w.bits (by omega)
  have hstart : (if s.bitLeft < w.bits then { s with bitBuf := (s.bitBuf <<< s.bitLeft) % 2 ^ w.bits }
      else s) = s ∧ s.bitLeft = w.bits ∨ (if s.bitLeft < w.bits then
      { s with bitBuf := (s.bitBuf <<< s.bitLeft) % 2 ^ w.bits } else s) =
      { s with bitBuf := s.bitBuf % 2 ^ (w.bits - s.bitLeft) * 2 ^ s.bitLeft } ∧ s.bitLeft < w.bits := by
    split
    · rename_i hlt
      exact .inr ⟨by rw [hshift], hlt⟩
    · exact .inl ⟨rfl, by omega⟩
  rw [flushPutBits]
  obtain ⟨hstart, hall⟩ | ⟨hstart, hlt⟩ := hstart
  · -- the word is empty
    rw [hstart, flushBytes, if_neg (by omega)]
    rw [hall, Nat.sub_self, Nat.add_zero] at hcount
    rw [hall, Nat.sub_self, Nat.pow_zero, Nat.mul_one, Nat.mod_one, Nat.add_zero] at hvalue
    refine ⟨_, rfl, hsize, ?_, ?_⟩
    · simp only
      omega
    · rw [show 8 * ((count + 7) / 8) - count = 0 by omega, Nat.pow_zero, Nat.mul_one]
      exact hvalue.symm
  · rw [hstart]
    have hsmall : s.bitBuf % 2 ^ (w.bits - s.bitLeft) * 2 ^ s.bitLeft < 2 ^ w.bits := by
      rw [← hshift]
      exact Nat.mod_lt _ (Nat.two_pow_pos _)
    obtain ⟨t, hflush, hlen, hbuf, hptr, hbytes⟩ := @flushBytes_spec w (w.bits / 8 + 1)
      { s with bitBuf := s.bitBuf % 2 ^ (w.bits - s.bitLeft) * 2 ^ s.bitLeft } (by simp only; omega) hsmall
      (by simp only; omega)
    simp only at hlen hptr hbytes
    have hptr' : t.bufPtr = (count + 7) / 8 := by omega
    refine ⟨_, congrArg (Option.map _) hflush, hlen.trans hsize, hptr', ?_⟩
    simp only
    -- all bits of the word have left it
    have hword : (bigEndian (s.buf.take s.bufPtr) * 2 ^ w.bits +
        s.bitBuf % 2 ^ (w.bits - s.bitLeft) * 2 ^ s.bitLeft) = value * 2 ^ s.bitLeft := by
      rw [hvalue, Nat.add_mul, Nat.mul_assoc, ← Nat.pow_add, Nat.sub_add_cancel hle]
    have hpow : 2 ^ s.bitLeft * 256 ^ ((w.bits - s.bitLeft + 7) / 8) =
        2 ^ (8 * ((count + 7) / 8) - count) * 2 ^ w.bits := by
      rw [show (256 : Nat) = 2 ^ 8 from rfl, ← Nat.pow_mul, ← Nat.pow_add, ← Nat.pow_add]
      congr 1
      omega
    rw [hword, Nat.mul_assoc, hpow, ← Nat.mul_assoc] at hbytes
    have hdiv := congrArg (fun x => x / 2 ^ w.bits) hbytes
    rwa [Nat.mul_div_cancel _ (Nat.two_pow_pos _), Nat.add_comm, Nat.add_mul_div_right _ _ (Nat.two_pow_pos _),
      Nat.div_eq_of_lt hbuf, Nat.zero_add] at hdiv

end P2PFFmpeg.Bits
