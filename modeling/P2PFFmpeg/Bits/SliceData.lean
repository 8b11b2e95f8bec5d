import P2PFFmpeg.Bits.RoundTrip
import P2PFFmpeg.Util.Reduce

namespace P2PFFmpeg.Bits

open Library.BitField Library.ByteFile Payload Util

/-- `MAX_UINT_BITS` -/
def maxUintBits (length : Nat) : Nat := 2 ^ length - 1

def ffCtz (v : UInt8) : Nat := ffCtzll v.toNat

/-- `put_bits` with its assertion. -/
def putBitsAsserted (w : BitBuf) (n value : Nat) (s : PutBitContext) : Option PutBitContext :=
  if n ≤ 31 ∧ value < 2 ^ n then some (putBits w n value s) else none

def skipPutBytes (w : BitBuf) (n : Nat) (s : PutBitContext) : Option PutBitContext :=
  if putBitsCount w s % 8 = 0 ∧ s.bitLeft = w.bits ∧ n ≤ s.buf.length - s.bufPtr then
    some { s with bufPtr := s.bufPtr + n }
  else none

/-- `memcpy` to `put_bits_ptr`; `none` is a write outside of the buffer. -/
def PutBitContext.memcpy (data : List UInt8) (s : PutBitContext) : Option PutBitContext :=
  if s.bufPtr + data.length ≤ s.buf.length then some { s with buf := pwrite s.buf s.bufPtr data } else none

def putWords (w : BitBuf) (data : List UInt8) : Nat → Nat → PutBitContext → Nat × Nat × PutBitContext
  | rest + 5, pos, s => putWords w data (rest + 1) (pos + 4) (putBits32 w (avRb32 data pos).toNat s)
  | rest, pos, s => (rest, pos, s)

def putBytes (w : BitBuf) (data : List UInt8) : Nat → Nat → PutBitContext → Option (Nat × Nat × PutBitContext)
  | rest + 2, pos, s => (putBitsAsserted w 8 (byteAt data pos).toNat s).bind (putBytes w data (rest + 1) (pos + 1))
  | rest, pos, s => some (rest, pos, s)

/-- From the label `rbsp_stop_one_bit` on. -/
def rbspStopOneBit (w : BitBuf) (data : List UInt8) (dataBitStart rest pos : Nat) (s : PutBitContext) :
    Option (Int × PutBitContext) := do
  let byte := byteAt data pos
  let temp := if rest ≠ 0 then byte.toNat else byte.toNat &&& maxUintBits (8 - dataBitStart % 8)
  if temp = 0 then none
  else
    let i := ffCtz byte
    let s ← putBitsAsserted w (if rest ≠ 0 then 8 - i else 8 - i - dataBitStart % 8) (temp >>> i) s
    let s ← if putBitsCount w s % 8 ≠ 0 then putBitsAsserted w (8 - putBitsCount w s % 8).toNat 0 s else some s
    some (0, s)

def putFirst (w : BitBuf) (data : List UInt8) (dataBitStart pos : Nat) (s : PutBitContext) :
    Option (Nat × PutBitContext) :=
  if dataBitStart % 8 ≠ 0 then
    (putBitsAsserted w (8 - dataBitStart % 8)
      ((byteAt data pos).toNat &&& maxUintBits (8 - dataBitStart % 8)) s).map (pos + 1, ·)
  else some (pos, s)

def putRest (w : BitBuf) (data : List UInt8) (dataBitStart rest pos : Nat) (s : PutBitContext) :
    Option (Int × PutBitContext) :=
  if putBitsCount w s % 8 = 0 then do
    let s ← flushPutBits w s
    let s ← (s.memcpy ((data.drop pos).take rest)).bind (skipPutBytes w rest)
    some (0, s)
  else do
    let (rest, pos, s) := putWords w data rest pos s
    let (rest, pos, s) ← putBytes w data rest pos s
    rbspStopOneBit w data dataBitStart rest pos s

/-- The sizes are `size_t`. `none` is a failed assertion or a write outside of the buffer. -/
def cbsH2645WriteSliceData (w : BitBuf) (data : List UInt8) (dataBitStart : Nat) (s : PutBitContext) :
    Option (Int × PutBitContext) :=
  let rest := data.length - (dataBitStart + 7) / 8
  let pos := dataBitStart / 8
  if ¬ data.length > dataBitStart / 8 then none
  else if data.length * 8 + 8 > putBitsLeft w s % 2 ^ 64 then some (averrorEnospc, s)
  else if rest = 0 then rbspStopOneBit w data dataBitStart rest pos s
  else do
    let (pos, s) ← putFirst w data dataBitStart pos s
    putRest w data dataBitStart rest pos s

structure StopBit (data : List UInt8) (e : Nat) : Prop where
  last : e / 8 + 1 = data.length
  one : bitAt data e = true
  zeros : ∀ j, e < j → j < 8 * data.length → bitAt data j = false

variable {w : BitBuf} {data : List UInt8} {size count value start e i n rest pos : Nat} {s t : PutBitContext}

theorem testBit_ctz {v : Nat} (hv : 0 < v) : v.testBit (ffCtzll v) = true := by
  rw [Nat.testBit_eq_decide_div_mod_eq, ← Nat.shiftRight_eq_div_pow, shift_odd hv]
  rfl

theorem testBit_below_ctz {v j : Nat} (hj : j < ffCtzll v) : v.testBit j = false := by
  obtain ⟨m, hm⟩ := ctz_dvd v
  generalize ffCtzll v = c at hj hm
  rw [hm, Nat.testBit_two_pow_mul, decide_eq_false (Nat.not_le.mpr hj), Bool.false_and]

theorem bitAt_byte (hj : n < 8) : bitAt data (8 * pos + (7 - n)) = (byteAt data pos).toNat.testBit n := by
  rw [bitAt, show (8 * pos + (7 - n)) / 8 = pos by omega, show 7 - (8 * pos + (7 - n)) % 8 = n by omega]

theorem StopBit.ctz (h : StopBit data e) : ffCtz (byteAt data (e / 8)) = 7 - e % 8 := by
  have hlast := h.last
  have hbit := h.one
  rw [show e = 8 * (e / 8) + (7 - (7 - e % 8)) by omega, bitAt_byte (by omega)] at hbit
  have hpos : 0 < (byteAt data (e / 8)).toNat := by
    rw [Nat.pos_iff_ne_zero]
    intro hzero
    rw [hzero, Nat.zero_testBit] at hbit
    cases hbit
  rcases Nat.lt_trichotomy (ffCtz (byteAt data (e / 8))) (7 - e % 8) with hlt | heq | hgt
  · have hzero := h.zeros (8 * (e / 8) + (7 - ffCtz (byteAt data (e / 8)))) (by omega) (by omega)
    rw [bitAt_byte (by omega), ffCtz, testBit_ctz hpos] at hzero
    cases hzero
  · exact heq
  · rw [testBit_below_ctz hgt] at hbit
    cases hbit

theorem stopBit_of_last {b : UInt8} (hlast : data.getLast? = some b) (hb : b ≠ 0) : ∃ e, StopBit data e := by
  obtain ⟨front, rfl⟩ := List.getLast?_eq_some_iff.mp hlast
  have hlen : (front ++ [b]).length = front.length + 1 := by simp
  have hbyte : byteAt (front ++ [b]) front.length = b := by simp [byteAt]
  have hpos : 0 < b.toNat := Nat.pos_of_ne_zero fun hzero => hb (UInt8.toNat_inj.mp hzero)
  have hctz : ffCtzll b.toNat < 8 := by
    have hle := Nat.le_of_dvd hpos (ctz_dvd b.toNat)
    exact (Nat.pow_lt_pow_iff_right (by decide)).mp (Nat.lt_of_le_of_lt hle b.toNat_lt)
  refine ⟨8 * front.length + (7 - ffCtzll b.toNat), ?_, ?_, ?_⟩
  · omega
  · rw [bitAt_byte hctz, hbyte, testBit_ctz hpos]
  · intro j hlo hhi
    rw [show j = 8 * front.length + (7 - (7 - j % 8)) by omega, bitAt_byte (by omega), hbyte]
    exact testBit_below_ctz (by omega)

theorem byte_and_mask (hn : n ≤ 8) :
    (byteAt data pos).toNat &&& maxUintBits n = window (bitAt data) (8 * pos + (8 - n)) n := by
  rw [maxUintBits, Nat.and_two_pow_sub_one_eq_mod, ← window_byte, ← window_mod (bitAt data) _ (8 - n) n,
    Nat.sub_add_cancel hn]

theorem window_shiftRight (bit : Nat → Bool) (i m n : Nat) : window bit i (m + n) >>> n = window bit i m := by
  rw [Nat.shiftRight_eq_div_pow, window_div]

theorem StopBit.window_odd (h : StopBit data e) (hi : i ≤ e) : window (bitAt data) i (e + 1 - i) % 2 = 1 := by
  rw [Nat.succ_sub hi, window, Nat.add_sub_cancel' hi, h.one, Bool.toNat_true]
  omega

theorem StopBit.window_rest (h : StopBit data e) (hn : e + 1 + n ≤ 8 * data.length) :
    window (bitAt data) (e + 1) n = 0 := by
  induction n with
  | zero => rfl
  | succ n ih => rw [window, ih (by omega), h.zeros _ (by omega) (by omega)]; rfl

/-- The bits of the data from `start` up to `i` stand behind what had been written. -/
def Copied (w : BitBuf) (data : List UInt8) (size count value start i : Nat) (s : PutBitContext) : Prop :=
  Written w size s (count + (i - start)) (value * 2 ^ (i - start) + window (bitAt data) start (i - start))

theorem Copied.append (h : Copied w data size count value start i s) (hi : start ≤ i)
    (ht : Written w size s (count + (i - start)) (value * 2 ^ (i - start) + window (bitAt data) start (i - start)) →
      Written w size t (count + (i - start) + n)
        ((value * 2 ^ (i - start) + window (bitAt data) start (i - start)) * 2 ^ n + window (bitAt data) i n)) :
    Copied w data size count value start (i + n) t := by
  have hadd := window_add (bitAt data) start (i - start) n
  rw [Nat.add_sub_cancel' hi] at hadd
  have hall := ht h
  rwa [Nat.add_mul, Nat.mul_assoc, ← Nat.pow_add, Nat.add_assoc, Nat.add_assoc, ← hadd,
    ← Nat.sub_add_comm hi] at hall

theorem Copied.putBits (h : Copied w data size count value start i s) (hi : start ≤ i) (hn : n ≤ 31)
    (hroom : count + (i + n - start) ≤ 8 * size) :
    ∃ t, putBitsAsserted w n (window (bitAt data) i n) s = some t ∧
      Copied w data size count value start (i + n) t :=
  have hlt := window_lt (bitAt data) i n
  ⟨_, if_pos ⟨hn, hlt⟩, h.append hi fun hs => putBits_written hs hn hlt (by omega)⟩

theorem putWords_copied (hone : 1 ≤ rest) (h : Copied w data size count value start (8 * pos) s)
    (hi : start ≤ 8 * pos) (hroom : count + (8 * (pos + rest) - start) ≤ 8 * size) :
    ∃ rest' pos' t, putWords w data rest pos s = (rest', pos', t) ∧ 1 ≤ rest' ∧ pos' + rest' = pos + rest ∧
      start ≤ 8 * pos' ∧ Copied w data size count value start (8 * pos') t := by
  induction rest, pos, s using putWords.induct w data with
  | case1 rest pos s ih =>
      have hword := window_rb32 data pos
      have hnext : Copied w data size count value start (8 * (pos + 4))
          (putBits32 w (avRb32 data pos).toNat s) := by
        rw [Nat.mul_add]
        refine h.append hi fun hs => ?_
        rw [hword]
        exact putBits32_written hs (UInt32.toNat_lt _) (by omega)
      obtain ⟨rest', pos', t, heq, hone', hsum, hstart, hcopied⟩ := ih (by omega) hnext (by omega) (by omega)
      exact ⟨rest', pos', t, heq, hone', by omega, hstart, hcopied⟩
  | case2 rest pos s hfew => exact ⟨rest, pos, s, putWords.eq_2 _ _ _ _ _ hfew, hone, rfl, hi, h⟩

theorem putBytes_copied (hone : 1 ≤ rest) (h : Copied w data size count value start (8 * pos) s)
    (hi : start ≤ 8 * pos) (hroom : count + (8 * (pos + rest) - start) ≤ 8 * size) :
    ∃ t, putBytes w data rest pos s = some (1, pos + rest - 1, t) ∧
      Copied w data size count value start (8 * (pos + rest - 1)) t := by
  induction rest generalizing pos s with
  | zero => cases hone
  | succ rest ih =>
      cases rest with
      | zero => exact ⟨s, rfl, h⟩
      | succ rest =>
          obtain ⟨u, hput, hu⟩ := @Copied.putBits w data size count value start (8 * pos) 8 s h hi (by decide) (by omega)
          rw [window_byte] at hput
          obtain ⟨t, ht, hcopied⟩ := @ih (pos + 1) u (by omega) hu (by omega) (by omega)
          rw [show pos + 1 + (rest + 1) - 1 = pos + (rest + 1 + 1) - 1 by omega] at ht hcopied
          exact ⟨t, by rw [putBytes, hput, Option.bind_some, ht], hcopied⟩

/-- The copy is complete: the bits up to the last one are written, and zeros up to a byte. -/
def Complete (w : BitBuf) (data : List UInt8) (size count value start e : Nat) (s : PutBitContext) : Prop :=
  ∃ pad < 8, 8 ∣ count + (e + 1 - start) + pad ∧ Written w size s (count + (e + 1 - start) + pad)
    ((value * 2 ^ (e + 1 - start) + window (bitAt data) start (e + 1 - start)) * 2 ^ pad)

theorem Copied.pad (h : Copied w data size count value start (e + 1) s)
    (hroom : count + (e + 1 - start) + 8 ≤ 8 * size) :
    ∃ t, (if putBitsCount w s % 8 ≠ 0 then putBitsAsserted w (8 - putBitsCount w s % 8).toNat 0 s
      else some s) = some t ∧ Complete w data size count value start e t := by
  have hcount := Written.putBitsCount h
  split
  · next hpart =>
      have hzero := putBits_written h (by omega : (8 - putBitsCount w s % 8).toNat ≤ 31) (Nat.two_pow_pos _) (by omega)
      refine ⟨_, if_pos ⟨by omega, Nat.two_pow_pos _⟩, (8 - putBitsCount w s % 8).toNat, by omega, by omega, hzero⟩
  · next hwhole =>
      refine ⟨s, rfl, 0, by decide, by omega, ?_⟩
      rwa [Nat.pow_zero, Nat.mul_one]

theorem rbspStopOneBit_complete (hstop : StopBit data e) (hi : start ≤ i) (hie : i ≤ e)
    (hpos : pos = e / 8) (hfirst : if rest ≠ 0 then i = 8 * pos else i = start ∧ 8 * pos ≤ start)
    (h : Copied w data size count value start i s) (hroom : count + (e + 1 - start) + 8 ≤ 8 * size) :
    ∃ t, rbspStopOneBit w data start rest pos s = some (0, t) ∧ Complete w data size count value start e t := by
  subst hpos
  have hctz := hstop.ctz
  have hlast := hstop.last
  have hlow : 8 * (e / 8) ≤ i := by split at hfirst <;> omega
  obtain ⟨htemp, hbits⟩ : (if rest ≠ 0 then (byteAt data (e / 8)).toNat
        else (byteAt data (e / 8)).toNat &&& maxUintBits (8 - start % 8)) =
        window (bitAt data) i (e + 1 - i + (7 - e % 8)) ∧
      (if rest ≠ 0 then 8 - (7 - e % 8) else 8 - (7 - e % 8) - start % 8) = e + 1 - i := by
    split at hfirst
    · next hrest =>
        rw [if_pos hrest, if_pos hrest, ← window_byte, hfirst]
        exact ⟨by congr 1; omega, by omega⟩
    · next hrest =>
        rw [if_neg hrest, if_neg hrest, byte_and_mask (Nat.sub_le _ _), hfirst.1]
        exact ⟨by congr 1 <;> omega, by omega⟩
  have hshift := window_shiftRight (bitAt data) i (e + 1 - i) (7 - e % 8)
  have hodd := hstop.window_odd hie
  have hnonzero : window (bitAt data) i (e + 1 - i + (7 - e % 8)) ≠ 0 := by
    intro hzero
    rw [hzero, Nat.zero_shiftRight] at hshift
    rw [← hshift] at hodd
    cases hodd
  obtain ⟨u, hput, hu⟩ := @Copied.putBits w data size count value start i (e + 1 - i) s h hi (by omega) (by omega)
  rw [show i + (e + 1 - i) = e + 1 by omega] at hu
  obtain ⟨t, hpad, ht⟩ := hu.pad hroom
  refine ⟨t, ?_, ht⟩
  rw [rbspStopOneBit]
  simp only [htemp, if_neg hnonzero, hctz, hbits, hshift, hput, Option.bind_eq_bind, Option.bind_some]
  split at hpad
  · next hpart => rw [if_pos hpart, hpad, Option.bind_some]
  · next hwhole => rw [if_neg hwhole, Option.some.inj hpad]

theorem flushPutBits_written (h : Written w size s count value) (hwhole : count % 8 = 0) :
    ∃ t, flushPutBits w s = some t ∧ t.bitLeft = w.bits ∧ Written w size t count value := by
  obtain ⟨t, hflush, hlen, hptr, hbytes⟩ := flushPutBits_spec h
  obtain ⟨u, -, hu⟩ := Option.map_eq_some_iff.mp hflush
  have hleft : t.bitLeft = w.bits := by rw [← hu]
  rw [show 8 * ((count + 7) / 8) - count = 0 by omega, Nat.pow_zero, Nat.mul_one] at hbytes
  refine ⟨t, hflush, hleft, ?_, hleft.le, ?_, ?_, hlen, h.room, h.small⟩
  · rw [hleft]
    exact Nat.le_trans h.leftPos h.leftLe
  · omega
  · rw [hleft, Nat.sub_self, Nat.pow_zero, Nat.mul_one, Nat.mod_one, hbytes]
    rfl

theorem memcpy_written {bytes : List UInt8} (h : Written w size s count value) (hleft : s.bitLeft = w.bits)
    (hroom : count + 8 * bytes.length ≤ 8 * size) :
    ∃ t, (s.memcpy bytes).bind (skipPutBytes w bytes.length) = some t ∧
      Written w size t (count + 8 * bytes.length) (value * 2 ^ (8 * bytes.length) + bigEndian bytes) := by
  obtain ⟨hpos, -, hcount, hvalue, hsize, -, hsmall⟩ := h
  have hfit : s.bufPtr + bytes.length ≤ s.buf.length := by omega
  have hlen : (pwrite s.buf s.bufPtr bytes).length = s.buf.length := by
    rw [length_pwrite (by omega)]
    omega
  have htake := @take_pwrite_end _ _ s.buf bytes s.bufPtr (by omega)
  have hdone : putBitsCount w { s with buf := pwrite s.buf s.bufPtr bytes } % 8 = 0 := by
    rw [Util.intMax] at hsmall
    rw [Bits.putBitsCount, toInt_eq] <;> simp only [hleft] <;> omega
  rw [hleft, Nat.sub_self, Nat.pow_zero, Nat.mul_one, Nat.mod_one, Nat.add_zero] at hvalue
  rw [PutBitContext.memcpy, if_pos hfit, Option.bind_some, skipPutBytes,
    if_pos ⟨hdone, hleft, by simp only [hlen]; omega⟩]
  refine ⟨_, rfl, hpos, hleft.le, ?_, ?_, hlen.trans hsize, hroom, hsmall⟩
  · simp only [hleft]
    omega
  · simp only [hleft, Nat.sub_self, Nat.pow_zero, Nat.mul_one, Nat.mod_one, Nat.add_zero]
    rw [htake, bigEndian_append, ← hvalue, show (256 : Nat) = 2 ^ 8 from rfl, ← Nat.pow_mul]

theorem bigEndian_drop (hpos : pos ≤ data.length) :
    bigEndian (data.drop pos) = window (bitAt data) (8 * pos) (8 * (data.length - pos)) := by
  have hall := window_take data data.length (Nat.le_refl _)
  have hfront := window_take data pos hpos
  have hsplit := window_add (bitAt data) 0 (8 * pos) (8 * (data.length - pos))
  rw [show 8 * pos + 8 * (data.length - pos) = 8 * data.length by omega, hall, hfront, Nat.zero_add,
    List.take_length] at hsplit
  have hbytes := bigEndian_append (data.take pos) (data.drop pos)
  rw [List.take_append_drop, hsplit, List.length_drop, show (256 : Nat) = 2 ^ 8 from rfl, ← Nat.pow_mul] at hbytes
  omega

theorem Copied.complete (hstop : StopBit data e) (hstart : start ≤ e)
    (hwhole : 8 ∣ count + (8 * data.length - start))
    (h : Copied w data size count value start (8 * data.length) s) :
    Complete w data size count value start e s := by
  have hlast := hstop.last
  have hadd := window_add (bitAt data) start (e + 1 - start) (7 - e % 8)
  have hlen : e + 1 - start + (7 - e % 8) = 8 * data.length - start := by omega
  rw [show start + (e + 1 - start) = e + 1 by omega, hstop.window_rest (by omega), hlen, Nat.add_zero] at hadd
  refine ⟨7 - e % 8, by omega, by rw [Nat.add_assoc, hlen]; exact hwhole, ?_⟩
  rw [Nat.add_assoc, hlen, Nat.add_mul, ← hadd, Nat.mul_assoc, ← Nat.pow_add, hlen]
  exact h

theorem putFirst_copied (h : Written w size s count value) (hroom : count + (8 * data.length - start) ≤ 8 * size)
    (hrest : (start + 7) / 8 < data.length) :
    ∃ t, putFirst w data start (start / 8) s = some ((start + 7) / 8, t) ∧
      Copied w data size count value start (8 * ((start + 7) / 8)) t := by
  have hnone : Copied w data size count value start start s := by
    rw [Copied, Nat.sub_self, Nat.pow_zero, Nat.mul_one]
    exact h
  rw [putFirst]
  split
  · obtain ⟨t, hput, ht⟩ := @Copied.putBits w data size count value start start (8 - start % 8) s hnone
      (Nat.le_refl _) (by omega) (by omega)
    rw [byte_and_mask (Nat.sub_le _ _), show 8 * (start / 8) + (8 - (8 - start % 8)) = start by omega, hput]
    rw [show start + (8 - start % 8) = 8 * ((start + 7) / 8) by omega] at ht
    exact ⟨t, by rw [Option.map_some]; congr 2; omega, ht⟩
  · rw [show start / 8 = (start + 7) / 8 by omega]
    rw [show start = 8 * ((start + 7) / 8) by omega] at hnone
    exact ⟨s, rfl, by convert hnone using 1; omega⟩

theorem putRest_complete (hstop : StopBit data e) (hstart : start ≤ e)
    (h : Copied w data size count value start (8 * pos) s) (hi : start ≤ 8 * pos) (hpos : pos < data.length)
    (hroom : count + (data.length * 8 + 8) ≤ 8 * size) :
    ∃ t, putRest w data start (data.length - pos) pos s = some (0, t) ∧
      Complete w data size count value start e t := by
  have hlast := hstop.last
  have hcount := Written.putBitsCount h
  have hbytes : ((data.drop pos).take (data.length - pos)).length = data.length - pos := by simp
  have hend : pos + (data.length - pos) = data.length := by omega
  rw [putRest]
  split
  · obtain ⟨u, hflush, hleft, hu⟩ := flushPutBits_written h (by omega)
    obtain ⟨t, hcopy, ht⟩ := memcpy_written hu hleft (by rw [hbytes]; omega)
    rw [hbytes] at hcopy ht
    have hall : Copied w data size count value start (8 * data.length) t := by
      rw [List.take_of_length_le (by rw [List.length_drop]), bigEndian_drop hpos.le] at ht
      rw [← hend, Nat.mul_add]
      exact h.append hi fun _ => ht
    refine ⟨t, ?_, hall.complete hstop hstart (by omega)⟩
    rw [hflush, Option.bind_eq_bind, Option.bind_some, hcopy]
    rfl
  · obtain ⟨rest', pos', u, hwords, hone, hsum, hi', hu⟩ :=
      @putWords_copied w data size count value start (data.length - pos) pos s (by omega) h hi (by omega)
    obtain ⟨v, hput, hv⟩ := putBytes_copied hone hu hi' (by omega)
    have hfinal : pos' + rest' - 1 = e / 8 := by omega
    rw [hfinal] at hput hv
    obtain ⟨t, hstopped, ht⟩ := @rbspStopOneBit_complete w data size count value start e (8 * (e / 8)) 1 (e / 8) v
      hstop (by omega) (by omega) rfl (by rw [if_pos Nat.one_ne_zero]) hv (by omega)
    refine ⟨t, ?_, ht⟩
    simp only [hwords, Option.bind_eq_bind, hput, Option.bind_some]
    exact hstopped

theorem writeSliceData_complete (h : Written w size s count value) (hstop : StopBit data e) (hstart : start ≤ e)
    (hroom : count + (data.length * 8 + 8) ≤ 8 * size) :
    ∃ t, cbsH2645WriteSliceData w data start s = some (0, t) ∧ Complete w data size count value start e t := by
  have hlast := hstop.last
  have hsmall := h.small
  rw [Util.intMax] at hsmall
  rw [cbsH2645WriteSliceData, h.putBitsLeft, if_neg (by omega), if_neg (by omega)]
  by_cases hnone : data.length - (start + 7) / 8 = 0
  · have hcopied : Copied w data size count value start start s := by
      rw [Copied, Nat.sub_self, Nat.pow_zero, Nat.mul_one]
      exact h
    rw [if_pos hnone]
    refine rbspStopOneBit_complete hstop (Nat.le_refl _) hstart (by omega) ?_ hcopied (by omega)
    rw [if_neg (not_not_intro hnone)]
    omega
  · obtain ⟨u, hfirst, hu⟩ := @putFirst_copied w data size count value start s h (by omega) (by omega)
    obtain ⟨t, hrest, ht⟩ := putRest_complete hstop hstart hu (by omega) (by omega) hroom
    refine ⟨t, ?_, ht⟩
    rw [if_neg hnone, hfirst, Option.bind_eq_bind, Option.bind_some]
    exact hrest

/-- From any position of the writer and of the data, the bits up to the last one are copied and a byte is
filled up with zeros, or nothing is written; no assertion fails, and no write leaves the buffer. -/
theorem cbs_h2645_write_slice_data_copies {b : UInt8} (h : Written w size s count value)
    (hlast : data.getLast? = some b) (hb : b ≠ 0) :
    ∃ e, StopBit data e ∧ ∀ start ≤ e,
      if 8 * size - count < 8 * data.length + 8 then
        cbsH2645WriteSliceData w data start s = some (averrorEnospc, s)
      else ∃ t, cbsH2645WriteSliceData w data start s = some (0, t) ∧
        Complete w data size count value start e t := by
  obtain ⟨e, hstop⟩ := stopBit_of_last hlast hb
  refine ⟨e, hstop, fun start hstart => ?_⟩
  have hlen := hstop.last
  have hroom := h.room
  have hsmall := h.small
  rw [Util.intMax] at hsmall
  split
  · rw [cbsH2645WriteSliceData, h.putBitsLeft, if_neg (by omega), if_pos (by omega)]
  · exact writeSliceData_complete h hstop hstart (by omega)

/-- Two bytes go behind three bits. -/
theorem cbs_h2645_write_slice_data_copies_two :
    ∃ e, StopBit [0x12, 0x50] e ∧ ∀ start ≤ e, ∃ t,
      cbsH2645WriteSliceData .uint64 [0x12, 0x50] start ⟨5, 61, [0, 0, 0, 0, 0, 0, 0, 0], 0⟩ = some (0, t) ∧
      Complete .uint64 [0x12, 0x50] 8 3 5 start e t := by
  have hwritten : Written .uint64 8 ⟨5, 61, [0, 0, 0, 0, 0, 0, 0, 0], 0⟩ 3 5 :=
    ⟨by decide, by decide, rfl, rfl, rfl, by decide, by decide⟩
  exact @cbs_h2645_write_slice_data_copies .uint64 [0x12, 0x50] 8 3 5 _ 0x50 hwritten rfl (by decide)

end P2PFFmpeg.Bits
