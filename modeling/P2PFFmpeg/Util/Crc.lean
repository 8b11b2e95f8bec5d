import P2PFFmpeg.Library.ShiftRegister
import P2PFFmpeg.Util.Uuid

namespace P2PFFmpeg.Util

open Library.ShiftRegister

abbrev AVCRC := BitVec 32

def avBswap16c (x : BitVec 32) : BitVec 32 := (x <<< 8 &&& 0xff00#32) ||| (x >>> 8 &&& 0x00ff#32)

def avBswap32 (x : BitVec 32) : BitVec 32 := avBswap16c x <<< 16 ||| avBswap16c (x >>> 16)

def crcEntry (le : Bool) (bits : Nat) (poly : BitVec 32) (i : Nat) : AVCRC :=
  if le then (fun c : AVCRC => c >>> 1 ^^^ (poly &&& -(c &&& 1#32)))^[8] (BitVec.ofNat 32 i)
  else avBswap32 ((fun c : AVCRC => c <<< 1 ^^^ (poly <<< (32 - bits) &&& c.sshiftRight 31))^[8] (BitVec.ofNat 32 i <<< 24))

def fillEntries (entry : Nat → AVCRC) (ctx : List AVCRC) : List AVCRC :=
  (List.range 256).foldl (fun ctx i => ctx.set i (entry i)) ctx

def setSlice (i : Nat) (ctx : List AVCRC) (j : Nat) : List AVCRC :=
  let c := ctx.getD (256 * j + i) 0
  ctx.set (256 * (j + 1) + i) (c >>> 8 ^^^ ctx.getD (c &&& 0xFF#32).toNat 0)

def fillSlices (ctx : List AVCRC) : List AVCRC :=
  (List.range 256).foldl (fun ctx i => (List.range 3).foldl (setSlice i) ctx) ctx

def avCrcInit (configSmall : Bool) (ctx : List AVCRC) (le : Bool) (bits : Int) (poly : BitVec 32) (ctxSize : Int) :
    Except Int (List AVCRC) :=
  if bits < 8 ∨ bits > 32 ∨ poly.toNat ≥ 2 ^ bits.toNat then .error averrorEinval
  else if ctxSize ≠ 4 * 257 ∧ ctxSize ≠ 4 * 1024 then .error averrorEinval
  else
    let ctx := (fillEntries (crcEntry le bits.toNat poly) ctx).set 256 1#32
    .ok (if !configSmall ∧ ctxSize ≥ 4 * 1024 then fillSlices ctx else ctx)

def crcByte (ctx : List AVCRC) (crc : AVCRC) (byte : UInt8) : AVCRC :=
  ctx.getD (crc.setWidth 8 ^^^ byte.toBitVec).toNat 0 ^^^ crc >>> 8

def alignLoop (ctx : List AVCRC) : Nat → AVCRC → List UInt8 → AVCRC × List UInt8
  | address, crc, byte :: rest =>
      if address % 4 ≠ 0 then alignLoop ctx (address + 1) (crcByte ctx crc byte) rest else (crc, byte :: rest)
  | _, crc, [] => (crc, [])

def crcSlice (ctx : List AVCRC) (crc : AVCRC) (b0 b1 b2 b3 : UInt8) : AVCRC :=
  let crc := crc ^^^ (b3.toBitVec ++ b2.toBitVec ++ b1.toBitVec ++ b0.toBitVec)
  ctx.getD (3 * 256 + (crc &&& 0xFF#32).toNat) 0 ^^^ ctx.getD (2 * 256 + (crc >>> 8 &&& 0xFF#32).toNat) 0 ^^^
    ctx.getD (1 * 256 + (crc >>> 16 &&& 0xFF#32).toNat) 0 ^^^ ctx.getD (0 * 256 + (crc >>> 24).toNat) 0

def sliceLoop (ctx : List AVCRC) : AVCRC → List UInt8 → AVCRC × List UInt8
  | crc, b0 :: b1 :: b2 :: b3 :: rest => sliceLoop ctx (crcSlice ctx crc b0 b1 b2 b3) rest
  | crc, rest => (crc, rest)

/-- The address is that of the first byte. -/
def avCrc (configSmall : Bool) (ctx : List AVCRC) (address : Nat) (crc : AVCRC) (buffer : List UInt8) : AVCRC :=
  if !configSmall ∧ ctx.getD 256 0 = 0#32 then
    let aligned := alignLoop ctx address crc buffer
    let sliced := sliceLoop ctx aligned.1 aligned.2
    sliced.2.foldl (crcByte ctx) sliced.1
  else buffer.foldl (crcByte ctx) crc

/-- The register as it takes one bit after the other; without `le` it is aligned to the
left and its bytes are swapped between the calls. -/
def shiftRegister (le : Bool) (bits : Nat) (poly : BitVec 32) (crc : AVCRC) (buffer : List UInt8) : AVCRC :=
  if le then buffer.foldl (fun c byte => (lowFirst byte.toBitVec).foldl (rightStep poly) c) crc
  else avBswap32 (buffer.foldl
    (fun c byte => (highFirst byte.toBitVec).foldl (leftStep (poly <<< (32 - bits))) c) (avBswap32 crc))

section Bswap

variable {x y : BitVec 32} {i : Nat}

theorem mask_bits : ∀ i < 32, (0xff00#32).getLsbD i = decide (8 ≤ i ∧ i < 16) ∧
    (0x00ff#32).getLsbD i = decide (i < 8) := by decide

theorem getLsbD_bswap16c (hi : i < 32) : (avBswap16c x).getLsbD i =
    if i < 8 then x.getLsbD (8 + i) else if i < 16 then x.getLsbD (i - 8) else false := by
  obtain ⟨hhigh, hlow⟩ := mask_bits i hi
  rw [avBswap16c, BitVec.getLsbD_or, BitVec.getLsbD_and, BitVec.getLsbD_and, hhigh, hlow, BitVec.getLsbD_shiftLeft,
    BitVec.getLsbD_ushiftRight]
  grind

theorem getLsbD_bswap (hi : i < 32) : (avBswap32 x).getLsbD i = x.getLsbD (8 * (3 - i / 8) + i % 8) := by
  rw [avBswap32, BitVec.getLsbD_or, BitVec.getLsbD_shiftLeft, getLsbD_bswap16c hi,
    getLsbD_bswap16c (lt_of_le_of_lt (Nat.sub_le i 16) hi), BitVec.getLsbD_ushiftRight, BitVec.getLsbD_ushiftRight,
    decide_eq_true hi, Bool.true_and]
  have hbyte : i / 8 = 0 ∨ i / 8 = 1 ∨ i / 8 = 2 ∨ i / 8 = 3 := by omega
  obtain h | h | h | h := hbyte <;> rw [h] <;> grind

def turned (x : BitVec 32) : BitVec 32 := avBswap32 x.reverse

theorem getLsbD_turned (hi : i < 32) : (turned x).getLsbD i = x.getLsbD (8 * (i / 8) + (7 - i % 8)) := by
  have hplace : 8 * (3 - i / 8) + i % 8 < 32 := by omega
  rw [turned, getLsbD_bswap hi, BitVec.getLsbD_reverse, BitVec.getMsbD_eq_getLsbD, decide_eq_true hplace, Bool.true_and]
  congr 1
  omega

theorem turned_xor (x y : BitVec 32) : turned (x ^^^ y) = turned x ^^^ turned y := by
  apply BitVec.eq_of_getLsbD_eq
  intro i hi
  rw [BitVec.getLsbD_xor, getLsbD_turned hi, getLsbD_turned hi, getLsbD_turned hi, BitVec.getLsbD_xor]

theorem turned_turned (x : BitVec 32) : turned (turned x) = x := by
  apply BitVec.eq_of_getLsbD_eq
  intro i hi
  rw [getLsbD_turned hi, getLsbD_turned (by omega)]
  congr 1
  omega

theorem turned_ushiftRight (x : BitVec 32) : turned (x >>> 8) = turned x >>> 8 := by
  apply BitVec.eq_of_getLsbD_eq
  intro i hi
  rw [getLsbD_turned hi, BitVec.getLsbD_ushiftRight, BitVec.getLsbD_ushiftRight]
  by_cases hin : 8 + i < 32
  · rw [getLsbD_turned hin]
    congr 1
    omega
  · rw [BitVec.getLsbD_of_ge x _ (by omega), BitVec.getLsbD_of_ge (turned x) _ (not_lt.mp hin)]

theorem turned_low (y : BitVec 32) (hy : ∀ i < 8, y.getLsbD i = false) : ∀ i < 8, (turned y).getLsbD i = false := by
  intro i hi
  rw [getLsbD_turned (by omega)]
  exact hy _ (by omega)

theorem turned_byte (b : BitVec 8) : turned (b.setWidth 32) = b.reverse.setWidth 32 := by
  apply BitVec.eq_of_getLsbD_eq
  intro i hi
  rw [getLsbD_turned hi, BitVec.getLsbD_setWidth, BitVec.getLsbD_setWidth, BitVec.getLsbD_reverse,
    BitVec.getMsbD_eq_getLsbD, decide_eq_true hi, decide_eq_true (by omega : 8 * (i / 8) + (7 - i % 8) < 32),
    Bool.true_and, Bool.true_and]
  by_cases hlow : i < 8
  · rw [decide_eq_true hlow, Bool.true_and]
    congr 1
    omega
  · rw [decide_eq_false hlow, Bool.false_and, BitVec.getLsbD_of_ge b _ (by omega)]

theorem reverse_bswap (x : BitVec 32) : (avBswap32 x).reverse = turned x := by
  apply BitVec.eq_of_getLsbD_eq
  intro i hi
  rw [BitVec.getLsbD_reverse, BitVec.getMsbD_eq_getLsbD, decide_eq_true hi, Bool.true_and, getLsbD_bswap (by omega),
    getLsbD_turned hi]
  congr 1
  omega

theorem bswap_byte (b : BitVec 8) : avBswap32 (b.setWidth 32) = b.setWidth 32 <<< 24 := by
  apply BitVec.eq_of_getLsbD_eq
  intro i hi
  rw [getLsbD_bswap hi, BitVec.getLsbD_shiftLeft, BitVec.getLsbD_setWidth, BitVec.getLsbD_setWidth, decide_eq_true hi,
    decide_eq_true (by omega : 8 * (3 - i / 8) + i % 8 < 32), decide_eq_true (by omega : i - 24 < 32)]
  by_cases htop : i < 24
  · rw [decide_eq_true htop, BitVec.getLsbD_of_ge b _ (by omega)]
    rfl
  · rw [decide_eq_false htop, show 8 * (3 - i / 8) + i % 8 = i - 24 by omega]
    rfl

end Bswap

section Entries

def byteMap (le : Bool) (bits : Nat) (poly : BitVec 32) (c : AVCRC) : AVCRC :=
  if le then byteStep poly c else turned (byteStep (poly <<< (32 - bits)).reverse (turned c))

theorem byteMap_byteStep (le : Bool) (bits : Nat) (poly : BitVec 32) : ByteStep (byteMap le bits poly) := by
  cases le with
  | true => exact byteStep_isByteStep poly
  | false =>
      exact (byteStep_isByteStep (poly <<< (32 - bits)).reverse).conj turned_xor turned_turned turned_ushiftRight
        turned_low

theorem and_mask (p : BitVec 32) (b : Bool) :
    (p &&& if b then BitVec.allOnes 32 else 0#32) = if b then p else 0#32 := by
  cases b with
  | false => exact BitVec.and_zero
  | true => exact BitVec.and_allOnes

theorem low_mask (x : BitVec 32) : -(x &&& 1#32) = if x.getLsbD 0 then BitVec.allOnes 32 else 0#32 := by
  rw [BitVec.and_one_eq_setWidth_ofBool_getLsbD]
  cases x.getLsbD 0 <;> rfl

theorem high_mask (x : BitVec 32) : x.sshiftRight 31 = if x.msb then BitVec.allOnes 32 else 0#32 := by
  apply BitVec.eq_of_getLsbD_eq
  intro i hi
  have hsign : (x.sshiftRight 31).getLsbD i = x.msb := by
    rw [BitVec.getLsbD_sshiftRight, decide_eq_false (by omega : ¬32 ≤ i), Bool.not_false, Bool.true_and]
    split
    · rw [BitVec.msb_eq_getLsbD_last, show 31 + i = 32 - 1 by omega]
    · rfl
  rw [hsign]
  cases x.msb with
  | false => exact BitVec.getLsbD_zero.symm
  | true => rw [if_pos rfl, BitVec.getLsbD_allOnes, decide_eq_true hi]

theorem crcEntry_eq (le : Bool) (bits : Nat) (poly : BitVec 32) (i : BitVec 8) :
    crcEntry le bits poly i.toNat = byteMap le bits poly (i.setWidth 32) := by
  have hbyte : BitVec.ofNat 32 i.toNat = i.setWidth 32 := BitVec.ofNat_toNat 32 i
  rw [crcEntry, byteMap, hbyte]
  cases le with
  | true =>
      have hstep : (fun c : AVCRC => c >>> 1 ^^^ (poly &&& -(c &&& 1#32))) = fun c => rightStep poly c false := by
        funext c
        rw [rightStep, low_mask, and_mask, Bool.xor_false]
      rw [if_pos rfl, if_pos rfl, hstep]
      rfl
  | false =>
      have hstep : (fun c : AVCRC => c <<< 1 ^^^ (poly <<< (32 - bits) &&& c.sshiftRight 31)) =
          fun c => leftStep (poly <<< (32 - bits)) c false := by
        funext c
        rw [leftStep, high_mask, and_mask, Bool.xor_false]
      have hstart : (i.setWidth 32 <<< 24).reverse = turned (i.setWidth 32) := by
        rw [← bswap_byte, reverse_bswap]
      rw [if_neg Bool.false_ne_true, if_neg Bool.false_ne_true, hstep, byteStep, ← hstart, ← reverse_iterate_left,
        turned, BitVec.reverse_reverse_eq]

end Entries

section Tables

variable {f : BitVec 32 → BitVec 32} {ctx : List AVCRC}

/-- What a table holds for av_crc: the map of a byte, and if it has no 1 behind that the
maps of up to four. -/
structure Tables (configSmall : Bool) (f : BitVec 32 → BitVec 32) (ctx : List AVCRC) : Prop where
  bytes : ∀ i : BitVec 8, ctx.getD i.toNat 0 = f (i.setWidth 32)
  slices : configSmall = false → ctx.getD 256 0 = 0#32 →
    ∀ j < 4, ∀ i : BitVec 8, ctx.getD (256 * j + i.toNat) 0 = f^[j + 1] (i.setWidth 32)

theorem getD_set (l : List AVCRC) (k j : Nat) (x : AVCRC) :
    (l.set k x).getD j 0 = if j = k ∧ k < l.length then x else l.getD j 0 := by
  rw [List.getD_eq_getElem?_getD, List.getD_eq_getElem?_getD, List.getElem?_set]
  grind

theorem fill_prefix (entry : Nat → AVCRC) (ctx : List AVCRC) {n : Nat} (hn : n ≤ ctx.length) :
    ((List.range n).foldl (fun ctx i => ctx.set i (entry i)) ctx).length = ctx.length ∧
      ∀ i < n, ((List.range n).foldl (fun ctx i => ctx.set i (entry i)) ctx).getD i 0 = entry i := by
  induction n with
  | zero => exact ⟨rfl, fun i hi => absurd hi (Nat.not_lt_zero i)⟩
  | succ n ih =>
      obtain ⟨hlength, hentries⟩ := ih (by omega)
      rw [List.range_succ, List.foldl_append, List.foldl_cons, List.foldl_nil]
      refine ⟨by rw [List.length_set, hlength], fun i hi => ?_⟩
      rw [getD_set]
      split
      · next hlast => rw [hlast.1]
      · exact hentries i (by omega)

theorem fillEntries_spec (entry : Nat → AVCRC) {ctx : List AVCRC} (hlength : 256 < ctx.length) :
    (fillEntries entry ctx).length = ctx.length ∧ ∀ i < 256, (fillEntries entry ctx).getD i 0 = entry i :=
  fill_prefix entry ctx hlength.le

theorem low_byte (x : BitVec 32) : (x &&& 0xFF#32).toNat = (x.setWidth 8).toNat := by
  rw [BitVec.toNat_and, BitVec.toNat_setWidth]
  exact Nat.and_two_pow_sub_one_eq_mod x.toNat 8

structure Filled (f : BitVec 32 → BitVec 32) (n m : Nat) (ctx : List AVCRC) : Prop where
  length : ctx.length = 1024
  bytes : ∀ i : BitVec 8, ctx.getD i.toNat 0 = f (i.setWidth 32)
  slices : ∀ (i : BitVec 8) (j : Nat), j < 4 → i.toNat < n ∨ i.toNat = n ∧ j ≤ m →
    ctx.getD (256 * j + i.toNat) 0 = f^[j + 1] (i.setWidth 32)

theorem Filled.step (hf : ByteStep f) {n m : Nat} (h : Filled f n m ctx) (hn : n < 256) (hm : m < 3) :
    Filled f n (m + 1) (setSlice n ctx m) := by
  have hentry (i : BitVec 8) (hi : i.toNat = n) :
      ctx.getD (256 * m + n) 0 >>> 8 ^^^ ctx.getD (ctx.getD (256 * m + n) 0 &&& 0xFF#32).toNat 0 =
        f^[m + 2] (i.setWidth 32) := by
    have hupdate := @ByteStep.update 32 f (f^[m + 1] (i.setWidth 32)) hf 0#8
    have hzero : (0#8).setWidth 32 = 0#32 := rfl
    rw [hzero, BitVec.xor_zero, BitVec.xor_zero] at hupdate
    rw [← hi, h.slices i m (by omega) (.inr ⟨hi, le_rfl⟩), low_byte, h.bytes, BitVec.xor_comm, ← hupdate,
      Function.iterate_succ_apply' f (m + 1)]
  have hother (k : Nat) (hk : k ≠ 256 * (m + 1) + n) : (setSlice n ctx m).getD k 0 = ctx.getD k 0 := by
    rw [setSlice, getD_set, if_neg fun hset => hk hset.1]
  refine ⟨by rw [setSlice, List.length_set, h.length], fun i => ?_, fun i j hj hij => ?_⟩
  · have hi := i.isLt
    rw [hother _ (by omega), h.bytes]
  · have hi := i.isLt
    by_cases hset : 256 * j + i.toNat = 256 * (m + 1) + n
    · have hjm : j = m + 1 := by omega
      have hin : i.toNat = n := by omega
      rw [hset, setSlice, getD_set, if_pos ⟨rfl, by rw [h.length]; omega⟩, hentry i hin, hjm]
    · rw [hother _ hset]
      exact h.slices i j hj (by omega)

theorem Filled.row (hf : ByteStep f) {n : Nat} (h : Filled f n 0 ctx) (hn : n < 256) :
    Filled f (n + 1) 0 ((List.range 3).foldl (setSlice n) ctx) := by
  have hfull : Filled f n 3 ((List.range 3).foldl (setSlice n) ctx) :=
    ((h.step hf hn (by decide)).step hf hn (by decide)).step hf hn (by decide)
  refine ⟨hfull.length, hfull.bytes, fun i j hj hij => ?_⟩
  obtain hlt | ⟨-, hzero⟩ := hij
  · exact hfull.slices i j hj (by omega)
  · rw [Nat.le_zero.mp hzero, Nat.mul_zero, Nat.zero_add]
    exact hfull.bytes i

theorem Filled.rows (hf : ByteStep f) (h : Filled f 0 0 ctx) {n : Nat} (hn : n ≤ 256) :
    Filled f n 0 ((List.range n).foldl (fun ctx i => (List.range 3).foldl (setSlice i) ctx) ctx) := by
  induction n with
  | zero => exact h
  | succ n ih =>
      rw [@List.range_succ n, List.foldl_append, List.foldl_cons, List.foldl_nil]
      exact (ih (by omega)).row hf (by omega)

theorem Filled.all (hf : ByteStep f) (h : Filled f 0 0 ctx) : Filled f 256 0 (fillSlices ctx) := by
  rw [fillSlices]
  exact h.rows hf le_rfl

theorem avCrcInit_tables {configSmall le : Bool} {ctx ctx' : List AVCRC} {bits ctxSize : Int} {poly : BitVec 32}
    (hsize : ctxSize = 4 * ctx.length) (h : avCrcInit configSmall ctx le bits poly ctxSize = .ok ctx') :
    Tables configSmall (byteMap le bits.toNat poly) ctx' := by
  rw [avCrcInit] at h
  split at h
  · cases h
  split at h
  · cases h
  next hentries =>
    have hlong : 256 < ctx.length := by omega
    obtain ⟨hlength, hfilled⟩ := fillEntries_spec (crcEntry le bits.toNat poly) hlong
    generalize hmarked : (fillEntries (crcEntry le bits.toNat poly) ctx).set 256 1#32 = marked at h
    have hmarkedlength : marked.length = ctx.length := by rw [← hmarked, List.length_set, hlength]
    have hbytes (i : BitVec 8) : marked.getD i.toNat 0 = byteMap le bits.toNat poly (i.setWidth 32) := by
      have hi := i.isLt
      rw [← hmarked, getD_set, if_neg (by omega), hfilled _ (by omega), crcEntry_eq]
    split at h
    · next hlarge =>
        have hstart : Filled (byteMap le bits.toNat poly) 0 0 marked := by
          refine ⟨by omega, hbytes, fun i j _ hij => ?_⟩
          obtain hlt | ⟨-, hzero⟩ := hij
          · exact absurd hlt (Nat.not_lt_zero _)
          · rw [Nat.le_zero.mp hzero, Nat.mul_zero, Nat.zero_add]
            exact hbytes i
        have hall := hstart.all (byteMap_byteStep le bits.toNat poly)
        rw [← Except.ok.inj h]
        exact ⟨hall.bytes, fun _ _ j hj i => hall.slices i j hj (.inl i.isLt)⟩
    · next hsmall =>
        rw [← Except.ok.inj h]
        refine ⟨hbytes, fun hconfig hmark => ?_⟩
        -- a table of 257 entries keeps its mark
        have hone : marked.getD 256 0 = 1#32 := by
          rw [← hmarked, getD_set, if_pos ⟨rfl, by omega⟩]
        rw [hone] at hmark
        exact absurd hmark (by decide)

end Tables

section Loops

variable {configSmall : Bool} {f : BitVec 32 → BitVec 32} {ctx : List AVCRC} {crc : AVCRC}

def bytewise (f : BitVec 32 → BitVec 32) (crc : AVCRC) (buffer : List UInt8) : AVCRC :=
  buffer.foldl (fun c byte => f (c ^^^ byte.toBitVec.setWidth 32)) crc

theorem crcByte_eq (hf : ByteStep f) (h : Tables configSmall f ctx) (byte : UInt8) :
    crcByte ctx crc byte = f (crc ^^^ byte.toBitVec.setWidth 32) := by
  rw [crcByte, h.bytes, hf.update]

theorem fold_crcByte (hf : ByteStep f) (h : Tables configSmall f ctx) (buffer : List UInt8) :
    buffer.foldl (crcByte ctx) crc = bytewise f crc buffer := by
  induction buffer generalizing crc with
  | nil => rfl
  | cons byte buffer ih => rw [List.foldl_cons, crcByte_eq hf h, ih, bytewise, bytewise, List.foldl_cons]

theorem alignLoop_eq (hf : ByteStep f) (h : Tables configSmall f ctx) (address : Nat) (buffer : List UInt8) :
    bytewise f (alignLoop ctx address crc buffer).1 (alignLoop ctx address crc buffer).2 = bytewise f crc buffer := by
  induction buffer generalizing address crc with
  | nil => rfl
  | cons byte buffer ih =>
      rw [alignLoop]
      split
      · rw [ih, crcByte_eq hf h, bytewise, bytewise, List.foldl_cons]
      · rfl

theorem word_eq_pack (b0 b1 b2 b3 : BitVec 8) : (b3 ++ b2 ++ b1 ++ b0 : BitVec 32) = pack 32 [b0, b1, b2, b3] := by
  apply BitVec.eq_of_getLsbD_eq
  intro i hi
  rw [getLsbD_pack _ hi]
  have hbyte : i / 8 = 0 ∨ i / 8 = 1 ∨ i / 8 = 2 ∨ i / 8 = 3 := by omega
  obtain h | h | h | h := hbyte <;> rw [h] <;> simp only [BitVec.getLsbD_append] <;> grind

theorem pack_bytes (c : BitVec 32) :
    c = pack 32 [c.setWidth 8, (c >>> 8).setWidth 8, (c >>> 16).setWidth 8, (c >>> 24).setWidth 8] := by
  apply BitVec.eq_of_getLsbD_eq
  intro i hi
  rw [getLsbD_pack _ hi]
  have hbyte : i / 8 = 0 ∨ i / 8 = 1 ∨ i / 8 = 2 ∨ i / 8 = 3 := by omega
  obtain h | h | h | h := hbyte <;> rw [h] <;>
    simp only [List.getD_cons_succ, List.getD_cons_zero, BitVec.getLsbD_setWidth, BitVec.getLsbD_ushiftRight] <;> grind

theorem high_byte (x : BitVec 32) : (x >>> 24).toNat = ((x >>> 24).setWidth 8).toNat := by
  rw [BitVec.toNat_setWidth, BitVec.toNat_ushiftRight, Nat.shiftRight_eq_div_pow]
  exact (Nat.mod_eq_of_lt (by omega)).symm

theorem crcSlice_eq (hf : ByteStep f) (h : Tables false f ctx) (hmark : ctx.getD 256 0 = 0#32) (b0 b1 b2 b3 : UInt8) :
    crcSlice ctx crc b0 b1 b2 b3 = bytewise f crc [b0, b1, b2, b3] := by
  have hin := @ByteStep.iterate_pack 32 f crc hf [b0.toBitVec, b1.toBitVec, b2.toBitVec, b3.toBitVec] (le_refl 32)
  rw [← word_eq_pack] at hin
  rw [crcSlice]
  generalize crc ^^^ (b3.toBitVec ++ b2.toBitVec ++ b1.toBitVec ++ b0.toBitVec : BitVec 32) = word at hin ⊢
  have hout := @ByteStep.iterate_pack 32 f 0#32 hf
    [word.setWidth 8, (word >>> 8).setWidth 8, (word >>> 16).setWidth 8, (word >>> 24).setWidth 8] (le_refl 32)
  rw [← pack_bytes, BitVec.zero_xor] at hout
  have hslice := h.slices rfl hmark
  calc ctx.getD (3 * 256 + (word &&& 0xFF#32).toNat) 0 ^^^ ctx.getD (2 * 256 + (word >>> 8 &&& 0xFF#32).toNat) 0 ^^^
        ctx.getD (1 * 256 + (word >>> 16 &&& 0xFF#32).toNat) 0 ^^^ ctx.getD (0 * 256 + (word >>> 24).toNat) 0
      = f^[4] ((word.setWidth 8).setWidth 32) ^^^ f^[3] (((word >>> 8).setWidth 8).setWidth 32) ^^^
        f^[2] (((word >>> 16).setWidth 8).setWidth 32) ^^^ f^[1] (((word >>> 24).setWidth 8).setWidth 32) := by
        rw [low_byte, low_byte, low_byte, high_byte, ← hslice 3 (by decide), ← hslice 2 (by decide),
          ← hslice 1 (by decide), ← hslice 0 (by decide)]
    _ = f^[4] word := by
        simp only [List.foldl_cons, List.foldl_nil, hf.xor, hf.zero, BitVec.zero_xor] at hout
        exact hout.symm
    _ = bytewise f crc [b0, b1, b2, b3] := hin

theorem sliceLoop_eq (hf : ByteStep f) (h : Tables false f ctx) (hmark : ctx.getD 256 0 = 0#32)
    (buffer : List UInt8) :
    bytewise f (sliceLoop ctx crc buffer).1 (sliceLoop ctx crc buffer).2 = bytewise f crc buffer := by
  induction crc, buffer using sliceLoop.induct ctx with
  | case1 crc b0 b1 b2 b3 rest ih =>
      rw [sliceLoop, ih, crcSlice_eq hf h hmark]
      rfl
  | case2 crc rest hshort => rw [sliceLoop.eq_2 ctx crc rest hshort]

theorem avCrc_eq_bytewise (hf : ByteStep f) (h : Tables configSmall f ctx) (address : Nat) (buffer : List UInt8) :
    avCrc configSmall ctx address crc buffer = bytewise f crc buffer := by
  rw [avCrc]
  split
  · next hslices =>
      have hconfig : configSmall = false := by simpa using hslices.1
      subst hconfig
      rw [fold_crcByte hf h, sliceLoop_eq hf h hslices.2, alignLoop_eq hf h]
  · exact fold_crcByte hf h buffer

theorem bytewise_append (a b : List UInt8) : bytewise f (bytewise f crc a) b = bytewise f crc (a ++ b) :=
  (List.foldl_append).symm

end Loops

section Register

theorem bswap_eq (x : BitVec 32) : avBswap32 x = turned x.reverse := by
  rw [turned, BitVec.reverse_reverse_eq]

theorem bswap_bswap (x : BitVec 32) : avBswap32 (avBswap32 x) = x := by
  rw [bswap_eq, reverse_bswap, turned_turned]

theorem bswap_byteLeft (bits : Nat) (poly c : BitVec 32) (byte : BitVec 8) :
    avBswap32 ((highFirst byte).foldl (leftStep (poly <<< (32 - bits))) c) =
      byteMap false bits poly (avBswap32 c ^^^ byte.setWidth 32) := by
  have hturned : turned (avBswap32 c ^^^ byte.setWidth 32) = c.reverse ^^^ byte.reverse.setWidth 32 := by
    rw [turned_xor, bswap_eq, turned_turned, turned_byte]
  rw [byteMap, if_neg Bool.false_ne_true, hturned, bswap_eq, reverse_fold_left, highFirst_eq,
    fold_lowFirst _ (by decide)]

theorem shiftRegister_eq (le : Bool) (bits : Nat) (poly : BitVec 32) (crc : AVCRC) (buffer : List UInt8) :
    shiftRegister le bits poly crc buffer = bytewise (byteMap le bits poly) crc buffer := by
  cases le with
  | true =>
      rw [shiftRegister, if_pos rfl, bytewise]
      congr 1
      funext c byte
      exact fold_lowFirst byte.toBitVec (by decide)
  | false =>
      have hfold (c : AVCRC) : avBswap32 (buffer.foldl (fun c byte =>
          (highFirst byte.toBitVec).foldl (leftStep (poly <<< (32 - bits))) c) c) =
            bytewise (byteMap false bits poly) (avBswap32 c) buffer := by
        induction buffer generalizing c with
        | nil => rfl
        | cons byte buffer ih => rw [List.foldl_cons, ih, bswap_byteLeft, bytewise, bytewise, List.foldl_cons]
      rw [shiftRegister, if_neg Bool.false_ne_true, hfold, bswap_bswap]

theorem avCrcInit_ok (configSmall le : Bool) {ctx : List AVCRC} {bits : Nat} {poly : BitVec 32}
    (hbits : 8 ≤ bits ∧ bits ≤ 32) (hpoly : poly.toNat < 2 ^ bits) (hsize : ctx.length = 257 ∨ ctx.length = 1024) :
    ∃ ctx', avCrcInit configSmall ctx le bits poly (4 * ctx.length) = .ok ctx' := by
  rw [avCrcInit, if_neg (by rw [Int.toNat_natCast]; omega), if_neg (by omega)]
  exact ⟨_, rfl⟩

/-- A checksum is the shift register's, for every table, alignment and split. -/
theorem crc_is_shift_register (configSmall le : Bool) (ctx : List AVCRC) (bits : Nat) (poly : BitVec 32)
    (hbits : 8 ≤ bits ∧ bits ≤ 32) (hpoly : poly.toNat < 2 ^ bits) (hsize : ctx.length = 257 ∨ ctx.length = 1024) :
    ∃ table, avCrcInit configSmall ctx le bits poly (4 * ctx.length) = .ok table ∧
      (∀ address crc buffer, avCrc configSmall table address crc buffer = shiftRegister le bits poly crc buffer) ∧
      ∀ address next crc a b, avCrc configSmall table next (avCrc configSmall table address crc a) b =
        avCrc configSmall table address crc (a ++ b) := by
  obtain ⟨table, htable⟩ := avCrcInit_ok configSmall le hbits hpoly hsize
  have htables := avCrcInit_tables rfl htable
  rw [Int.toNat_natCast] at htables
  have hmap := byteMap_byteStep le bits poly
  refine ⟨table, htable, fun address crc buffer => ?_, fun address next crc a b => ?_⟩
  · rw [avCrc_eq_bytewise hmap htables, shiftRegister_eq]
  · rw [avCrc_eq_bytewise hmap htables, avCrc_eq_bytewise hmap htables, avCrc_eq_bytewise hmap htables,
      bytewise_append]

theorem crc_is_shift_register_ieee : ∃ table,
    avCrcInit false (List.replicate 1024 0) false 32 0x04C11DB7#32 4096 = .ok table ∧
      avCrc false table 3 0 [1, 2, 3] = shiftRegister false 32 0x04C11DB7#32 0 [1, 2, 3] := by
  obtain ⟨table, htable, hcrc, -⟩ := crc_is_shift_register false false (List.replicate 1024 0) 32 0x04C11DB7#32
    (by decide) (by decide) (.inr List.length_replicate)
  rw [List.length_replicate] at htable
  exact ⟨table, htable, hcrc 3 0 [1, 2, 3]⟩

end Register

end P2PFFmpeg.Util
