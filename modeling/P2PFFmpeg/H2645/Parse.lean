import P2PFFmpeg.Bits.GetBits
import P2PFFmpeg.Bits.PutBits
import P2PFFmpeg.Util.Error

/-!
The splitting of a packet of H.264, H.265 or H.266 into units. A buffer is read as its
bytes with the padding behind them; allocations succeed. The contents of a unit are a
list, and the bytes behind them are not looked at. Of a fragment of coded units, the bits
of padding are not modelled.
-/

namespace P2PFFmpeg.H2645

open Bits Library.Scan Payload Util

inductive Codec
  | h264
  | hevc
  | vvc
deriving DecidableEq

/-- `HAVE_FAST_UNALIGNED`, `HAVE_FAST_64BIT` and the byte order. -/
inductive ScanBuild
  | bytes
  | words32 (bigEndian : Bool)
  | words64 (bigEndian : Bool)

/-- The reading of one unit. -/
structure H2645NAL where
  data : List UInt8
  rawSize : Nat
  sizeBits : Int
  type : Nat
  refIdc : Nat
  temporalId : Int
  nuhLayerId : Nat
  skippedBytesPos : List Nat
deriving DecidableEq

/-- `STARTCODE_TEST`: the length when the loop is left. -/
def startcodeTest (src : List UInt8) (length i : Nat) : Option Nat :=
  if i + 2 < length ∧ byteAt src (i + 1) = 0 ∧ byteAt src (i + 2) ≤ 3 then
    some (if byteAt src (i + 2) ≠ 3 ∧ byteAt src (i + 2) ≠ 0 then i else length)
  else none

/-- `FIND_FIRST_ZERO` -/
def findFirstZero (src : List UInt8) (i : Nat) : Nat :=
  first (fun k => byteAt src k = 0) (if i > 0 ∧ byteAt src i = 0 then i - 1 else i) src.length

/-- A word of `n` bytes in the order of the machine. -/
def readWord (be : Bool) (n : Nat) (src : List UInt8) (i : Nat) : Nat :=
  let bytes := (List.range n).map fun j => byteAt src (i + j)
  bigEndian (if be then bytes else bytes.reverse)

/-- `(~x & (x - ones)) & mask` of a word -/
def zeroBytes (n : Nat) (x ones mask : Nat) : BitVec (8 * n) :=
  (~~~BitVec.ofNat (8 * n) x &&& (BitVec.ofNat (8 * n) x - BitVec.ofNat (8 * n) ones)) &&&
    BitVec.ofNat (8 * n) mask

/-- The loop over words: their size, the constants, the stride, and what the last line
of the body takes back. -/
structure WordScan where
  size : Nat
  ones : Nat
  mask : Nat
  stride : Nat
  back : Nat

def scan64 : WordScan := ⟨8, 0x0100010001000101, 0x8000800080008080, 9, 7⟩
def scan32 : WordScan := ⟨4, 0x01000101, 0x80008080, 5, 3⟩

def scanWords (p : WordScan) (be : Bool) (src : List UInt8) (length : Nat) : Nat → Nat → Option (Nat × Nat)
  | 0, _ => none
  | fuel + 1, i =>
      if i + 1 < length then
        if zeroBytes p.size (readWord be p.size src i) p.ones p.mask = 0 then
          scanWords p be src length fuel (i + p.stride)
        else
          let i := findFirstZero src i
          match startcodeTest src length i with
          | some length => some (i, length)
          | none => scanWords p be src length fuel (i + p.stride - p.back)
      else some (i, length)

def scanBytes (src : List UInt8) (length : Nat) : Nat → Nat → Option (Nat × Nat)
  | 0, _ => none
  | fuel + 1, i =>
      if i + 1 < length then
        if byteAt src i ≠ 0 then scanBytes src length fuel (i + 2)
        else
          let i := if i > 0 ∧ byteAt src (i - 1) = 0 then i - 1 else i
          match startcodeTest src length i with
          | some length => some (i, length)
          | none => scanBytes src length fuel (i + 2)
      else some (i, length)

def scan (b : ScanBuild) (src : List UInt8) (length : Nat) : Option (Nat × Nat) :=
  match b with
  | .bytes => scanBytes src length (length + 1) 0
  | .words32 be => scanWords scan32 be src length (length + 1) 0
  | .words64 be => scanWords scan64 be src length (length + 1) 0

/-- The removal of the escapes: what is written behind the first `di` bytes, how many bytes
are consumed, and the positions of the bytes left out. -/
def removeEscapes (di : Nat) : List UInt8 → List UInt8 × Nat × List Nat
  | a :: b :: c :: rest =>
      if c > 3 then
        let (dst, si, skipped) := removeEscapes (di + 2) (c :: rest)
        (a :: b :: dst, si + 2, skipped)
      else if a = 0 ∧ b = 0 ∧ c ≠ 0 then
        if c = 3 then
          let (dst, si, skipped) := removeEscapes (di + 2) rest
          (0 :: 0 :: dst, si + 3, (di + 1) :: skipped)
        else ([], 0, [])
      else
        let (dst, si, skipped) := removeEscapes (di + 1) (b :: c :: rest)
        (a :: dst, si + 1, skipped)
  | src => (src, src.length, [])

/-- The unit with its contents, and the bytes consumed. -/
def ffH2645ExtractRbsp (b : ScanBuild) (src : List UInt8) (length : Nat) (nal : H2645NAL)
    (smallPadding : Bool) : Option (Nat × H2645NAL) :=
  (scan b src length).map fun (i, length) =>
    if i + 1 ≥ length ∧ smallPadding then
      (length, { nal with data := src.take length, rawSize := length, skippedBytesPos := [] })
    else
      let i := min i length
      let (dst, si, skipped) := removeEscapes i ((src.take length).drop i)
      (i + si, { nal with data := src.take i ++ dst, rawSize := i + si, skippedBytesPos := skipped })

/-- With `INT_MAX / 8` as the largest size. -/
def getBitLength (data : List UInt8) (minSize : Nat) (skipTrailingZeros : Bool) : Int :=
  let size := if skipTrailingZeros then (data.reverse.dropWhile (· = 0)).length else data.length
  if size = 0 then 0
  else if size ≤ minSize ∧ data.length < minSize then averrorInvaliddata
  else
    let trailingPadding :=
      if size ≤ minSize then 0
      else
        let v := (byteAt data (size - 1)).toNat
        if v ≠ 0 then first (fun k => v.testBit k) 0 8 + 1 else 0
    let size := if size ≤ minSize then minSize else size
    if size > intMax / 8 then -34 else (size * 8 : Nat) - (trailingPadding : Int)

/-- The bits of the header, the forbidden one first; `none` is `AVERROR_INVALIDDATA`. -/
def parseNalHeader (rb : ReaderBuild) (codec : Codec) (gb : GetBitContext) (nal : H2645NAL) :
    Option H2645NAL :=
  let (forbidden, gb) := getBits1 rb gb
  if forbidden ≠ 0 then none
  else
    match codec with
    | .vvc =>
        let gb := skipBitsLong rb 1 gb
        let (nuhLayerId, gb) := getBits rb 6 gb
        let (type, gb) := getBits rb 5 gb
        let temporalId : Int := (getBits rb 3 gb).1 - 1
        if temporalId < 0 ∨ 7 ≤ type ∧ type ≤ 11 ∧ temporalId ≠ 0 then none
        else some { nal with type, nuhLayerId, temporalId }
    | .hevc =>
        let (type, gb) := getBits rb 6 gb
        let (nuhLayerId, gb) := getBits rb 6 gb
        let temporalId : Int := (getBits rb 3 gb).1 - 1
        if temporalId < 0 then none else some { nal with type, nuhLayerId, temporalId }
    | .h264 =>
        let (refIdc, gb) := getBits rb 2 gb
        some { nal with refIdc, type := (getBits rb 5 gb).1 }

def H2645NAL.zero : H2645NAL := ⟨[], 0, 0, 0, 0, 0, 0, []⟩

def findNextStartCode (buf : List UInt8) (limit : Int) : Int :=
  if 3 ≥ limit then limit
  else (first (startCodeAt buf) 0 (limit - 3).toNat : Nat) + 3

/-- `bytestream2_skip`, with an unsigned number of bytes. -/
def bytestream2Skip (length tell : Nat) (size : Int) : Nat :=
  if size < 0 then length else min length (tell + size.toNat)

def getNalsize (nalLengthSize : Nat) (buf : List UInt8) (bufSize : Nat) : Int :=
  if (0 : Int) ≥ bufSize - nalLengthSize then averrorInvaliddata
  else
    let nalsize := toInt (bigEndian (buf.take nalLengthSize))
    if nalsize ≤ 0 ∨ nalsize > bufSize - nalLengthSize then averrorInvaliddata else nalsize

/-- What the loop does with a unit that begins at `tell`: where it goes on, and the unit if it
is kept. -/
def splitUnit (b : ScanBuild) (rb : ReaderBuild) (codec : Codec) (mem : List UInt8)
    (length tell extractLength : Nat) (smallPadding : Bool) :
    Option (Except Int (Nat × Option H2645NAL)) :=
  (ffH2645ExtractRbsp b (mem.drop tell) extractLength H2645NAL.zero smallPadding).map fun (consumed, nal) =>
    let tell := bytestream2Skip length tell consumed
    let skipTrailingZeros := ¬ (length - tell ≥ 4 ∧ bigEndian ((mem.drop tell).take 4) = 0x000001e0)
    let sizeBits := getBitLength nal.data (1 + if codec = .hevc then 1 else 0) skipTrailingZeros
    let nal := { nal with sizeBits }
    if nal.data.length = 0 ∨ sizeBits ≤ 0 then .ok (tell, none)
    else
      let (ret, gb) := initGetBits nal.data sizeBits.toNat
      if ret < 0 then .error ret else .ok (tell, parseNalHeader rb codec gb nal)

/-- How a turn of the loop begins: with the end of the packet, a position behind which it
goes on, or a unit and the position of the next length. -/
inductive Turn
  | stop (ret : Int)
  | skip (tell : Nat)
  | unit (nextAvc tell extractLength : Nat)

def nextUnit (nalLengthSize : Nat) (mem : List UInt8) (length nextAvc tell : Nat) (found : Bool) : Turn :=
  if tell = nextAvc then
    let extractLength := getNalsize nalLengthSize (mem.drop tell) (length - tell)
    if extractLength < 0 then .stop extractLength
    else
      let tell := bytestream2Skip length tell nalLengthSize
      .unit (tell + extractLength.toNat) tell extractLength.toNat
  else
    let tell := bytestream2Skip length tell (findNextStartCode (mem.drop tell) (nextAvc - tell))
    if length - tell = 0 then .stop (if found then 0 else averrorInvaliddata)
    else if tell ≥ nextAvc then .skip (bytestream2Skip length tell (nextAvc - tell))
    else .unit nextAvc tell (min (length - tell) (nextAvc - tell))

/-- With pointers of eight bytes. -/
def sizeofH2645NAL : Nat := 96

/-- The loop; `nals` are the units so far. -/
def splitLoop (b : ScanBuild) (rb : ReaderBuild) (codec : Codec) (nalLengthSize : Nat) (mem : List UInt8)
    (length : Nat) (smallPadding : Bool) :
    Nat → Nat → Nat → List H2645NAL → Option (Except Int (List H2645NAL))
  | 0, _, _, _ => none
  | fuel + 1, nextAvc, tell, nals =>
      if length - tell ≥ 4 then
        match nextUnit nalLengthSize mem length nextAvc tell (nals ≠ []) with
        | .stop ret => some (if ret < 0 then .error ret else .ok nals)
        | .skip tell => splitLoop b rb codec nalLengthSize mem length smallPadding fuel nextAvc tell nals
        | .unit nextAvc tell extractLength =>
            -- behind a unit that was dropped its memory is used again, which has passed this test
            if nals.length + 1 ≥ intMax / sizeofH2645NAL then some (.error averrorEnomem)
            else
              (splitUnit b rb codec mem length tell extractLength smallPadding).bind fun
              | .error ret => some (.error ret)
              | .ok (tell, nal) =>
                  splitLoop b rb codec nalLengthSize mem length smallPadding fuel nextAvc tell
                    (nals ++ nal.toList)
      else some (.ok nals)

def avInputBufferPaddingSize : Nat := 64
def maxMbpairSize : Nat := 256 * 1024

/-- `padding` are the bytes behind the packet. -/
def ffH2645PacketSplit (b : ScanBuild) (rb : ReaderBuild) (codec : Codec) (buf padding : List UInt8)
    (isNalff : Bool) (nalLengthSize : Nat) (smallPadding : Bool) : Option (Except Int (List H2645NAL)) :=
  if buf.length + (if smallPadding then 0 else maxMbpairSize) > intMax - avInputBufferPaddingSize then
    some (.error averrorEnomem)
  else
    splitLoop b rb codec nalLengthSize (buf ++ padding) buf.length smallPadding (buf.length + 1)
      (if isNalff then 0 else buf.length) 0 []

structure CodedBitstreamUnit where
  type : Nat
  data : List UInt8
deriving DecidableEq

/-- A zero byte before the start code. -/
def cbsH2645UnitRequiresZeroByte (codec : Codec) (type nalUnitIndex : Nat) : Bool :=
  if nalUnitIndex = 0 then true
  else
    match codec with
    | .h264 => type = 7 ∨ type = 8
    | .hevc => type = 32 ∨ type = 33 ∨ type = 34
    | .vvc => 12 ≤ type ∧ type ≤ 18

def preventEmulation : Nat → List UInt8 → List UInt8
  | _, [] => []
  | zeroRun, b :: rest =>
      if zeroRun < 2 then b :: preventEmulation (if b = 0 then zeroRun + 1 else 0) rest
      else
        (if b &&& 0xfc = 0 then [3] else []) ++ b :: preventEmulation (if b = 0 then 1 else 0) rest

def assembleUnits (codec : Codec) : Nat → List CodedBitstreamUnit → List UInt8
  | _, [] => []
  | i, unit :: rest =>
      (if cbsH2645UnitRequiresZeroByte codec unit.type i then [0] else []) ++ [0, 0, 1] ++
        preventEmulation 0 unit.data ++ assembleUnits codec (i + 1) rest

def maxSize (units : List CodedBitstreamUnit) : Nat :=
  (units.map fun unit => 4 + unit.data.length * 3 / 2).sum

/-- `none` is a failed assertion: the bytes did not fit. -/
def cbsH2645AssembleFragment (codec : Codec) (units : List CodedBitstreamUnit) : Option (List UInt8) :=
  let data := assembleUnits codec 0 units
  if data.length ≤ maxSize units then some data else none

def removeTrailingZeros (data : List UInt8) : List UInt8 := (data.reverse.dropWhile (· = 0)).reverse

def cbsH2645FragmentAddNals (codec : Codec) : List H2645NAL → List CodedBitstreamUnit
  | [] => []
  | nal :: nals =>
      if codec ≠ .vvc ∧ nal.nuhLayerId > 0 then cbsH2645FragmentAddNals codec nals
      else
        let data := removeTrailingZeros nal.data
        if data.length = 0 then cbsH2645FragmentAddNals codec nals
        else ⟨nal.type, data⟩ :: cbsH2645FragmentAddNals codec nals

end P2PFFmpeg.H2645
