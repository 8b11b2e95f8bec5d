import P2PFFmpeg.Library.Transition
import P2PFFmpeg.Util.BPrint
import P2PFFmpeg.Util.Error
import P2PFFmpeg.Util.FifoQueue

namespace P2PFFmpeg.Util

open Library Library.Transition

inductive AVSampleFormat
  | u8 | s16 | s32 | flt | dbl | u8p | s16p | s32p | fltp | dblp | s64 | s64p
deriving DecidableEq, Repr

def avGetBytesPerSample : AVSampleFormat → Nat
  | .u8 | .u8p => 1
  | .s16 | .s16p => 2
  | .s32 | .s32p | .flt | .fltp => 4
  | .dbl | .dblp | .s64 | .s64p => 8

def avSampleFmtIsPlanar : AVSampleFormat → Bool
  | .u8p | .s16p | .s32p | .fltp | .dblp | .s64p => true
  | .u8 | .s16 | .s32 | .flt | .dbl | .s64 => false

/-- The size of the buffer of one plane, with the alignment 1; `none` when the
arguments are refused. -/
def avSamplesGetBufferSize (nbChannels nbSamples : Nat) (sampleFmt : AVSampleFormat) : Option Nat :=
  let sampleSize := avGetBytesPerSample sampleFmt
  if nbSamples = 0 ∨ nbChannels = 0 then none
  else if nbChannels > intMax ∨ nbChannels * nbSamples > (intMax - nbChannels) / sampleSize then none
  else if avSampleFmtIsPlanar sampleFmt then some (nbSamples * sampleSize)
  else some (nbSamples * sampleSize * nbChannels)

/-- `nbBuffers` is the length of `buf`. -/
structure AVAudioFifo where
  buf : List (AVFifo UInt8)
  nbSamples : Nat
  allocatedSamples : Nat
  channels : Nat
  sampleFmt : AVSampleFormat
  sampleSize : Nat

def nbBuffers (sampleFmt : AVSampleFormat) (channels : Nat) : Nat :=
  if avSampleFmtIsPlanar sampleFmt then channels else 1

/-- The allocations succeed. -/
def avAudioFifoAlloc (sampleFmt : AVSampleFormat) (channels nbSamples : Nat) : Option AVAudioFifo :=
  (avSamplesGetBufferSize channels nbSamples sampleFmt).map fun bufSize =>
    { buf := List.replicate (nbBuffers sampleFmt channels) (avFifoAlloc2 bufSize 1 false)
      nbSamples := 0
      allocatedSamples := nbSamples
      channels := channels
      sampleFmt := sampleFmt
      sampleSize := bufSize / nbSamples }

/-- The loop that grows the buffers; `memory` tells for which of them memory can be had. -/
def growBuffers (inc : Nat) (memory : Nat → Bool) : Nat → List (AVFifo UInt8) → Int × List (AVFifo UInt8)
  | _, [] => (0, [])
  | i, f :: fs =>
      let (ret, f) := avFifoGrow2 f inc (memory i)
      if ret < 0 then (ret, f :: fs)
      else
        let (ret, fs) := growBuffers inc memory (i + 1) fs
        (ret, f :: fs)

def AVAudioFifo.curSize (af : AVAudioFifo) : Nat :=
  match af.buf with
  | [] => 0
  | f :: _ => avFifoCanRead f + avFifoCanWrite f

def avAudioFifoRealloc (af : AVAudioFifo) (nbSamples : Nat) (memory : Nat → Bool) : Int × AVAudioFifo :=
  match avSamplesGetBufferSize af.channels nbSamples af.sampleFmt with
  | none => (-22, af)
  | some bufSize =>
      let (ret, buf) :=
        if bufSize > af.curSize then growBuffers (bufSize - af.curSize) memory 0 af.buf else (0, af.buf)
      let af := { af with buf := buf }
      if ret < 0 then (ret, af) else (0, { af with allocatedSamples := nbSamples })

def bytesAt (p : Nat → UInt8) (size : Nat) : List UInt8 := (List.range size).map p

def writeBuffers (data : Nat → Nat → UInt8) (size : Nat) :
    Nat → List (AVFifo UInt8) → Int × List (AVFifo UInt8)
  | _, [] => (0, [])
  | i, f :: fs =>
      let (ret, f) := avFifoWrite f (bytesAt (data i) size) true
      if ret < 0 then (averrorBug, f :: fs)
      else
        let (ret, fs) := writeBuffers data size (i + 1) fs
        (ret, f :: fs)

def avAudioFifoSpace (af : AVAudioFifo) : Int := af.allocatedSamples - af.nbSamples

def writeSamples (af : AVAudioFifo) (data : Nat → Nat → UInt8) (nbSamples : Nat) : Int × AVAudioFifo :=
  let (ret, buf) := writeBuffers data (nbSamples * af.sampleSize) 0 af.buf
  let af := { af with buf := buf }
  if ret < 0 then (ret, af) else (nbSamples, { af with nbSamples := af.nbSamples + nbSamples })

/-- How many samples a write reallocates for; an error when it may not. -/
def AVAudioFifo.wanted (af : AVAudioFifo) (nbSamples : Nat) : Except Int (Option Nat) :=
  if avAudioFifoSpace af < nbSamples then
    if ((intMax / 2 : Nat) : Int) - af.nbSamples < nbSamples then .error (-22)
    else .ok (some (2 * (af.nbSamples + nbSamples)))
  else .ok none

def avAudioFifoWrite (af : AVAudioFifo) (data : Nat → Nat → UInt8) (nbSamples : Nat)
    (memory : Nat → Bool) : Int × AVAudioFifo :=
  match af.wanted nbSamples with
  | .error err => (err, af)
  | .ok none => writeSamples af data nbSamples
  | .ok (some wanted) =>
      let (ret, af) := avAudioFifoRealloc af wanted memory
      if ret < 0 then (ret, af) else writeSamples af data nbSamples

def peekBuffers (size offset : Nat) : List (AVFifo UInt8) → Int × List (List (Option UInt8))
  | [] => (0, [])
  | f :: fs =>
      let (ret, bytes) := fifoPeekCommon f size offset
      if ret < 0 then (averrorBug, [])
      else
        let (ret, rest) := peekBuffers size offset fs
        (ret, bytes :: rest)

def avAudioFifoPeekAt (af : AVAudioFifo) (nbSamples offset : Int) : Int × List (List (Option UInt8)) :=
  if offset < 0 ∨ offset ≥ af.nbSamples then (-22, [])
  else if nbSamples < 0 then (-22, [])
  else
    let n := min nbSamples.toNat af.nbSamples
    if n = 0 then (0, [])
    else if offset > af.nbSamples - n then (-22, [])
    else
      let (ret, data) := peekBuffers (n * af.sampleSize) (offset.toNat * af.sampleSize) af.buf
      if ret < 0 then (ret, data) else (n, data)

def readBuffers (size : Nat) :
    List (AVFifo UInt8) → Int × List (List (Option UInt8)) × List (AVFifo UInt8)
  | [] => (0, [], [])
  | f :: fs =>
      let (ret, bytes, f) := avFifoRead f size
      if ret < 0 then (averrorBug, [], f :: fs)
      else
        let (ret, rest, fs) := readBuffers size fs
        (ret, bytes :: rest, f :: fs)

def avAudioFifoRead (af : AVAudioFifo) (nbSamples : Int) :
    Int × List (List (Option UInt8)) × AVAudioFifo :=
  if nbSamples < 0 then (-22, [], af)
  else
    let n := min nbSamples.toNat af.nbSamples
    if n = 0 then (0, [], af)
    else
      let (ret, data, buf) := readBuffers (n * af.sampleSize) af.buf
      let af := { af with buf := buf }
      if ret < 0 then (ret, data, af) else (n, data, { af with nbSamples := af.nbSamples - n })

/-- `none` when an assertion of `av_fifo_drain2` fails. -/
def avAudioFifoDrain (af : AVAudioFifo) (nbSamples : Int) : Option (Int × AVAudioFifo) :=
  if nbSamples < 0 then some (-22, af)
  else
    let n := min nbSamples.toNat af.nbSamples
    if n = 0 then some (0, af)
    else if af.buf.all fun f => n * af.sampleSize ≤ avFifoCanRead f then
      some (0, { af with
        buf := af.buf.map fun f => avFifoDrain2 f (n * af.sampleSize)
        nbSamples := af.nbSamples - n })
    else none

def avAudioFifoReset (af : AVAudioFifo) : AVAudioFifo :=
  { af with buf := af.buf.map avFifoReset2, nbSamples := 0 }

/-- A call; `memory` tells for which of the buffers memory can be had. -/
inductive AudioOp
  | write (data : Nat → Nat → UInt8) (nbSamples : Nat) (memory : Nat → Bool)
  | read (nbSamples : Int)
  | peekAt (nbSamples offset : Int)
  | drain (nbSamples : Int)
  | realloc (nbSamples : Nat) (memory : Nat → Bool)
  | reset

structure AudioAnswer where
  ret : Int
  data : List (List (Option UInt8))

/-- One call; `none` when its assertion fails. -/
def audioStep (af : AVAudioFifo) : AudioOp → Option (AudioAnswer × AVAudioFifo)
  | .write data nbSamples memory =>
      let written := avAudioFifoWrite af data nbSamples memory
      some (⟨written.1, []⟩, written.2)
  | .read nbSamples =>
      let read := avAudioFifoRead af nbSamples
      some (⟨read.1, read.2.1⟩, read.2.2)
  | .peekAt nbSamples offset =>
      let peeked := avAudioFifoPeekAt af nbSamples offset
      some (⟨peeked.1, peeked.2⟩, af)
  | .drain nbSamples => (avAudioFifoDrain af nbSamples).map fun drained => (⟨drained.1, []⟩, drained.2)
  | .realloc nbSamples memory =>
      let grown := avAudioFifoRealloc af nbSamples memory
      some (⟨grown.1, []⟩, grown.2)
  | .reset => some (⟨0, []⟩, avAudioFifoReset af)

def audioFifo (sampleFmt : AVSampleFormat) (channels nbSamples : Nat) : System AVAudioFifo AudioOp where
  init af := avAudioFifoAlloc sampleFmt channels nbSamples = some af
  next af op := (audioStep af op).map Prod.snd

end P2PFFmpeg.Util
