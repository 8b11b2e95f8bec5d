import P2PFFmpeg.Library.ByteFile
import P2PFFmpeg.Util.Error
import Mathlib.Algebra.Group.Int.Defs

/-!
Buffered reading and writing. Positions in the buffer are indices; a call that would
write outside of it, or not return, gives `none`.
-/

namespace P2PFFmpeg.Avio

open Library.ByteFile

def ioBufferSize : Nat := 32768
/-- The resource behind the callbacks. The write or seek that is call number `n` fails
when `fails n` says so; the read gives `chunk n` bytes, but at least one, unless it is at
the end of the file. -/
structure Backend where
  file : List UInt8
  cursor : Nat
  calls : Nat
  fails : Nat → Bool
  chunk : Nat → Nat

/-- `none` is `AVERROR_EOF`. -/
def Backend.readPacket (io : Backend) (size : Nat) : Option (List UInt8) × Backend :=
  if io.file.length ≤ io.cursor then (none, { io with calls := io.calls + 1 })
  else
    let data := (io.file.drop io.cursor).take (max 1 (min (io.chunk io.calls) size))
    (some data, { io with cursor := io.cursor + data.length, calls := io.calls + 1 })

def Backend.writePacket (io : Backend) (data : List UInt8) : Int × Backend :=
  if io.fails io.calls then (averrorEio, { io with calls := io.calls + 1 })
  else
    (data.length, { io with
      file := pwrite io.file io.cursor data
      cursor := io.cursor + data.length
      calls := io.calls + 1 })

def Backend.seek (io : Backend) (offset : Int) : Int × Backend :=
  if offset < 0 ∨ io.fails io.calls then (averrorEio, { io with calls := io.calls + 1 })
  else (offset, { io with cursor := offset.toNat, calls := io.calls + 1 })

/-- The callbacks that read and write are set; `seek` says whether the one that seeks is.
`shortSeek` is the threshold, or what `short_seek_get` answers if that is more. -/
structure AVIOContext where
  buffer : List UInt8
  bufPtr : Nat
  bufPtrMax : Nat
  bufEnd : Nat
  pos : Int
  eofReached : Bool
  error : Int
  writeFlag : Bool
  direct : Bool
  seek : Bool
  seekable : Bool
  updateChecksum : Bool
  maxPacketSize : Nat
  shortSeek : Int
  io : Backend

def shortSeekThreshold : Int := 32768

def ffioInitContext (buffer : List UInt8) (writeFlag seek : Bool) (io : Backend) : AVIOContext where
  buffer
  bufPtr := 0
  bufPtrMax := 0
  bufEnd := if writeFlag then buffer.length else 0
  pos := 0
  eofReached := false
  error := 0
  writeFlag
  direct := false
  seek
  seekable := seek
  updateChecksum := false
  maxPacketSize := 0
  shortSeek := shortSeekThreshold
  io

def writeout (s : AVIOContext) (data : List UInt8) : AVIOContext :=
  let s :=
    if s.error = 0 then
      let r := s.io.writePacket data
      if r.1 < 0 then { s with io := r.2, error := r.1 } else { s with io := r.2 }
    else s
  { s with pos := s.pos + data.length }

def flushBuffer (s : AVIOContext) : AVIOContext :=
  let s := { s with bufPtrMax := max s.bufPtr s.bufPtrMax }
  let s := if s.writeFlag ∧ s.bufPtrMax > 0 then writeout s (s.buffer.take s.bufPtrMax) else s
  { s with bufPtr := 0, bufPtrMax := 0, bufEnd := if s.writeFlag then s.bufEnd else 0 }

/-- Bytes are copied to `buf_ptr`, which moves behind them. -/
def AVIOContext.store (s : AVIOContext) (data : List UInt8) : Option AVIOContext :=
  if s.bufPtr + data.length ≤ s.buffer.length then
    some { s with buffer := pwrite s.buffer s.bufPtr data, bufPtr := s.bufPtr + data.length }
  else none

def flushIfFull (s : AVIOContext) : AVIOContext :=
  if s.bufPtr ≥ s.bufEnd then flushBuffer s else s

def avioW8 (s : AVIOContext) (b : UInt8) : Option AVIOContext :=
  (s.store [b]).map flushIfFull

def fillLoop : Nat → AVIOContext → UInt8 → Int → Option AVIOContext
  | 0, s, _, count => if count > 0 then none else some s
  | fuel + 1, s, b, count =>
      if count > 0 then
        let len := min ((s.bufEnd : Int) - s.bufPtr) count
        (s.store (List.replicate len.toNat b)).bind fun s =>
          fillLoop fuel (flushIfFull s) b (count - len)
      else some s

def ffioFill (s : AVIOContext) (b : UInt8) (count : Int) : Option AVIOContext :=
  fillLoop count.toNat s b count

def writeLoop : Nat → AVIOContext → List UInt8 → Option AVIOContext
  | 0, _, _ => none
  | fuel + 1, s, buf =>
      let len := min (s.bufEnd - s.bufPtr) buf.length
      (s.store (buf.take len)).bind fun s =>
        if (buf.drop len).length > 0 then writeLoop fuel (flushIfFull s) (buf.drop len)
        else some (flushIfFull s)

def fillBuffer (s : AVIOContext) : AVIOContext :=
  let maxBufferSize := if s.maxPacketSize ≠ 0 then s.maxPacketSize else ioBufferSize
  let dst := if s.bufEnd + maxBufferSize ≤ s.buffer.length then s.bufEnd else 0
  let len := s.buffer.length - dst
  if s.eofReached then s
  else
    match s.io.readPacket len with
    | (none, io) => { s with io, eofReached := true }
    | (some data, io) =>
        { s with
          io
          buffer := pwrite s.buffer dst data
          pos := s.pos + data.length
          bufPtr := dst
          bufEnd := dst + data.length }

def fillUntil : Nat → AVIOContext → Int → Option AVIOContext
  | 0, _, _ => none
  | fuel + 1, s, offset =>
      if s.pos < offset ∧ s.eofReached = false then fillUntil fuel (fillBuffer s) offset else some s

inductive Whence
  | set
  | cur

def AVIOContext.bufferPos (s : AVIOContext) : Int :=
  s.pos - if s.writeFlag then 0 else (s.bufEnd : Int)

/-- `avio_seek` from where the offset is absolute; the depth bounds its recursion. -/
def avioSeekTo : Nat → AVIOContext → Int → Option (Int × AVIOContext)
  | 0, _, _ => none
  | depth + 1, s, offset =>
      if offset < 0 then some (averrorEinval, s)
      else
        let bufferSize : Int := s.bufEnd
        let pos := s.bufferPos
        let offset1 := offset - pos
        let s := { s with bufPtrMax := max s.bufPtrMax s.bufPtr }
        if (s.direct = false ∨ s.seek = false) ∧ offset1 ≥ 0 ∧
            offset1 ≤ (if s.writeFlag then (s.bufPtrMax : Int) else bufferSize) then
          some (offset, { s with bufPtr := offset1.toNat, eofReached := false })
        else if (s.seekable = false ∨ offset1 ≤ bufferSize + s.shortSeek) ∧ s.writeFlag = false ∧
            offset1 ≥ 0 ∧ (s.direct = false ∨ s.seek = false) then
          (fillUntil ((offset - s.pos).toNat + 1) s offset).map fun s =>
            if s.eofReached then (averrorEof, s)
            else
              (offset, { s with
                bufPtr := ((s.bufEnd : Int) - (s.pos - offset)).toNat
                eofReached := false })
        else if s.writeFlag = false ∧ offset1 < 0 ∧ -offset1 < bufferSize / 2 ∧ s.seek = true ∧
            offset > 0 then
          let pos := pos - min (bufferSize / 2) pos
          let r := s.io.seek pos
          if r.1 < 0 then some (r.1, { s with io := r.2 })
          else
            avioSeekTo depth (fillBuffer { s with
              io := r.2
              bufEnd := 0
              bufPtr := 0
              pos
              eofReached := false }) offset
        else
          let s := if s.writeFlag then flushBuffer s else s
          if s.seek = false then some (averrorEpipe, s)
          else
            let r := s.io.seek offset
            if r.1 < 0 then some (r.1, { s with io := r.2 })
            else
              some (offset, { s with
                io := r.2
                bufEnd := if s.writeFlag then s.bufEnd else 0
                bufPtr := 0
                bufPtrMax := 0
                pos := offset
                eofReached := false })

def seekDepth : Nat := 2

def avioSeek (s : AVIOContext) (offset : Int) : Whence → Option (Int × AVIOContext)
  | .set => avioSeekTo seekDepth s offset
  | .cur =>
      let offset1 := s.bufferPos + s.bufPtr
      if offset = 0 then some (offset1, s)
      else if offset > int64Max - offset1 then some (averrorEinval, s)
      else avioSeekTo seekDepth s (offset + offset1)

def avioTell (s : AVIOContext) : Option (Int × AVIOContext) :=
  avioSeek s 0 .cur

def avioFlush (s : AVIOContext) : Option AVIOContext :=
  let seekback : Int := if s.writeFlag then min 0 ((s.bufPtr : Int) - s.bufPtrMax) else 0
  let s := flushBuffer s
  if seekback ≠ 0 then (avioSeek s seekback .cur).map Prod.snd else some s

def avioWrite (s : AVIOContext) (buf : List UInt8) : Option AVIOContext :=
  if buf.length ≤ 0 then some s
  else if s.direct ∧ s.updateChecksum = false then (avioFlush s).map (writeout · buf)
  else writeLoop buf.length s buf

def avioFeof (s : AVIOContext) : AVIOContext :=
  if s.eofReached then fillBuffer { s with eofReached := false } else s

def avioR8 (s : AVIOContext) : Nat × AVIOContext :=
  let s := if s.bufPtr ≥ s.bufEnd then fillBuffer s else s
  if s.bufPtr < s.bufEnd then ((s.buffer.getD s.bufPtr 0).toNat, { s with bufPtr := s.bufPtr + 1 })
  else (0, s)

def readLoop : Nat → AVIOContext → Nat → List UInt8 → Option (List UInt8 × AVIOContext)
  | 0, s, size, buf => if size > 0 then none else some (buf, s)
  | fuel + 1, s, size, buf =>
      if size > 0 then
        let len := min (s.bufEnd - s.bufPtr) size
        if len = 0 ∨ s.writeFlag then
          if (s.direct ∨ size > s.buffer.length) ∧ s.updateChecksum = false then
            match s.io.readPacket size with
            | (none, io) => some (buf, { s with io, eofReached := true })
            | (some data, io) =>
                readLoop fuel
                  { s with io, pos := s.pos + data.length, bufPtr := 0, bufEnd := 0 }
                  (size - data.length) (buf ++ data)
          else
            let s := fillBuffer s
            if s.bufEnd - s.bufPtr = 0 then some (buf, s) else readLoop fuel s size buf
        else
          readLoop fuel { s with bufPtr := s.bufPtr + len } (size - len)
            (buf ++ (s.buffer.drop s.bufPtr).take len)
      else some (buf, s)

def avioRead (s : AVIOContext) (size : Nat) : Option (Int × List UInt8 × AVIOContext) :=
  (readLoop (2 * size + 1) s size []).map fun (buf, s) =>
    if buf.length = 0 then
      if s.error ≠ 0 then (s.error, buf, s)
      else
        let s := avioFeof s
        if s.eofReached then (averrorEof, buf, s) else (0, buf, s)
    else (buf.length, buf, s)

end P2PFFmpeg.Avio
