import P2PFFmpeg.Library.Transition

namespace P2PFFmpeg.Util

open Library

def uintMax : Nat := 4294967295

def intMax : Nat := 2147483647

def sizeAuto : Nat := 1004

structure StrWrite where
  start : Nat
  count : Nat
  size : Nat
  internal : Bool
deriving DecidableEq

/-- `none` is memory that nothing was written to; `internal` tells that str is the
buffer inside the structure, and `writes` lists the writes so far. -/
structure AVBPrint where
  str : Nat → Option UInt8
  len : Nat
  size : Nat
  sizeMax : Nat
  internal : Bool
  writes : List StrWrite

def stored (str : Nat → Option UInt8) (start : Nat) (bytes : List UInt8) (i : Nat) : Option UInt8 :=
  if start ≤ i ∧ i < start + bytes.length then bytes[i - start]? else str i

def AVBPrint.store (buf : AVBPrint) (start : Nat) (bytes : List UInt8) : AVBPrint :=
  { buf with
    str := stored buf.str start bytes
    writes := buf.writes ++ [⟨start, bytes.length, buf.size, buf.internal⟩] }

def avBprintRoom (buf : AVBPrint) : Nat := buf.size - min buf.len buf.size

def avBprintIsComplete (buf : AVBPrint) : Bool := buf.len < buf.size

def avBprintAlloc (buf : AVBPrint) (room : Nat) (allocated : Bool) : Int × AVBPrint :=
  if buf.size = buf.sizeMax then (-5, buf)
  else if !avBprintIsComplete buf then (-1094995529, buf)
  else
    let minSize := buf.len + 1 + min (uintMax - buf.len - 1) room
    let doubled := if buf.size > buf.sizeMax / 2 then buf.sizeMax else buf.size * 2
    let newSize := if doubled < minSize then min buf.sizeMax minSize else doubled
    if !allocated then (-12, buf)
    else
      -- what av_realloc keeps, or what is copied out of the internal buffer
      let kept := if buf.internal then buf.len + 1 else min buf.size newSize
      (0, { buf with
        str := fun i => if i < kept then buf.str i else none
        size := newSize
        internal := false
        writes := buf.writes ++ if buf.internal then [⟨0, buf.len + 1, newSize, false⟩] else [] })

def avBprintGrow (buf : AVBPrint) (extraLen : Nat) : AVBPrint :=
  let buf := { buf with len := buf.len + min extraLen (uintMax - 5 - buf.len) }
  if buf.size ≠ 0 then buf.store (min buf.len (buf.size - 1)) [0] else buf

def avBprintInit (sizeInit sizeMax : Nat) (allocated : Bool) : AVBPrint :=
  let sizeMax := if sizeMax = 1 then sizeAuto else sizeMax
  let buf := AVBPrint.store ⟨fun _ => none, 0, min sizeAuto sizeMax, sizeMax, true, []⟩ 0 [0]
  if sizeInit > buf.size then (avBprintAlloc buf (sizeInit - 1) allocated).2 else buf

def avBprintInitForBuffer (buffer : Nat → Option UInt8) (size : Nat) : AVBPrint :=
  if size = 0 then avBprintInit 0 0 false
  else AVBPrint.store ⟨buffer, 0, size, size, false, []⟩ 0 [0]

/-- vsnprintf into the room that is left, where `text` is the formatted text; one
that is too long for the result is an error. -/
def vsnprintf (buf : AVBPrint) (text : List UInt8) : Int × AVBPrint :=
  if text.length > intMax then (-1, buf)
  else if avBprintRoom buf ≠ 0 then
    (text.length, buf.store buf.len (text.take (avBprintRoom buf - 1) ++ [0]))
  else (text.length, buf)

/-- The loop of av_bprintf, which takes two turns at most; `allocated` tells for
every turn that is left whether memory can be had in it. -/
def printLoop (text : List UInt8) (allocated : Nat → Bool) : Nat → AVBPrint → Option (Int × AVBPrint)
  | 0, _ => none
  | turns + 1, buf =>
      let printed := vsnprintf buf text
      if printed.1 ≤ 0 then some printed
      else if printed.1 < avBprintRoom buf then some printed
      else
        let grown := avBprintAlloc printed.2 text.length (allocated turns)
        if grown.1 ≠ 0 then some (printed.1, grown.2)
        else printLoop text allocated turns grown.2

def avBprintf (buf : AVBPrint) (text : List UInt8) (allocated : Nat → Bool) : Option AVBPrint :=
  (printLoop text allocated 2 buf).map fun printed =>
    if printed.1 ≤ 0 then printed.2 else avBprintGrow printed.2 text.length

def roomLoop (n : Nat) (allocated : Nat → Bool) : Nat → AVBPrint → Option (Nat × AVBPrint)
  | 0, _ => none
  | turns + 1, buf =>
      if n < avBprintRoom buf then some (avBprintRoom buf, buf)
      else
        let grown := avBprintAlloc buf n (allocated turns)
        if grown.1 ≠ 0 then some (avBprintRoom buf, grown.2)
        else roomLoop n allocated turns grown.2

/-- Bytes appended as far as there is room, where `first` gives the first of them. -/
def bprintAppend (buf : AVBPrint) (n : Nat) (first : Nat → List UInt8) (allocated : Nat → Bool) :
    Option AVBPrint :=
  (roomLoop n allocated 2 buf).map fun found =>
    let filled :=
      if found.1 ≠ 0 then found.2.store found.2.len (first (min n (found.1 - 1))) else found.2
    avBprintGrow filled n

def avBprintChars (buf : AVBPrint) (c : UInt8) (n : Nat) (allocated : Nat → Bool) :
    Option AVBPrint :=
  bprintAppend buf n (fun realN => List.replicate realN c) allocated

def avBprintAppendData (buf : AVBPrint) (data : List UInt8) (allocated : Nat → Bool) :
    Option AVBPrint :=
  bprintAppend buf data.length (fun realN => data.take realN) allocated

def avBprintClear (buf : AVBPrint) : AVBPrint :=
  if buf.len ≠ 0 then { buf.store 0 [0] with len := 0 } else buf

inductive BPrintOp where
  | chars (c : UInt8) (n : Nat) (allocated : Nat → Bool)
  | appendData (data : List UInt8) (allocated : Nat → Bool)
  | printf (text : List UInt8) (allocated : Nat → Bool)
  | clear

def BPrintOp.text : BPrintOp → List UInt8
  | .chars c n _ => List.replicate n c
  | .appendData data _ => data
  | .printf text _ => if text.length > intMax then [] else text
  | .clear => []

def bprintStep (buf : AVBPrint) : BPrintOp → Option AVBPrint
  | .chars c n allocated => avBprintChars buf c n allocated
  | .appendData data allocated => avBprintAppendData buf data allocated
  | .printf text allocated => avBprintf buf text allocated
  | .clear => some (avBprintClear buf)

def textAfter (text : List UInt8) (op : BPrintOp) : List UInt8 :=
  match op with
  | .clear => []
  | _ => text ++ op.text

def bprinting : Transition.System (AVBPrint × List UInt8) BPrintOp where
  init s := s.2 = [] ∧
    ((∃ sizeInit sizeMax allocated, sizeInit ≤ uintMax ∧
        s.1 = avBprintInit sizeInit sizeMax allocated) ∨
      ∃ buffer size, s.1 = avBprintInitForBuffer buffer size)
  next s op :=
    if (s.2 ++ op.text).length < uintMax - 5 then
      (bprintStep s.1 op).map fun buf => (buf, textAfter s.2 op)
    else none

end P2PFFmpeg.Util
