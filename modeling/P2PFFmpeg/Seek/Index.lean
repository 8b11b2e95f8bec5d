import P2PFFmpeg.Library.Bisection
import P2PFFmpeg.Library.Transition
import P2PFFmpeg.Util.Error
import P2PFFmpeg.Util.Packet

namespace P2PFFmpeg.Seek

open Util Library.Transition Library.Bisection

/-- The flags and the size are bit fields of 2 and 30 bits. -/
structure AVIndexEntry where
  pos : Int
  timestamp : Int
  flags : UInt32
  size : Int
  minDistance : Int
deriving DecidableEq, Repr

def avindexKeyframe : UInt32 := 1

def avindexDiscardFrame : UInt32 := 2

def avseekFlagBackward : UInt32 := 1

def avseekFlagAny : UInt32 := 4

def relativeTsBase : Int := int64Max - 281474976710656

def isRelative (ts : Int) : Bool := ts > relativeTsBase - 281474976710656

/-- A read of the array; nothing outside it. -/
def entryAt (entries : List AVIndexEntry) (m : Int) : Option AVIndexEntry :=
  if 0 ≤ m then entries[m.toNat]? else none

/-- The loop over discarded entries; nothing when the rounds run out. -/
def skipDiscarded (entries : List AVIndexEntry) (wanted b : Int) : Nat → Int → Option Int
  | 0, _ => none
  | rounds + 1, m => do
      let e ← entryAt entries m
      if e.flags &&& avindexDiscardFrame ≠ 0 ∧ m < b ∧ m < entries.length - 1 then
        if m + 1 = b then do
          let next ← entryAt entries (m + 1)
          if next.timestamp ≥ wanted then some (b - 1)
          else skipDiscarded entries wanted b rounds (m + 1)
        else skipDiscarded entries wanted b rounds (m + 1)
      else some m

def bisect (entries : List AVIndexEntry) (wanted : Int) : Nat → Int × Int → Option (Int × Int)
  | 0, _ => none
  | rounds + 1, (a, b) =>
      if b - a > 1 then do
        let m ← skipDiscarded entries wanted b (entries.length + 1) ((a + b) / 2)
        let e ← entryAt entries m
        bisect entries wanted rounds
          (if e.timestamp ≤ wanted then m else a, if e.timestamp ≥ wanted then m else b)
      else some (a, b)

def seekKeyframe (entries : List AVIndexEntry) (dir : Int) : Nat → Int → Option Int
  | 0, _ => none
  | rounds + 1, m =>
      if m ≥ 0 ∧ m < entries.length then do
        let e ← entryAt entries m
        if e.flags &&& avindexKeyframe = 0 then seekKeyframe entries dir rounds (m + dir) else some m
      else some m

def searchStart (entries : List AVIndexEntry) (wanted : Int) : Int :=
  match entries.getLast? with
  | some last => if last.timestamp < wanted then entries.length - 1 else -1
  | none => -1

/-- Nothing when a loop does not end or reads outside of the array. -/
def ffIndexSearchTimestamp (entries : List AVIndexEntry) (wanted : Int) (flags : UInt32) :
    Option Int := do
  let (a, b) ← bisect entries wanted (entries.length + 2)
    (searchStart entries wanted, entries.length)
  let m := if flags &&& avseekFlagBackward ≠ 0 then a else b
  let m ←
    if flags &&& avseekFlagAny = 0 then
      seekKeyframe entries (if flags &&& avseekFlagBackward ≠ 0 then -1 else 1)
        (entries.length + 1) m
    else some m
  some (if m = entries.length then -1 else m)

/-- The copy never reads an entry that it has written. -/
def everySecond : List AVIndexEntry → List AVIndexEntry
  | [] => []
  | [e] => [e]
  | e :: _ :: rest => e :: everySecond rest

def ffReduceIndex (maxIndexSize : Nat) (entries : List AVIndexEntry) : List AVIndexEntry :=
  if entries.length ≥ maxIndexSize / 24 then everySecond entries else entries

def newEntry (pos timestamp size distance : Int) (flags : UInt32) : AVIndexEntry where
  pos := pos
  timestamp := timestamp
  flags := flags &&& 3
  size := size.bmod 1073741824
  minDistance := distance

structure AddCall where
  pos : Int
  timestamp : Int
  size : Int
  distance : Int
  flags : UInt32
  allocated : Bool

def AddCall.stored (c : AddCall) : Int :=
  if isRelative c.timestamp then c.timestamp - relativeTsBase else c.timestamp

def AddCall.entry (c : AddCall) (distance : Int) : AVIndexEntry :=
  newEntry c.pos c.stored c.size distance c.flags

/-- The returned value and the index; nothing when the assertion fails or the
search does not end. -/
def ffAddIndexEntry (entries : List AVIndexEntry) (c : AddCall) :
    Option (Int × List AVIndexEntry) :=
  if entries.length + 1 ≥ 4294967295 / 24 then some (-1, entries)
  else if c.timestamp = avNoptsValue then some (averrorEinval, entries)
  else if c.size < 0 ∨ c.size > 0x3FFFFFFF then some (averrorEinval, entries)
  else if c.allocated = false then some (-1, entries)
  else do
    let index ← ffIndexSearchTimestamp entries c.stored avseekFlagAny
    if index < 0 then
      if ∀ last ∈ entries.getLast?, last.timestamp < c.stored then
        some (entries.length, entries ++ [c.entry c.distance])
      else none
    else do
      let ie ← entryAt entries index
      if ie.timestamp ≠ c.stored then
        if ie.timestamp ≤ c.stored then some (-1, entries)
        else some (index, entries.insertIdx index.toNat (c.entry c.distance))
      else
        let distance := if ie.pos = c.pos ∧ c.distance < ie.minDistance then ie.minDistance else c.distance
        some (index, entries.set index.toNat (c.entry distance))

inductive IndexCall
  | add (c : AddCall)
  | reduce (maxIndexSize : Nat)

/-- Any calls on an index that is empty at first. -/
def indexing : System (List AVIndexEntry) IndexCall where
  init entries := entries = []
  next entries call :=
    match call with
    | .add c => (ffAddIndexEntry entries c).map Prod.snd
    | .reduce maxIndexSize => some (ffReduceIndex maxIndexSize entries)

end P2PFFmpeg.Seek
