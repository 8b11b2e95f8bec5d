import P2PFFmpeg.Library.ByteFile
import P2PFFmpeg.Payload.Startcode
import P2PFFmpeg.Rtp.Context
import P2PFFmpeg.Util.BPrint
import Mathlib.Data.List.Basic
import P2PFFmpeg.Library.Transition
import P2PFFmpeg.Util.Error

/-!
The H.264 filter that replaces length prefixes by start codes. A buffer is read as its
bytes with the padding behind them. Allocations succeed.
-/

namespace P2PFFmpeg.Annexb

open Library.ByteFile Util Library.Transition

def avInputBufferPaddingSize : Nat := 64

def h264NalSlice : UInt8 := 1
def h264NalIdrSlice : UInt8 := 5
def h264NalSps : UInt8 := 7
def h264NalPps : UInt8 := 8

/-- With the extradata of `par_out`; `none` is `NULL`. -/
structure H264BSFContext where
  sps : List UInt8
  pps : List UInt8
  lengthSize : Nat
  newIdr : Bool
  idrSpsSeen : Bool
  idrPpsSeen : Bool
  extradataParsed : Bool
  extradata : Option (List UInt8)
deriving DecidableEq

/-- A context of zeroed memory, with the extradata copied from `par_in`. -/
def H264BSFContext.fresh (extradata : Option (List UInt8)) : H264BSFContext :=
  ⟨[], [], 0, false, false, false, false, extradata⟩

structure Conversion where
  pos : Nat
  unitNb : Nat
  spsDone : Bool
  out : List UInt8
  ppsOffset : Nat

/-- From the label `pps` to the end of the loop's body. -/
def ppsLabel (mem : List UInt8) (c : Conversion) : Conversion :=
  if c.unitNb = 0 ∧ c.spsDone = false then
    { c with
      spsDone := true
      unitNb := (byteAt mem c.pos).toNat
      pos := c.pos + 1
      ppsOffset := c.out.length }
  else c

/-- `while (unit_nb--)` -/
def convertUnits (mem : List UInt8) (size : Nat) : Nat → Conversion → Option (Except Int Conversion)
  | 0, _ => none
  | fuel + 1, c =>
      if c.unitNb = 0 then some (.ok c)
      else
        let unitSize := (avRb16 mem c.pos).toNat
        let pos := c.pos + 2
        if (size : Int) - pos < unitSize + (if c.spsDone then 0 else 1) then
          some (.error averrorInvaliddata)
        else
          convertUnits mem size fuel (ppsLabel mem { c with
            unitNb := c.unitNb - 1
            out := c.out ++ [0, 0, 0, 1] ++ (mem.drop pos).take unitSize
            pos := pos + unitSize })

def conversionFuel : Nat := 31 + 255 + 2

def h264ExtradataToAnnexb (s : H264BSFContext) (extradata padding : List UInt8) :
    Option (Except Int (Nat × H264BSFContext)) :=
  let mem := extradata ++ padding
  let lengthSize := (byteAt mem 4 &&& 0x3).toNat + 1
  let start : Conversion := ⟨6, (byteAt mem 5 &&& 0x1f).toNat, false, [], 0⟩
  let start := if start.unitNb = 0 then ppsLabel mem start else start
  (convertUnits mem extradata.length conversionFuel start).map fun r => r.map fun c =>
    (lengthSize, { s with
      sps := if c.ppsOffset ≠ 0 then c.out.take c.ppsOffset else s.sps
      pps := if c.ppsOffset < c.out.length then c.out.drop c.ppsOffset else s.pps
      extradata := if c.out = [] then none else some c.out })

def h264Mp4toannexbInit (extradata padding : List UInt8) : Option (Except Int H264BSFContext) :=
  let mem := extradata ++ padding
  let size := extradata.length
  let s := H264BSFContext.fresh (if size = 0 then none else some extradata)
  if size = 0 ∨ (size ≥ 3 ∧ Payload.bigEndian (mem.take 3) = 1) ∨
      (size ≥ 4 ∧ Payload.bigEndian (mem.take 4) = 1) then some (.ok s)
  else if size ≥ 7 then
    (h264ExtradataToAnnexb s extradata padding).map fun r => r.map fun (lengthSize, s) =>
      { s with
        lengthSize
        newIdr := true
        idrSpsSeen := false
        idrPpsSeen := false
        extradataParsed := true }
  else some (.error averrorInvaliddata)

structure Pass where
  newIdr : Bool
  spsSeen : Bool
  ppsSeen : Bool
  outSize : Nat
  out : List UInt8
  ptr : Nat

/-- A pass ends early when the packet is invalid; a `fault` is a write behind the end of
the packet that is filled, or a loop that does not end. -/
inductive Stop
  | invalid
  | fault
deriving DecidableEq

def startCodeBytes : Nat → List UInt8
  | 4 => [0, 0, 0, 1]
  | 3 => [0, 0, 1]
  | _ => []

def countOrCopy (copy : Bool) (p : Pass) (bytes : List UInt8) (ps : Int) : Except Stop Pass :=
  let startCodeSize := if ps < 0 then 0 else if p.outSize = 0 ∨ ps ≠ 0 then 4 else 3
  if copy then
    if p.ptr + startCodeSize + bytes.length ≤ p.out.length then
      .ok { p with
        out := pwrite p.out p.ptr (startCodeBytes startCodeSize ++ bytes)
        ptr := p.ptr + startCodeSize + bytes.length
        outSize := p.outSize + startCodeSize + bytes.length }
    else .error .fault
  else .ok { p with outSize := p.outSize + startCodeSize + bytes.length }

/-- The flags that a parameter set raises; the first one of a picture is preceded by the
sequence parameter sets of the extradata. -/
def filterParameterSet (s : H264BSFContext) (copy : Bool) (unitType : UInt8) (p : Pass) :
    Except Stop Pass :=
  if unitType = h264NalSps then .ok { p with spsSeen := true, newIdr := true }
  else if unitType = h264NalPps then
    let p := { p with ppsSeen := true, newIdr := true }
    if p.spsSeen = false then
      if s.sps.length = 0 then .ok p
      else (countOrCopy copy p s.sps (-1)).map fun p => { p with spsSeen := true }
    else .ok p
  else .ok p

def filterNewIdr (unitType next : UInt8) (p : Pass) : Pass :=
  if p.newIdr = false ∧ unitType = h264NalIdrSlice ∧ next &&& 0x80 ≠ 0 then
    { p with newIdr := true }
  else p

def filterIdr (s : H264BSFContext) (copy : Bool) (unitType : UInt8) (p : Pass) : Except Stop Pass :=
  if p.newIdr ∧ unitType = h264NalIdrSlice ∧ p.spsSeen = false ∧ p.ppsSeen = false then
    match s.extradata with
    | some extradata =>
        (countOrCopy copy p extradata (-1)).map fun p => { p with newIdr := false }
    | none => .ok { p with newIdr := false }
  else if p.newIdr ∧ unitType = h264NalIdrSlice ∧ p.spsSeen ∧ p.ppsSeen = false then
    if s.pps.length = 0 then .ok p else countOrCopy copy p s.pps (-1)
  else .ok p

def filterSlice (unitType : UInt8) (p : Pass) : Pass :=
  if p.newIdr = false ∧ unitType = h264NalSlice then
    { p with newIdr := true, spsSeen := false, ppsSeen := false }
  else p

def filterUnit (s : H264BSFContext) (copy : Bool) (unit : List UInt8) (next : UInt8) (p : Pass) :
    Except Stop Pass :=
  let unitType := byteAt unit 0 &&& 0x1f
  (filterParameterSet s copy unitType p).bind fun p =>
  (filterIdr s copy unitType (filterNewIdr unitType next p)).bind fun p =>
  (countOrCopy copy p unit (if unitType = h264NalSps ∨ unitType = h264NalPps then 1 else 0)).map
    (filterSlice unitType)

/-- The loop over the units; `buf` is the position in a packet of `size` bytes that the
padding follows in `mem`. -/
def filterLoop (s : H264BSFContext) (copy : Bool) (mem : List UInt8) (size : Nat) :
    Nat → Nat → Pass → Except Stop Pass
  | 0, _, _ => .error .fault
  | fuel + 1, buf, p =>
      let nalSize : Nat := Payload.bigEndian ((mem.drop buf).take s.lengthSize) % 2 ^ 32
      let buf : Nat := buf + s.lengthSize
      if (nalSize : Int) > (size : Int) - buf then .error .invalid
      else if nalSize = 0 then
        if buf < size then filterLoop s copy mem size fuel buf p else .ok p
      else
        (filterUnit s copy ((mem.drop buf).take nalSize) (byteAt mem (buf + 1)) p).bind fun p =>
          let buf := buf + nalSize
          if buf < size then filterLoop s copy mem size fuel buf p else .ok p

def startPass (s : H264BSFContext) (out : List UInt8) : Pass :=
  ⟨s.newIdr, s.idrSpsSeen, s.idrPpsSeen, 0, out, 0⟩

def avNewPacket (garbage : List UInt8) (size : Nat) : List UInt8 :=
  (garbage ++ List.replicate size 0).take size

/-- The output packet, or the error, with the context. `none` is a fault. -/
def h264Mp4toannexbFilter (s : H264BSFContext) (data padding garbage : List UInt8) :
    Option (Except Int (List UInt8) × H264BSFContext) :=
  if s.extradataParsed = false then some (.ok data, s)
  else
    match filterLoop s false (data ++ padding) data.length (data.length + 1) 0 (startPass s []) with
    | .error .invalid => some (.error averrorInvaliddata, s)
    | .error .fault => none
    | .ok counted =>
        if counted.outSize > intMax - avInputBufferPaddingSize then
          some (.error averrorInvaliddata, s)
        else
          match filterLoop s true (data ++ padding) data.length (data.length + 1) 0
              (startPass s (avNewPacket garbage counted.outSize)) with
          | .error .invalid => some (.error averrorInvaliddata, s)
          | .error .fault => none
          | .ok copied =>
              if copied.outSize = copied.out.length then
                some (.ok copied.out, { s with
                  newIdr := copied.newIdr
                  idrSpsSeen := copied.spsSeen
                  idrPpsSeen := copied.ppsSeen })
              else none

def h264Mp4toannexbFlush (s : H264BSFContext) : H264BSFContext :=
  { s with idrSpsSeen := false, idrPpsSeen := false, newIdr := s.extradataParsed }

section

structure View where
  newIdr : Bool
  spsSeen : Bool
  ppsSeen : Bool
  outSize : Nat

def Pass.view (p : Pass) : View := ⟨p.newIdr, p.spsSeen, p.ppsSeen, p.outSize⟩

structure Emits (f : Bool → Pass → Except Stop Pass) (a b : View) (bytes : List UInt8) : Prop where
  size : b.outSize = a.outSize + bytes.length
  counts : ∀ p, p.view = a → ∃ p', f false p = .ok p' ∧ p'.view = b
  copies : ∀ p, p.view = a → p.ptr + bytes.length ≤ p.out.length →
    ∃ p', f true p = .ok p' ∧ p'.view = b ∧ p'.out = pwrite p.out p.ptr bytes ∧
      p'.ptr = p.ptr + bytes.length

variable {f g : Bool → Pass → Except Stop Pass} {a b c : View} {xs ys : List UInt8}

theorem Emits.flags {h : Pass → Pass} (hf : ∀ copy p, p.view = a → f copy p = .ok (h p))
    (hview : ∀ p, p.view = a → (h p).view = b) (hsize : b.outSize = a.outSize)
    (hkept : ∀ p, (h p).out = p.out ∧ (h p).ptr = p.ptr) : Emits f a b [] where
  size := hsize
  counts p hp := ⟨h p, hf false p hp, hview p hp⟩
  copies p hp _ := by
    refine ⟨h p, hf true p hp, hview p hp, ?_, ?_⟩
    · rw [pwrite_nil, (hkept p).1]
    · rw [(hkept p).2]
      rfl

theorem Emits.bind (hf : Emits f a b xs) (hg : Emits g b c ys) :
    Emits (fun copy p => (f copy p).bind (g copy)) a c (xs ++ ys) where
  size := by rw [hg.size, hf.size, List.length_append, Nat.add_assoc]
  counts p hp := by
    obtain ⟨q, hq, hqv⟩ := hf.counts p hp
    obtain ⟨r, hr, hrv⟩ := hg.counts q hqv
    exact ⟨r, by rw [hq]; exact hr, hrv⟩
  copies p hp hfit := by
    rw [List.length_append] at hfit
    obtain ⟨q, hq, hqv, hqout, hqptr⟩ := hf.copies p hp (by omega)
    have hlen : q.out.length = p.out.length := by
      rw [hqout, length_pwrite (by omega)]
      omega
    obtain ⟨r, hr, hrv, hrout, hrptr⟩ := hg.copies q hqv (by rw [hqptr, hlen]; omega)
    refine ⟨r, by rw [hq]; exact hr, hrv, ?_, ?_⟩
    · rw [hrout, hqptr, hqout, pwrite_pwrite (Nat.le_refl _)]
      congr 1
      by_cases hy : ys = []
      · simp [hy]
      · simp [pwrite, hy]
    · rw [hrptr, hqptr, List.length_append, Nat.add_assoc]

theorem Emits.map {h : Pass → Pass} (hf : Emits f a b xs) (hview : ∀ p, p.view = b → (h p).view = c)
    (hsize : c.outSize = b.outSize) (hkept : ∀ p, (h p).out = p.out ∧ (h p).ptr = p.ptr) :
    Emits (fun copy p => (f copy p).map h) a c xs := by
  have hflags : Emits (fun _ p => .ok (h p)) b c [] :=
    .flags (fun _ _ _ => rfl) hview hsize hkept
  have hboth := hf.bind hflags
  rwa [List.append_nil] at hboth

theorem Emits.congr (hf : Emits f a b xs) (h : ∀ copy p, p.view = a → g copy p = f copy p) :
    Emits g a b xs where
  size := hf.size
  counts p hp := by
    rw [h false p hp]
    exact hf.counts p hp
  copies p hp := by
    rw [h true p hp]
    exact hf.copies p hp

def View.grown (a : View) (n : Nat) : View := { a with outSize := a.outSize + n }

/-- The start code that `count_or_copy` puts before the bytes. -/
def startCodeFor (outSize : Nat) (ps : Int) : List UInt8 :=
  if ps < 0 then [] else if outSize = 0 ∨ ps ≠ 0 then [0, 0, 0, 1] else [0, 0, 1]

theorem countOrCopy_emits (bytes : List UInt8) (ps : Int) :
    Emits (fun copy p => countOrCopy copy p bytes ps) a
      (a.grown (startCodeFor a.outSize ps ++ bytes).length) (startCodeFor a.outSize ps ++ bytes) := by
  have hcode : ∀ n : Nat, startCodeBytes (startCodeFor n ps).length = startCodeFor n ps := by
    intro n
    unfold startCodeFor
    split
    · rfl
    · split <;> rfl
  have hlen : ∀ n : Nat, (if ps < 0 then 0 else if n = 0 ∨ ps ≠ 0 then 4 else 3) =
      (startCodeFor n ps).length := by
    intro n
    unfold startCodeFor
    split
    · rfl
    · split <;> rfl
  refine ⟨rfl, ?_, ?_⟩
  · rintro p rfl
    refine ⟨_, rfl, ?_⟩
    simp only [Pass.view, View.grown, hlen, List.length_append, Nat.add_assoc]
  · rintro p rfl hfit
    rw [List.length_append] at hfit
    have hroom : p.ptr + (startCodeFor p.outSize ps).length + bytes.length ≤ p.out.length := by
      simp only [Pass.view] at hfit
      omega
    have hcopy : countOrCopy true p bytes ps = .ok { p with
        out := pwrite p.out p.ptr (startCodeFor p.outSize ps ++ bytes)
        ptr := p.ptr + (startCodeFor p.outSize ps).length + bytes.length
        outSize := p.outSize + (startCodeFor p.outSize ps).length + bytes.length } := by
      simp only [countOrCopy, if_true, hlen, if_pos hroom, hcode]
    refine ⟨_, hcopy, ?_, rfl, ?_⟩
    · simp only [Pass.view, View.grown, List.length_append, Nat.add_assoc]
    · simp only [Pass.view, List.length_append, Nat.add_assoc]

theorem countOrCopy_plain (bytes : List UInt8) :
    Emits (fun copy p => countOrCopy copy p bytes (-1)) a (a.grown bytes.length) bytes :=
  countOrCopy_emits bytes (-1)

structure Flags where
  newIdr : Bool
  spsSeen : Bool
  ppsSeen : Bool
deriving DecidableEq

def View.flags (a : View) : Flags := ⟨a.newIdr, a.spsSeen, a.ppsSeen⟩

def View.next (a : View) (f : Flags) (n : Nat) : View := ⟨f.newIdr, f.spsSeen, f.ppsSeen, a.outSize + n⟩

@[simp] theorem View.flags_next (a : View) (f : Flags) (n : Nat) : (a.next f n).flags = f := rfl

inductive Insertion
  | nothing
  | sps
  | pps
  | extradata
deriving DecidableEq

def Insertion.bytes (s : H264BSFContext) : Insertion → List UInt8
  | .nothing => []
  | .sps => s.sps
  | .pps => s.pps
  | .extradata => s.extradata.getD []

def Flags.parameterSet (s : H264BSFContext) (unitType : UInt8) (f : Flags) : Flags × Insertion :=
  if unitType = h264NalSps then ({ f with newIdr := true, spsSeen := true }, .nothing)
  else if unitType = h264NalPps then
    if f.spsSeen = false ∧ s.sps ≠ [] then (⟨true, true, true⟩, .sps)
    else ({ f with newIdr := true, ppsSeen := true }, .nothing)
  else (f, .nothing)

def Flags.startPicture (unitType next : UInt8) (f : Flags) : Flags :=
  if f.newIdr = false ∧ unitType = h264NalIdrSlice ∧ next &&& 0x80 ≠ 0 then { f with newIdr := true } else f

def Flags.idr (unitType : UInt8) (f : Flags) : Flags × Insertion :=
  if f.newIdr ∧ unitType = h264NalIdrSlice ∧ f.spsSeen = false ∧ f.ppsSeen = false then
    ({ f with newIdr := false }, .extradata)
  else if f.newIdr ∧ unitType = h264NalIdrSlice ∧ f.spsSeen ∧ f.ppsSeen = false then (f, .pps)
  else (f, .nothing)

def Flags.slice (unitType : UInt8) (f : Flags) : Flags :=
  if f.newIdr = false ∧ unitType = h264NalSlice then ⟨true, false, false⟩ else f

def Flags.unit (s : H264BSFContext) (unitType next : UInt8) (f : Flags) : Flags × Insertion :=
  let set := f.parameterSet s unitType
  let idr := (set.1.startPicture unitType next).idr unitType
  (idr.1.slice unitType, if set.2 = .nothing then idr.2 else set.2)

/-- What may stand before a unit: the sets of the extradata before a picture parameter
set, all of it or its picture parameter sets before a slice of an IDR picture. -/
def Inserted (s : H264BSFContext) (unit insert : List UInt8) : Prop :=
  insert = [] ∨ byteAt unit 0 &&& 0x1f = h264NalPps ∧ insert = s.sps ∨
    byteAt unit 0 &&& 0x1f = h264NalIdrSlice ∧ (some insert = s.extradata ∨ insert = s.pps)

theorem filterParameterSet_emits (s : H264BSFContext) (unitType : UInt8) (a : View) :
    Emits (fun copy p => filterParameterSet s copy unitType p) a
      (a.next (a.flags.parameterSet s unitType).1 ((a.flags.parameterSet s unitType).2.bytes s).length)
      ((a.flags.parameterSet s unitType).2.bytes s) := by
  by_cases hsps : unitType = h264NalSps
  · rw [Flags.parameterSet, if_pos hsps]
    refine .flags (h := fun p => { p with spsSeen := true, newIdr := true }) ?_ ?_ rfl fun _ => ⟨rfl, rfl⟩
    · exact fun copy p _ => by rw [filterParameterSet, if_pos hsps]
    · rintro p rfl
      rfl
  by_cases hpps : unitType = h264NalPps
  swap
  · rw [Flags.parameterSet, if_neg hsps, if_neg hpps]
    refine .flags (h := id) ?_ ?_ rfl fun _ => ⟨rfl, rfl⟩
    · exact fun copy p _ => by rw [filterParameterSet, if_neg hsps, if_neg hpps]; rfl
    · exact fun p hp => hp
  have hraise : Emits (fun _ p => .ok { p with ppsSeen := true, newIdr := true }) a
      { a with ppsSeen := true, newIdr := true } [] :=
    .flags (fun _ _ _ => rfl) (by rintro p rfl; rfl) rfl fun _ => ⟨rfl, rfl⟩
  rw [Flags.parameterSet, if_neg hsps, if_pos hpps]
  split
  · next hprepend =>
      have hcopy := (countOrCopy_plain s.sps).map (a := { a with ppsSeen := true, newIdr := true })
        (h := fun p => { p with spsSeen := true })
        (c := { View.grown { a with ppsSeen := true, newIdr := true } s.sps.length with spsSeen := true })
        (fun p hp => congrArg (fun v : View => { v with spsSeen := true }) hp) rfl fun _ => ⟨rfl, rfl⟩
      refine (hraise.bind hcopy).congr ?_
      rintro copy p rfl
      rw [filterParameterSet, if_neg hsps, if_pos hpps]
      simp only [show p.spsSeen = false from hprepend.1, if_true, if_neg (mt List.eq_nil_of_length_eq_zero hprepend.2)]
      rfl
  · next hprepend =>
      refine hraise.congr ?_
      rintro copy p rfl
      rw [filterParameterSet, if_neg hsps, if_pos hpps]
      by_cases hseen : p.spsSeen = false
      · have hlen : s.sps.length = 0 := by
          by_contra hne
          exact hprepend ⟨hseen, fun hnil => hne (congrArg List.length hnil)⟩
        simp only [hseen, if_true, if_pos hlen]
      · simp only [if_neg hseen]

theorem filterNewIdr_emits (unitType next : UInt8) (a : View) :
    Emits (fun _ p => .ok (filterNewIdr unitType next p)) a (a.next (a.flags.startPicture unitType next) 0) [] := by
  rw [Flags.startPicture]
  split
  · next hraise =>
      refine .flags (h := fun p => { p with newIdr := true }) ?_ ?_ rfl fun _ => ⟨rfl, rfl⟩
      · rintro copy p rfl
        exact congrArg Except.ok (if_pos hraise)
      · rintro p rfl
        rfl
  · next hraise =>
      refine .flags (h := id) ?_ (fun _ hp => hp) rfl fun _ => ⟨rfl, rfl⟩
      rintro copy p rfl
      exact congrArg Except.ok (if_neg hraise)

theorem filterIdr_emits (s : H264BSFContext) (unitType : UInt8) (a : View) :
    Emits (fun copy p => filterIdr s copy unitType p) a
      (a.next (a.flags.idr unitType).1 ((a.flags.idr unitType).2.bytes s).length) ((a.flags.idr unitType).2.bytes s) := by
  have hkeep : Emits (fun _ p => .ok p) a a [] :=
    .flags (h := id) (fun _ _ _ => rfl) (fun _ hp => hp) rfl fun _ => ⟨rfl, rfl⟩
  rw [Flags.idr]
  split
  · next hall =>
      cases hextra : s.extradata with
      | some extradata =>
          simp only [Insertion.bytes, hextra, Option.getD_some]
          refine ((@countOrCopy_plain a extradata).map (h := fun p => { p with newIdr := false })
            (c := { a.grown extradata.length with newIdr := false })
            (fun p hp => congrArg (fun v : View => { v with newIdr := false }) hp) rfl fun _ => ⟨rfl, rfl⟩).congr ?_
          rintro copy p rfl
          simp only [Pass.view, View.flags] at hall
          rw [filterIdr, if_pos hall, hextra]
      | none =>
          simp only [Insertion.bytes, hextra, Option.getD_none]
          refine .flags (h := fun p => { p with newIdr := false }) ?_ ?_ rfl fun _ => ⟨rfl, rfl⟩
          · rintro copy p rfl
            simp only [Pass.view, View.flags] at hall
            rw [filterIdr, if_pos hall, hextra]
          · rintro p rfl
            rfl
  · next hall =>
      split
      · next hpps =>
          by_cases hempty : s.pps = []
          · simp only [Insertion.bytes, hempty]
            refine hkeep.congr ?_
            rintro copy p rfl
            simp only [Pass.view, View.flags] at hall hpps
            rw [filterIdr, if_neg hall, if_pos hpps, if_pos (List.length_eq_zero_iff.mpr hempty)]
          · refine (@countOrCopy_plain a s.pps).congr ?_
            rintro copy p rfl
            simp only [Pass.view, View.flags] at hall hpps
            rw [filterIdr, if_neg hall, if_pos hpps, if_neg (mt List.eq_nil_of_length_eq_zero hempty)]
      · next hpps =>
          refine hkeep.congr ?_
          rintro copy p rfl
          simp only [Pass.view, View.flags] at hall hpps
          rw [filterIdr, if_neg hall, if_neg hpps]

theorem filterSlice_emits (unitType : UInt8) (a : View) :
    Emits (fun _ p => .ok (filterSlice unitType p)) a (a.next (a.flags.slice unitType) 0) [] := by
  rw [Flags.slice]
  split
  · next hend =>
      refine .flags (h := fun p => { p with newIdr := true, spsSeen := false, ppsSeen := false }) ?_ ?_ rfl
        fun _ => ⟨rfl, rfl⟩
      · rintro copy p rfl
        exact congrArg Except.ok (if_pos hend)
      · rintro p rfl
        rfl
  · next hend =>
      refine .flags (h := id) ?_ (fun _ hp => hp) rfl fun _ => ⟨rfl, rfl⟩
      rintro copy p rfl
      exact congrArg Except.ok (if_neg hend)

theorem parameterSet_cases (s : H264BSFContext) (unitType : UInt8) (f : Flags) :
    (f.parameterSet s unitType).2 = .nothing ∨ unitType = h264NalPps ∧ (f.parameterSet s unitType).2 = .sps := by
  rw [Flags.parameterSet]
  split
  · exact .inl rfl
  split
  · next hpps =>
      split
      · exact .inr ⟨hpps, rfl⟩
      · exact .inl rfl
  · exact .inl rfl

theorem idr_cases (unitType : UInt8) (f : Flags) : (f.idr unitType).2 = .nothing ∨
      unitType = h264NalIdrSlice ∧ ((f.idr unitType).2 = .extradata ∨ (f.idr unitType).2 = .pps) := by
  rw [Flags.idr]
  split
  · next hall => exact .inr ⟨hall.2.1, .inl rfl⟩
  split
  · next hpps => exact .inr ⟨hpps.2.1, .inr rfl⟩
  · exact .inl rfl

theorem unit_bytes (s : H264BSFContext) (unitType next : UInt8) (f : Flags) :
    (f.unit s unitType next).2.bytes s = (f.parameterSet s unitType).2.bytes s ++
      (((f.parameterSet s unitType).1.startPicture unitType next).idr unitType).2.bytes s := by
  rw [Flags.unit]
  rcases parameterSet_cases s unitType f with hset | ⟨hpps, hset⟩
  · simp only [hset, if_true, Insertion.bytes, List.nil_append]
  · rcases idr_cases unitType ((f.parameterSet s unitType).1.startPicture unitType next) with hidr | ⟨hidr, -⟩
    · simp only [hset, hidr, reduceCtorEq, if_false, Insertion.bytes, List.append_nil]
    · rw [hpps] at hidr
      exact absurd hidr (by decide)

theorem unit_inserted (s : H264BSFContext) (unit : List UInt8) (next : UInt8) (f : Flags) :
    Inserted s unit ((f.unit s (byteAt unit 0 &&& 0x1f) next).2.bytes s) := by
  rw [unit_bytes]
  rcases parameterSet_cases s (byteAt unit 0 &&& 0x1f) f with hset | ⟨hpps, hset⟩
  · rw [hset, Insertion.bytes, List.nil_append]
    rcases idr_cases (byteAt unit 0 &&& 0x1f) ((f.parameterSet s (byteAt unit 0 &&& 0x1f)).1.startPicture
      (byteAt unit 0 &&& 0x1f) next) with hidr | ⟨htype, hidr | hidr⟩ <;> rw [hidr]
    · exact .inl rfl
    · cases hextra : s.extradata with
      | none => exact .inl (by rw [Insertion.bytes, hextra]; rfl)
      | some extradata => exact .inr (.inr ⟨htype, .inl (by rw [Insertion.bytes, hextra]; rfl)⟩)
    · exact .inr (.inr ⟨htype, .inr rfl⟩)
  · rcases idr_cases (byteAt unit 0 &&& 0x1f) ((f.parameterSet s (byteAt unit 0 &&& 0x1f)).1.startPicture
      (byteAt unit 0 &&& 0x1f) next) with hidr | ⟨hidr, -⟩
    · rw [hset, hidr]
      exact .inr (.inl ⟨hpps, List.append_nil _⟩)
    · rw [hpps] at hidr
      exact absurd hidr (by decide)

theorem filterUnit_emits (s : H264BSFContext) (unit : List UInt8) (next : UInt8) (a : View) :
    ∃ b code, Emits (fun copy p => filterUnit s copy unit next p) a b
        ((a.flags.unit s (byteAt unit 0 &&& 0x1f) next).2.bytes s ++ code ++ unit) ∧
      b.flags = (a.flags.unit s (byteAt unit 0 &&& 0x1f) next).1 ∧ (code = [0, 0, 0, 1] ∨ code = [0, 0, 1]) ∧
      (a.outSize = 0 → (a.flags.unit s (byteAt unit 0 &&& 0x1f) next).2.bytes s = [] → code = [0, 0, 0, 1]) := by
  have hset := filterParameterSet_emits s (byteAt unit 0 &&& 0x1f) a
  generalize hb₁ : a.next _ _ = b₁ at hset
  have hnew := filterNewIdr_emits (byteAt unit 0 &&& 0x1f) next b₁
  generalize hb₂ : b₁.next _ _ = b₂ at hnew
  have hidr := filterIdr_emits s (byteAt unit 0 &&& 0x1f) b₂
  generalize hb₃ : b₂.next _ _ = b₃ at hidr
  generalize hps : (if byteAt unit 0 &&& 0x1f = h264NalSps ∨ byteAt unit 0 &&& 0x1f = h264NalPps then 1
    else 0 : Int) = ps
  have hunit := @countOrCopy_emits b₃ unit ps
  have hslice := filterSlice_emits (byteAt unit 0 &&& 0x1f)
    (b₃.grown (startCodeFor b₃.outSize ps ++ unit).length)
  have hall := hset.bind (hnew.bind (hidr.bind (hunit.bind hslice)))
  have hflags₁ : b₁.flags = (a.flags.parameterSet s (byteAt unit 0 &&& 0x1f)).1 := by rw [← hb₁, View.flags_next]
  have hflags₂ : b₂.flags = b₁.flags.startPicture (byteAt unit 0 &&& 0x1f) next := by rw [← hb₂, View.flags_next]
  have hflags₃ : b₃.flags = (b₂.flags.idr (byteAt unit 0 &&& 0x1f)).1 := by rw [← hb₃, View.flags_next]
  have hbytes : (a.flags.parameterSet s (byteAt unit 0 &&& 0x1f)).2.bytes s ++
      ([] ++ ((b₂.flags.idr (byteAt unit 0 &&& 0x1f)).2.bytes s ++ (startCodeFor b₃.outSize ps ++ unit ++ []))) =
      (a.flags.unit s (byteAt unit 0 &&& 0x1f) next).2.bytes s ++ startCodeFor b₃.outSize ps ++ unit := by
    rw [unit_bytes, hflags₂, hflags₁]
    simp
  rw [hbytes] at hall
  have hpos : ¬ ps < 0 := by
    rw [← hps]
    split <;> decide
  refine ⟨_, startCodeFor b₃.outSize ps, hall.congr fun copy p _ => ?_, ?_, ?_, ?_⟩
  · rw [filterUnit, hps]
    rfl
  · rw [View.flags_next, Flags.unit, ← hflags₁, ← hflags₂, ← hflags₃]
    rfl
  · rw [startCodeFor, if_neg hpos]
    split
    · exact .inl rfl
    · exact .inr rfl
  · intro hzero hnone
    rw [unit_bytes, ← hflags₁, ← hflags₂] at hnone
    obtain ⟨hnone₁, hnone₂⟩ := List.append_eq_nil_iff.mp hnone
    have hsize : b₃.outSize = 0 := by
      rw [hidr.size, hnew.size, hset.size, hzero, hnone₁, hnone₂]
      rfl
    rw [startCodeFor, if_neg hpos, if_pos (.inl hsize)]

end

end P2PFFmpeg.Annexb
