import P2PFFmpeg.Annexb.Stream
import P2PFFmpeg.Payload.AccessUnit

/-!
The writer of the avcC box and the reader of the filter agree. `ff_avc_decode_sps` is a
parameter; dynamic buffers hold what is written to them.
-/

namespace P2PFFmpeg.Annexb

open Util Payload

structure H264SPS where
  chromaFormatIdc : UInt8
  bitDepthLuma : UInt8
  bitDepthChroma : UInt8

def h264MaxSpsCount : Nat := 32
def h264MaxPpsCount : Nat := 256
def uint16Max : Nat := 65535

/-- `while (nal_start < end && !*(nal_start++));` -/
def skipStartcode : List UInt8 → Nat
  | [] => 0
  | b :: rest => if b = 0 then skipStartcode rest + 1 else 1

/-- The loop of `avc_parse_nal_units` from `nal_start`, at the address `addr`: what it writes,
and the size that it returns. -/
def avcParseNalUnits : Nat → Nat → List UInt8 → Option (List UInt8 × Nat)
  | 0, _, _ => none
  | fuel + 1, addr, nalStart =>
      let skipped := skipStartcode nalStart
      let nalStart := nalStart.drop skipped
      if nalStart = [] then some ([], 0)
      else
        let size := ffAvcFindStartcode (addr + skipped) nalStart
        (avcParseNalUnits fuel (addr + skipped + size) (nalStart.drop size)).map fun (out, rest) =>
          (beBytes 4 size ++ nalStart.take size ++ out, 4 + size + rest)

def ffAvcParseNalUnits (addr : Nat) (buf : List UInt8) : Option (List UInt8 × Nat) :=
  let nalStart := ffAvcFindStartcode addr buf
  avcParseNalUnits (buf.length + 1) (addr + nalStart) (buf.drop nalStart)

structure AvccLists where
  nbSps : Nat
  nbPps : Nat
  nbSpsExt : Nat
  sps : List UInt8
  pps : List UInt8
  spsExt : List UInt8

/-- One more unit in a list of fewer than `limit`. -/
def countUnit (limit nb : Nat) (pb unit : List UInt8) : Except Int (Nat × List UInt8) :=
  let nb := nb + 1
  if unit.length > uint16Max ∨ nb ≥ limit then .error averrorInvaliddata
  else .ok (nb, pb ++ beBytes 2 unit.length ++ unit)

def sortUnit (c : AvccLists) (nalType : UInt8) (unit : List UInt8) : Except Int AvccLists :=
  if nalType = 7 then
    (countUnit h264MaxSpsCount c.nbSps c.sps unit).map fun (nbSps, sps) => { c with nbSps, sps }
  else if nalType = 8 then
    (countUnit h264MaxPpsCount c.nbPps c.pps unit).map fun (nbPps, pps) => { c with nbPps, pps }
  else if nalType = 13 then
    (countUnit 256 c.nbSpsExt c.spsExt unit).map fun (nbSpsExt, spsExt) => { c with nbSpsExt, spsExt }
  else .ok c

/-- `while (end - buf > 4)` -/
def sortUnits : Nat → List UInt8 → AvccLists → Option (Except Int AvccLists)
  | 0, _, _ => none
  | fuel + 1, buf, c =>
      if buf.length > 4 then
        let size := min (bigEndian (buf.take 4)) (buf.length - 4)
        let buf := buf.drop 4
        match sortUnit c (byteAt buf 0 &&& 0x1f) (buf.take size) with
        | .error ret => some (.error ret)
        | .ok c => sortUnits fuel (buf.drop size) c
      else some (.ok c)

/-- What follows the sorting: the result and the bytes written to `pb`. -/
def writeAvcc (decodeSps : List UInt8 → Except Int H264SPS) (c : AvccLists) : Int × List UInt8 :=
  if c.sps.length < 6 ∨ c.pps.length = 0 then (averrorInvaliddata, [])
  else
    let out := [1, byteAt c.sps 3, byteAt c.sps 4, byteAt c.sps 5, 0xff, 0xe0 ||| UInt8.ofNat c.nbSps] ++
      c.sps ++ [UInt8.ofNat c.nbPps] ++ c.pps
    if byteAt c.sps 3 ≠ 66 ∧ byteAt c.sps 3 ≠ 77 ∧ byteAt c.sps 3 ≠ 88 then
      match decodeSps (c.sps.drop 3) with
      | .error ret => (ret, out)
      | .ok seq =>
          (0, out ++ [0xfc ||| seq.chromaFormatIdc, 0xf8 ||| (seq.bitDepthLuma - 8),
            0xf8 ||| (seq.bitDepthChroma - 8), UInt8.ofNat c.nbSpsExt] ++
            if c.nbSpsExt ≠ 0 then c.spsExt else [])
    else (0, out)

/-- `addr` is the address of `data`; `none` stands for a loop that does not end. -/
def ffIsomWriteAvcc (decodeSps : List UInt8 → Except Int H264SPS) (addr : Nat) (data : List UInt8) :
    Option (Int × List UInt8) :=
  if data.length ≤ 6 then some (averrorInvaliddata, [])
  else if bigEndian (data.take 4) ≠ 1 ∧ bigEndian (data.take 3) ≠ 1 then some (0, data)
  else
    (ffAvcParseNalUnits addr data).bind fun (buf, _) =>
      (sortUnits (buf.length + 1) buf ⟨0, 0, 0, [], [], []⟩).map fun
        | .error ret => (ret, [])
        | .ok c => writeAvcc decodeSps c

theorem skipStartcode_code (long : Bool) (rest : List UInt8) :
    skipStartcode (startCode long ++ rest) = (startCode long).length := by
  cases long <;> simp [startCode, skipStartcode]

theorem avcParseNalUnits_units (units : List (Bool × Nal)) (fuel addr : Nat)
    (hfuel : units.length < fuel) : avcParseNalUnits fuel addr (annexB units) =
      some (lengthPrefixed 4 (units.map Prod.snd), (lengthPrefixed 4 (units.map Prod.snd)).length) := by
  induction units generalizing fuel addr with
  | nil =>
      obtain ⟨fuel, rfl⟩ := Nat.exists_eq_succ_of_ne_zero (Nat.ne_zero_of_lt hfuel)
      rfl
  | cons u us ih =>
      obtain ⟨fuel, rfl⟩ := Nat.exists_eq_succ_of_ne_zero (Nat.ne_zero_of_lt hfuel)
      have hfind : ∀ a, ffAvcFindStartcode a (u.2.bytes ++ annexB us) = u.2.bytes.length := by
        intro a
        cases us with
        | nil =>
            rw [annexB_nil, List.append_nil]
            exact ffAvcFindStartcode_end a u.2
        | cons v vs =>
            rw [annexB_cons]
            exact ffAvcFindStartcode_unit a u.2 v.1 (by simp [v.2.nonempty])
      simp only [avcParseNalUnits, annexB_cons, skipStartcode_code, List.drop_left, hfind, List.take_left]
      rw [if_neg (by simp [u.2.nonempty]), ih fuel _ (Nat.lt_of_succ_lt_succ hfuel)]
      simp [length_beBytes]
      omega

theorem length_le_annexB (units : List (Bool × Nal)) : units.length ≤ (annexB units).length := by
  induction units with
  | nil => exact Nat.zero_le _
  | cons u us ih =>
      have hpos := u.2.length_pos
      rw [annexB_cons, List.length_append, List.length_append, List.length_cons]
      omega

theorem ffAvcParseNalUnits_units (addr : Nat) (units : List (Bool × Nal)) (hunits : units ≠ []) :
    ffAvcParseNalUnits addr (annexB units) =
      some (lengthPrefixed 4 (units.map Prod.snd), (lengthPrefixed 4 (units.map Prod.snd)).length) := by
  obtain ⟨u, us, rfl⟩ := List.exists_cons_of_ne_nil hunits
  have hstart : ffAvcFindStartcode addr (annexB (u :: us)) = 0 := by
    rw [annexB_cons]
    exact ffAvcFindStartcode_start addr u.1 (by simp [u.2.nonempty])
  rw [ffAvcParseNalUnits, hstart]
  exact avcParseNalUnits_units _ _ _ (Nat.lt_succ_of_le (length_le_annexB _))

def ofType (nalType : UInt8) (us : List (List UInt8)) : List (List UInt8) :=
  us.filter fun u => byteAt u 0 &&& 0x1f = nalType

/-- Units with a length of two bytes in front of each. -/
def avccList (us : List (List UInt8)) : List UInt8 := withLengths 2 us

def AvccLists.of (us : List (List UInt8)) : AvccLists :=
  ⟨(ofType 7 us).length, (ofType 8 us).length, (ofType 13 us).length,
    avccList (ofType 7 us), avccList (ofType 8 us), avccList (ofType 13 us)⟩

/-- What the counts and the lengths of two bytes can say. -/
structure AvccFits (us : List (List UInt8)) : Prop where
  sps : (ofType 7 us).length ≤ 31
  pps : (ofType 8 us).length ≤ 255
  spsExt : (ofType 13 us).length ≤ 255
  small : ∀ u ∈ ofType 7 us ++ ofType 8 us ++ ofType 13 us, u.length ≤ uint16Max

theorem ofType_append (nalType : UInt8) (us vs : List (List UInt8)) :
    ofType nalType (us ++ vs) = ofType nalType us ++ ofType nalType vs := List.filter_append _ _

variable {us : List (List UInt8)} {u : List UInt8}

theorem ofType_concat_same {nalType : UInt8} (h : byteAt u 0 &&& 0x1f = nalType) :
    ofType nalType (us ++ [u]) = ofType nalType us ++ [u] := by
  rw [ofType_append]
  congr 1
  exact List.filter_eq_self.mpr (by simpa using h)

theorem ofType_concat_other {nalType : UInt8} (h : byteAt u 0 &&& 0x1f ≠ nalType) :
    ofType nalType (us ++ [u]) = ofType nalType us := by
  rw [ofType_append, show ofType nalType [u] = [] from List.filter_eq_nil_iff.mpr (by simpa using h),
    List.append_nil]

theorem AvccFits.left {us vs : List (List UInt8)} (h : AvccFits (us ++ vs)) : AvccFits us := by
  obtain ⟨hsps, hpps, hext, hsmall⟩ := h
  simp only [ofType_append, List.length_append] at hsps hpps hext
  refine ⟨by omega, by omega, by omega, fun u hu => hsmall u ?_⟩
  simp only [ofType_append, List.mem_append] at hu ⊢
  tauto

theorem countUnit_concat {limit : Nat} {us : List (List UInt8)} {u : List UInt8}
    (hsmall : u.length ≤ uint16Max) (hlimit : (us ++ [u]).length < limit) :
    countUnit limit us.length (avccList us) u = .ok ((us ++ [u]).length, avccList (us ++ [u])) := by
  rw [List.length_append, List.length_singleton] at hlimit
  rw [countUnit, if_neg (by omega), List.length_append, List.length_singleton, avccList, avccList,
    withLengths_append, withLengths_cons, withLengths_nil, List.append_nil, List.append_assoc]

theorem sortUnit_concat (h : AvccFits (us ++ [u])) :
    sortUnit (.of us) (byteAt u 0 &&& 0x1f) u = .ok (.of (us ++ [u])) := by
  obtain ⟨hsps, hpps, hext, hsmall⟩ := h
  rw [sortUnit]
  by_cases h7 : byteAt u 0 &&& 0x1f = 7
  · have h8 : byteAt u 0 &&& 0x1f ≠ 8 := by rw [h7]; decide
    have h13 : byteAt u 0 &&& 0x1f ≠ 13 := by rw [h7]; decide
    rw [ofType_concat_same h7] at hsps hsmall
    have hcount := @countUnit_concat h264MaxSpsCount (ofType 7 us) u (hsmall u (by simp))
      (Nat.lt_succ_of_le hsps)
    rw [if_pos h7, AvccLists.of, hcount, AvccLists.of, ofType_concat_same h7, ofType_concat_other h8,
      ofType_concat_other h13]
    rfl
  rw [if_neg h7]
  by_cases h8 : byteAt u 0 &&& 0x1f = 8
  · have h13 : byteAt u 0 &&& 0x1f ≠ 13 := by rw [h8]; decide
    rw [ofType_concat_same h8] at hpps hsmall
    have hcount := @countUnit_concat h264MaxPpsCount (ofType 8 us) u (hsmall u (by simp))
      (Nat.lt_succ_of_le hpps)
    rw [if_pos h8, AvccLists.of, hcount, AvccLists.of, ofType_concat_other h7, ofType_concat_same h8,
      ofType_concat_other h13]
    rfl
  rw [if_neg h8]
  by_cases h13 : byteAt u 0 &&& 0x1f = 13
  · rw [ofType_concat_same h13] at hext hsmall
    have hcount := @countUnit_concat 256 (ofType 13 us) u (hsmall u (by simp)) (Nat.lt_succ_of_le hext)
    rw [if_pos h13, AvccLists.of, hcount, AvccLists.of, ofType_concat_other h7, ofType_concat_other h8,
      ofType_concat_same h13]
    rfl
  · rw [if_neg h13, AvccLists.of, AvccLists.of, ofType_concat_other h7, ofType_concat_other h8,
      ofType_concat_other h13]

theorem sortUnits_units (units : List Nal) (us : List (List UInt8)) (fuel : Nat)
    (hfuel : units.length < fuel) (hsize : ∀ u ∈ units, u.bytes.length < 256 ^ 4)
    (hfits : AvccFits (us ++ units.map (·.bytes))) :
    sortUnits fuel (lengthPrefixed 4 units) (.of us) = some (.ok (.of (us ++ units.map (·.bytes)))) := by
  induction units generalizing us fuel with
  | nil =>
      obtain ⟨fuel, rfl⟩ := Nat.exists_eq_succ_of_ne_zero (Nat.ne_zero_of_lt hfuel)
      rw [List.map_nil, List.append_nil]
      rfl
  | cons u units ih =>
      obtain ⟨fuel, rfl⟩ := Nat.exists_eq_succ_of_ne_zero (Nat.ne_zero_of_lt hfuel)
      have hpos := u.length_pos
      have hcons : us ++ (u :: units).map (·.bytes) = us ++ [u.bytes] ++ units.map (·.bytes) := by simp
      rw [hcons] at hfits ⊢
      have htake : (lengthPrefixed 4 (u :: units)).take 4 = beBytes 4 u.bytes.length := by
        rw [lengthPrefixed_cons]
        exact List.take_left' (length_beBytes _ _)
      have hdrop : (lengthPrefixed 4 (u :: units)).drop 4 = u.bytes ++ lengthPrefixed 4 units := by
        rw [lengthPrefixed_cons]
        exact List.drop_left' (length_beBytes _ _)
      have hlen : (lengthPrefixed 4 (u :: units)).length =
          4 + (u.bytes.length + (lengthPrefixed 4 units).length) := by
        rw [lengthPrefixed_cons, List.length_append, List.length_append, length_beBytes]
      simp only [sortUnits, htake, hdrop, hlen, bigEndian_beBytes (hsize u (by simp))]
      rw [if_pos (by omega), Nat.min_eq_left (by omega), List.take_left, List.drop_left,
        byteAt_append_left hpos, sortUnit_concat hfits.left]
      exact ih _ _ (Nat.lt_of_succ_lt_succ hfuel) (fun v hv => hsize v (by simp [hv])) hfits

theorem avccList_cons (u : List UInt8) (us : List (List UInt8)) :
    avccList (u :: us) = beBytes 2 u.length ++ (u ++ avccList us) := by
  exact withLengths_cons 2 u us

theorem length_avccList_cons (u : List UInt8) (us : List (List UInt8)) :
    (avccList (u :: us)).length = 2 + (u.length + (avccList us).length) := by
  rw [avccList_cons, List.length_append, List.length_append, length_beBytes]

theorem convertUnits_cons {mem u rest : List UInt8} {us : List (List UInt8)} {size fuel : Nat} {c : Conversion}
    (hcount : c.unitNb = (u :: us).length) (hsmall : u.length ≤ uint16Max)
    (hmem : mem.drop c.pos = avccList (u :: us) ++ rest)
    (hsize : c.pos + (avccList (u :: us)).length + (if c.spsDone then 0 else 1) ≤ size) :
    convertUnits mem size (fuel + 1) c = convertUnits mem size fuel (ppsLabel mem { c with
      unitNb := us.length
      out := c.out ++ [0, 0, 0, 1] ++ u
      pos := c.pos + 2 + u.length }) ∧
    mem.drop (c.pos + 2 + u.length) = avccList us ++ rest := by
  rw [length_avccList_cons] at hsize
  rw [avccList_cons, List.append_assoc, List.append_assoc] at hmem
  have hword : (avRb16 mem c.pos).toNat = u.length := by
    have hread := avRb16_beBytes (Nat.lt_succ_of_le hsmall) (u ++ (avccList us ++ rest))
    rw [← hmem, avRb16, byteAt_drop, byteAt_drop] at hread
    exact hread
  have hdrop : mem.drop (c.pos + 2) = u ++ (avccList us ++ rest) := by
    rw [← List.drop_drop, hmem, List.drop_left' (length_beBytes 2 _)]
  have hmore : (if c.spsDone then 0 else 1 : Int) = ((if c.spsDone then 0 else 1 : Nat) : Int) := by
    cases c.spsDone <;> rfl
  generalize (if c.spsDone then 0 else 1 : Nat) = more at hsize hmore
  constructor
  · rw [convertUnits, if_neg (by rw [hcount]; exact Nat.succ_ne_zero _)]
    simp only [hword, hdrop, hmore, hcount, List.take_left, List.length_cons, Nat.add_sub_cancel]
    rw [if_neg (by omega)]
  · rw [← List.drop_drop, hdrop, List.drop_left]

theorem convertUnits_pps {mem rest : List UInt8} {size : Nat} (us : List (List UInt8)) (fuel : Nat)
    (c : Conversion) (hdone : c.spsDone = true) (hcount : c.unitNb = us.length)
    (hsmall : ∀ u ∈ us, u.length ≤ uint16Max) (hmem : mem.drop c.pos = avccList us ++ rest)
    (hsize : c.pos + (avccList us).length ≤ size) :
    convertUnits mem size (fuel + 1 + us.length) c = some (.ok { c with
      unitNb := 0
      out := c.out ++ startCoded us
      pos := c.pos + (avccList us).length }) := by
  obtain ⟨pos, unitNb, spsDone, out, ppsOffset⟩ := c
  cases hdone
  induction us generalizing pos unitNb out with
  | nil =>
      cases hcount
      rw [List.length_nil, Nat.add_zero, convertUnits, if_pos rfl]
      simp [startCoded, avccList]
  | cons u us ih =>
      obtain ⟨hunit, hrest⟩ := @convertUnits_cons mem u rest us size (fuel + 1 + us.length) _ hcount
        (hsmall u List.mem_cons_self) hmem hsize
      have hlen := length_avccList_cons u us
      rw [List.length_cons, ← Nat.add_assoc, hunit, ppsLabel, if_neg (by simp),
        ih (fun v hv => hsmall v (List.mem_cons_of_mem u hv)) _ _ _ rfl hrest (by simp only at hsize ⊢; omega)]
      simp only [hlen, Option.some.injEq, Except.ok.injEq, Conversion.mk.injEq, startCoded,
        List.flatMap_cons, List.append_assoc, and_true]
      omega

theorem convertUnits_sps {mem rest : List UInt8} {size : Nat} (us : List (List UInt8)) (fuel : Nat)
    (c : Conversion) (hne : us ≠ []) (hdone : c.spsDone = false) (hcount : c.unitNb = us.length)
    (hsmall : ∀ u ∈ us, u.length ≤ uint16Max) (hmem : mem.drop c.pos = avccList us ++ rest)
    (hsize : c.pos + (avccList us).length + 1 ≤ size) :
    convertUnits mem size (fuel + us.length) c = convertUnits mem size fuel {
      pos := c.pos + (avccList us).length + 1
      unitNb := (byteAt rest 0).toNat
      spsDone := true
      out := c.out ++ startCoded us
      ppsOffset := (c.out ++ startCoded us).length } := by
  obtain ⟨pos, unitNb, spsDone, out, ppsOffset⟩ := c
  cases hdone
  induction us generalizing pos unitNb out with
  | nil => exact absurd rfl hne
  | cons u us ih =>
      obtain ⟨hunit, hrest⟩ := @convertUnits_cons mem u rest us size (fuel + us.length) _ hcount
        (hsmall u List.mem_cons_self) hmem hsize
      have hlen := length_avccList_cons u us
      rw [List.length_cons, ← Nat.add_assoc, hunit]
      simp only at hrest hsize ⊢
      cases us with
      | nil =>
          have hbyte : byteAt mem (pos + 2 + u.length) = byteAt rest 0 := by
            rw [← Nat.add_zero (pos + 2 + u.length), ← byteAt_drop, hrest]
            rfl
          rw [ppsLabel, if_pos ⟨rfl, rfl⟩, hlen]
          simp only [hbyte]
          simp [startCoded, avccList, Nat.add_assoc]
      | cons v vs =>
          rw [ppsLabel, if_neg (by simp), ih (List.cons_ne_nil v vs)
            (fun w hw => hsmall w (List.mem_cons_of_mem u hw)) _ (v :: vs).length _ rfl hrest (by simp only; omega)]
          simp only [hlen, startCoded, List.flatMap_cons, List.append_assoc]
          congr 2
          omega

theorem length_startCoded_pos (h : us ≠ []) : 0 < (startCoded us).length := by
  obtain ⟨u, us, rfl⟩ := List.exists_cons_of_ne_nil h
  simp [startCoded]

theorem h264ExtradataToAnnexb_lists {s : H264BSFContext} {padding tail : List UInt8} {a b c : UInt8}
    {spsUnits ppsUnits : List (List UInt8)} (hsps : spsUnits ≠ []) (hpps : ppsUnits ≠ [])
    (hnbSps : spsUnits.length ≤ 31) (hnbPps : ppsUnits.length ≤ 255)
    (hsmallSps : ∀ u ∈ spsUnits, u.length ≤ uint16Max) (hsmallPps : ∀ u ∈ ppsUnits, u.length ≤ uint16Max) :
    h264ExtradataToAnnexb s ([1, a, b, c, 0xff, 0xe0 ||| UInt8.ofNat spsUnits.length] ++
        avccList spsUnits ++ [UInt8.ofNat ppsUnits.length] ++ avccList ppsUnits ++ tail) padding =
      some (.ok (4, { s with
        sps := startCoded spsUnits
        pps := startCoded ppsUnits
        extradata := some (startCoded spsUnits ++ startCoded ppsUnits) })) := by
  generalize hbox : [1, a, b, c, 0xff, 0xe0 ||| UInt8.ofNat spsUnits.length] ++ avccList spsUnits ++
    [UInt8.ofNat ppsUnits.length] ++ avccList ppsUnits ++ tail = box
  have hlen : box.length = 6 + (avccList spsUnits).length + 1 + (avccList ppsUnits).length + tail.length := by
    rw [← hbox]
    simp
    omega
  have hcount : (byteAt (box ++ padding) 5 &&& 0x1f).toNat = spsUnits.length := by
    have hbyte : byteAt (box ++ padding) 5 = 0xe0 ||| UInt8.ofNat spsUnits.length := by
      rw [← hbox]
      rfl
    have hfield : ∀ n < 32, ((0xe0 ||| UInt8.ofNat n) &&& 0x1f).toNat = n := by decide
    rw [hbyte]
    exact hfield _ (Nat.lt_succ_of_le hnbSps)
  have hlength : (byteAt (box ++ padding) 4 &&& 0x3).toNat + 1 = 4 := by
    have hbyte : byteAt (box ++ padding) 4 = 0xff := by
      rw [← hbox]
      rfl
    rw [hbyte]
    rfl
  have hmem : (box ++ padding).drop 6 = avccList spsUnits ++
      (UInt8.ofNat ppsUnits.length :: (avccList ppsUnits ++ (tail ++ padding))) := by
    rw [← hbox]
    simp
  have hafter : (box ++ padding).drop (6 + (avccList spsUnits).length + 1) =
      avccList ppsUnits ++ (tail ++ padding) := by
    rw [Nat.add_assoc, ← List.drop_drop, hmem, ← List.drop_drop, List.drop_left]
    rfl
  have hbyte : (UInt8.ofNat ppsUnits.length).toNat = ppsUnits.length :=
    Nat.mod_eq_of_lt (Nat.lt_succ_of_le hnbPps)
  have hnonempty := length_startCoded_pos hsps
  have hnonempty' := length_startCoded_pos hpps
  have hspsPos := List.length_pos_iff.mpr hsps
  simp only [h264ExtradataToAnnexb, hcount, hlength]
  rw [if_neg (by omega), show conversionFuel =
    (255 - ppsUnits.length + (31 - spsUnits.length) + 1) + 1 + ppsUnits.length + spsUnits.length by
      rw [conversionFuel]; omega,
    convertUnits_sps spsUnits _ _ hsps rfl rfl hsmallSps hmem (by simp only; omega),
    convertUnits_pps ppsUnits _ _ rfl hbyte hsmallPps hafter (by simp only; omega)]
  simp only [Option.map_some, Except.map, List.nil_append, List.take_left, List.drop_left]
  rw [if_pos (by omega), if_pos (by rw [List.length_append]; omega), if_neg]
  intro hnil
  rw [List.append_eq_nil_iff] at hnil
  rw [hnil.1] at hnonempty
  exact Nat.lt_irrefl _ hnonempty

def unitBytes (units : List (Bool × Nal)) : List (List UInt8) := units.map fun u => u.2.bytes

theorem annexB_startcode {units : List (Bool × Nal)} (hunits : units ≠ []) :
    bigEndian ((annexB units).take 4) = 1 ∨ bigEndian ((annexB units).take 3) = 1 := by
  obtain ⟨⟨long, nal⟩, us, rfl⟩ := List.exists_cons_of_ne_nil hunits
  cases long with
  | true => exact .inl rfl
  | false => exact .inr rfl

theorem length_le_avccList (h : u ∈ us) : 2 + u.length ≤ (avccList us).length := by
  obtain ⟨before, after, rfl⟩ := List.append_of_mem h
  rw [avccList, withLengths, List.flatMap_append, List.flatMap_cons]
  simp only [List.length_append, length_beBytes]
  omega

theorem length_le_lengthPrefixed (units : List Nal) : units.length ≤ (lengthPrefixed 4 units).length := by
  induction units with
  | nil => exact Nat.zero_le _
  | cons u us ih =>
      rw [lengthPrefixed_cons, List.length_append, List.length_append, length_beBytes, List.length_cons]
      omega

theorem length_mem_annexB {units : List (Bool × Nal)} {u : Bool × Nal} (h : u ∈ units) :
    3 + u.2.bytes.length ≤ (annexB units).length := by
  obtain ⟨before, after, rfl⟩ := List.append_of_mem h
  obtain ⟨long, nal⟩ := u
  rw [annexB, withStartCodes, List.map_append, List.flatMap_append, List.map_cons, List.flatMap_cons]
  cases long <;> simp <;> omega

def baselineSps : Nal where
  bytes := [0x67, 66, 0, 30]
  nonempty := by decide
  noCode i hi :=
    (by decide : ∀ i < 2, startCodeAt [0x67, 66, 0, 30] i = false) i (Nat.lt_of_add_lt_add_right hi)
  last := by decide

def baselinePps : Nal where
  bytes := [0x68, 0xce]
  nonempty := by decide
  noCode i hi := absurd hi (by simp)
  last := by decide

end P2PFFmpeg.Annexb
