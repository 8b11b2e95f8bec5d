import P2PFFmpeg.Annexb.Filter
import P2PFFmpeg.Payload.AccessUnit

namespace P2PFFmpeg.Annexb

open Library.ByteFile Library.Transition Util

/-- The reading of a packet as units with a length of `n` bytes before each. -/
inductive LengthPrefixed (n : Nat) : List UInt8 → List (List UInt8) → Prop
  | done : LengthPrefixed n [] []
  | unit {len unit rest us} : len.length = n → Payload.bigEndian len = unit.length →
      LengthPrefixed n rest us → LengthPrefixed n (len ++ unit ++ rest) (unit :: us)

/-- The bytes of the units, each behind a start code, in their order; empty ones are left
out. `first` says that nothing was written before. -/
inductive Spelled (s : H264BSFContext) : Bool → List (List UInt8) → List UInt8 → Prop
  | nil {first} : Spelled s first [] []
  | skip {first us bytes} : Spelled s first us bytes → Spelled s first ([] :: us) bytes
  | unit {first insert code unit us bytes} : unit ≠ [] → Inserted s unit insert →
      code = [0, 0, 0, 1] ∨ code = [0, 0, 1] →
      (first = true → insert = [] → code = [0, 0, 0, 1]) → Spelled s false us bytes →
      Spelled s first (unit :: us) (insert ++ code ++ unit ++ bytes)

/-- What the filter makes of the units of a packet: before each that is not empty stand a part of
the extradata and a start code. -/
inductive Traced (s : H264BSFContext) (padding : List UInt8) :
    Flags → List UInt8 → List (Insertion × List UInt8) → List UInt8 → Flags → Prop
  | done {f} : Traced s padding f [] [] [] f
  | skip {f len rest pieces out g} : len.length = s.lengthSize → Payload.bigEndian len = 0 →
      Traced s padding f rest pieces out g → Traced s padding f (len ++ rest) pieces out g
  | unit {f len unit rest i code pieces out g h} : len.length = s.lengthSize → Payload.bigEndian len = unit.length →
      unit ≠ [] → f.unit s (byteAt unit 0 &&& 0x1f) (byteAt (unit ++ rest ++ padding) 1) = (g, i) →
      code = [0, 0, 0, 1] ∨ code = [0, 0, 1] → Traced s padding g rest pieces out h →
      Traced s padding f (len ++ unit ++ rest) ((i, unit) :: pieces) (i.bytes s ++ code ++ unit ++ out) h

variable {s : H264BSFContext} {a b : View} {data padding : List UInt8}

variable {us : List (List UInt8)} {s₀ : H264BSFContext}

theorem LengthPrefixed.ne_nil {n : Nat} (h : LengthPrefixed n data us) (hdata : data ≠ []) :
    ∃ len unit rest, data = len ++ unit ++ rest ∧ len.length = n ∧
      Payload.bigEndian len = unit.length := by
  cases h with
  | done => exact absurd rfl hdata
  | unit hlen hsize _ => exact ⟨_, _, _, rfl, hlen, hsize⟩

theorem LengthPrefixed.tail {n : Nat} {len unit rest : List UInt8} (hn : 1 ≤ n) (hlen : len.length = n)
    (hsize : Payload.bigEndian len = unit.length) (h : LengthPrefixed n (len ++ unit ++ rest) us) :
    ∃ us', LengthPrefixed n rest us' := by
  generalize hdata : len ++ unit ++ rest = data at h
  cases h with
  | done =>
      have hlength := congrArg List.length hdata
      simp only [List.length_append, List.length_nil] at hlength
      omega
  | unit hlen' hsize' hrest =>
      rw [List.append_assoc, List.append_assoc] at hdata
      obtain ⟨rfl, htail⟩ := List.append_inj hdata (hlen.trans hlen'.symm)
      obtain ⟨-, rfl⟩ := List.append_inj htail (hsize.symm.trans hsize')
      exact ⟨_, hrest⟩

structure UnitAt (s : H264BSFContext) (data : List UInt8) (buf : Nat) (len unit rest : List UInt8) : Prop where
  split : data.drop buf = len ++ unit ++ rest
  length : len.length = s.lengthSize
  size : Payload.bigEndian len = unit.length

theorem bigEndian_mod {len : List UInt8} (h : len.length ≤ 4) : Payload.bigEndian len % 2 ^ 32 = Payload.bigEndian len :=
  Nat.mod_eq_of_lt (Nat.lt_of_lt_of_le (Payload.bigEndian_lt len) (Nat.pow_le_pow_right (by decide) h))

theorem unitAt_or_invalid (hn4 : s.lengthSize ≤ 4) (padding : List UInt8) {buf : Nat} (hbuf : buf < data.length) :
    (∃ len unit rest, UnitAt s data buf len unit rest) ∨
      (∀ us, ¬ LengthPrefixed s.lengthSize (data.drop buf) us) ∧ ∀ copy fuel p,
        filterLoop s copy (data ++ padding) data.length (fuel + 1) buf p = .error .invalid := by
  by_cases hunit : ∃ len unit rest, UnitAt s data buf len unit rest
  · exact .inl hunit
  have hlength : (data.drop buf).length = data.length - buf := List.length_drop
  refine .inr ⟨fun us hus => ?_, fun copy fuel p => ?_⟩
  · have hne : data.drop buf ≠ [] := by
      intro hnil
      rw [hnil, List.length_nil] at hlength
      omega
    obtain ⟨len, unit, rest, hdata, hlen, hsize⟩ := hus.ne_nil hne
    exact hunit ⟨len, unit, rest, hdata, hlen, hsize⟩
  · rw [filterLoop]
    simp only
    rw [List.drop_append_of_le_length hbuf.le]
    -- a length that fits is the one of a unit
    by_cases hfits : buf + s.lengthSize ≤ data.length
    · rw [List.take_append_of_le_length (by omega)]
      have hlen : ((data.drop buf).take s.lengthSize).length = s.lengthSize := by
        rw [List.length_take]
        omega
      rw [bigEndian_mod (hlen.trans_le hn4), if_pos]
      by_contra hsize
      have hsplit : data.drop buf = (data.drop buf).take s.lengthSize ++
          ((data.drop buf).drop s.lengthSize).take (Payload.bigEndian ((data.drop buf).take s.lengthSize)) ++
          ((data.drop buf).drop s.lengthSize).drop (Payload.bigEndian ((data.drop buf).take s.lengthSize)) := by
        rw [List.append_assoc, List.take_append_drop, List.take_append_drop]
      refine hunit ⟨_, _, _, hsplit, hlen, ?_⟩
      rw [List.length_take, List.length_drop]
      omega
    · rw [if_pos (by omega)]

theorem filterLoop_unit {len unit rest : List UInt8} {buf : Nat} (hn4 : s.lengthSize ≤ 4) (hbuf : buf < data.length)
    (h : UnitAt s data buf len unit rest) (copy : Bool) (fuel : Nat) (p : Pass) :
    filterLoop s copy (data ++ padding) data.length (fuel + 1) buf p =
      (if unit = [] then .ok p else filterUnit s copy unit (byteAt (unit ++ rest ++ padding) 1) p).bind fun p =>
        if rest = [] then .ok p
        else filterLoop s copy (data ++ padding) data.length fuel (buf + s.lengthSize + unit.length) p := by
  have hmem : (data ++ padding).drop buf = len ++ (unit ++ rest ++ padding) := by
    rw [List.drop_append_of_le_length hbuf.le, h.split]
    simp only [List.append_assoc]
  have hlength := congrArg List.length h.split
  simp only [List.length_drop, List.length_append, h.length] at hlength
  have hnal := bigEndian_mod (h.length.trans_le hn4)
  have hbehind : (data ++ padding).drop (buf + s.lengthSize) = unit ++ rest ++ padding := by
    rw [← List.drop_drop, hmem, ← h.length, List.drop_left]
  have hmore : buf + s.lengthSize + unit.length < data.length ↔ rest ≠ [] := by
    rw [← List.length_pos_iff]
    omega
  rw [filterLoop]
  simp only
  rw [hmem, ← h.length, List.take_left, hnal, h.length, h.size, if_neg (by omega), ← byteAt_drop, hbehind,
    List.append_assoc, List.take_left]
  by_cases hunit : unit = []
  · subst hunit
    simp only [List.length_nil, Nat.add_zero] at hmore
    simp only [List.length_nil, if_true, hmore, ite_not]
    rfl
  · rw [if_neg hunit, if_neg (List.length_eq_zero_iff.not.mpr hunit)]
    simp only [hmore, ite_not]

theorem unit_emits (s : H264BSFContext) (padding len unit rest : List UInt8) (hlen : len.length = s.lengthSize)
    (hsize : Payload.bigEndian len = unit.length) (a : View) :
    ∃ b bytes, Emits (fun copy p => if unit = [] then .ok p
        else filterUnit s copy unit (byteAt (unit ++ rest ++ padding) 1) p) a b bytes ∧
      ∀ us pieces out c, Spelled s (b.outSize = 0) us out → Traced s padding b.flags rest pieces out c →
        Spelled s (a.outSize = 0) (unit :: us) (bytes ++ out) ∧
          ∃ pieces, Traced s padding a.flags (len ++ unit ++ rest) pieces (bytes ++ out) c := by
  by_cases hunit : unit = []
  · subst hunit
    refine ⟨a, [], .flags (h := id) (fun _ _ _ => rfl) (fun _ hp => hp) rfl fun _ => ⟨rfl, rfl⟩, ?_⟩
    intro us pieces out c hspelled htraced
    rw [List.append_nil]
    exact ⟨.skip hspelled, pieces, .skip hlen hsize htraced⟩
  obtain ⟨b, code, hemit, hflags, hcode, hfirst⟩ := filterUnit_emits s unit (byteAt (unit ++ rest ++ padding) 1) a
  refine ⟨b, _, hemit.congr fun copy p _ => if_neg hunit, ?_⟩
  intro us pieces out c hspelled htraced
  have hwritten : decide (b.outSize = 0) = false := by
    refine decide_eq_false ?_
    have hgrown := hemit.size
    have hpos := List.length_pos_iff.mpr hunit
    rw [List.length_append] at hgrown
    omega
  rw [hwritten] at hspelled
  exact ⟨.unit hunit (unit_inserted s unit _ a.flags) hcode (fun h => hfirst (of_decide_eq_true h)) hspelled,
    _, .unit hlen hsize hunit (Prod.ext hflags.symm rfl) hcode htraced⟩

/-- From a position in the packet, the loop either spells the units that the rest of the
packet consists of, or finds the packet invalid because it does not consist of units. -/
theorem filterLoop_cases (hn : 1 ≤ s.lengthSize) (hn4 : s.lengthSize ≤ 4) (fuel buf : Nat)
    (hbuf : buf < data.length) (hfuel : data.length - buf < fuel) (a : View) :
    (∃ us b bytes, LengthPrefixed s.lengthSize (data.drop buf) us ∧
      Emits (fun copy p => filterLoop s copy (data ++ padding) data.length fuel buf p) a b bytes ∧
      Spelled s (a.outSize = 0) us bytes ∧
      ∃ pieces, Traced s padding a.flags (data.drop buf) pieces bytes b.flags) ∨
    (∀ us, ¬ LengthPrefixed s.lengthSize (data.drop buf) us) ∧
      ∀ p, p.view = a →
        filterLoop s false (data ++ padding) data.length fuel buf p = .error .invalid := by
  induction fuel generalizing buf a with
  | zero => omega
  | succ fuel ih =>
      obtain ⟨len, unit, rest, hunit⟩ | ⟨hnot, hinvalid⟩ := unitAt_or_invalid hn4 padding hbuf
      rotate_left
      · exact .inr ⟨hnot, fun p _ => hinvalid false fuel p⟩
      have hloop := @filterLoop_unit s data padding _ _ _ _ hn4 hbuf hunit
      rw [hunit.split]
      have hrest : data.drop (buf + s.lengthSize + unit.length) = rest := by
        rw [← List.drop_drop, ← List.drop_drop, hunit.split, List.append_assoc, ← hunit.length, List.drop_left,
          List.drop_left]
      have htail : ∀ b : View,
          (∃ us c bytes, LengthPrefixed s.lengthSize rest us ∧
            Emits (fun copy p => if rest = [] then .ok p else filterLoop s copy (data ++ padding) data.length fuel
              (buf + s.lengthSize + unit.length) p) b c bytes ∧ Spelled s (b.outSize = 0) us bytes ∧
            ∃ pieces, Traced s padding b.flags rest pieces bytes c.flags) ∨
          (∀ us, ¬ LengthPrefixed s.lengthSize rest us) ∧ ∀ p, p.view = b →
            (if rest = [] then .ok p else filterLoop s false (data ++ padding) data.length fuel
              (buf + s.lengthSize + unit.length) p) = .error .invalid := by
        intro b
        by_cases hend : rest = []
        · subst hend
          simp only [if_true]
          exact .inl ⟨[], b, [], .done, .flags (h := id) (fun _ _ _ => rfl) (fun _ hp => hp) rfl
            fun _ => ⟨rfl, rfl⟩, .nil, [], .done⟩
        · simp only [if_neg hend]
          have hmore : buf + s.lengthSize + unit.length < data.length := by
            by_contra hlast
            exact hend (hrest ▸ List.drop_of_length_le (by omega))
          have hnext := ih _ hmore (by omega) b
          rwa [hrest] at hnext
      obtain ⟨b, bytes, hemit, hadds⟩ := unit_emits s padding len unit rest hunit.length hunit.size a
      obtain ⟨us, c, out, hus, hemits, hspelled, pieces, htraced⟩ | ⟨hnot, hinvalid⟩ := htail b
      · obtain ⟨hspelled', htraced'⟩ := hadds us pieces out _ hspelled htraced
        exact .inl ⟨unit :: us, c, bytes ++ out, .unit hunit.length hunit.size hus,
          (hemit.bind hemits).congr fun copy p _ => hloop copy fuel p, hspelled', htraced'⟩
      · refine .inr ⟨fun us hus => ?_, fun p hp => ?_⟩
        · obtain ⟨us', hus'⟩ := hus.tail hn hunit.length hunit.size
          exact hnot us' hus'
        · obtain ⟨q, hq, hview⟩ := hemit.counts p hp
          rw [hloop, hq]
          exact hinvalid q hview

theorem length_avNewPacket (garbage : List UInt8) (size : Nat) :
    (avNewPacket garbage size).length = size := by
  rw [avNewPacket, List.length_take, List.length_append, List.length_replicate]
  omega

theorem pwrite_whole {f bytes : List UInt8} (h : bytes.length = f.length) : pwrite f 0 bytes = bytes := by
  have htake := @take_pwrite _ _ f bytes 0 0 (Nat.le_refl _) (Nat.zero_le _) (by omega)
  rw [Nat.zero_add, Nat.zero_max, List.take_zero] at htake
  have hlen : (pwrite f 0 bytes).length = bytes.length := by
    rw [length_pwrite (Nat.zero_le _)]
    omega
  rw [← hlen, List.take_length] at htake
  rw [htake]
  by_cases hb : bytes = []
  · simp [hb]
  · simp [pwrite, hb]

theorem passes_spell {bytes garbage : List UInt8}
    (hemits : Emits (fun copy p => filterLoop s copy (data ++ padding) data.length (data.length + 1) 0 p)
      (startPass s []).view b bytes) : ∃ counted copied,
      filterLoop s false (data ++ padding) data.length (data.length + 1) 0 (startPass s []) = .ok counted ∧
      counted.outSize = bytes.length ∧
      filterLoop s true (data ++ padding) data.length (data.length + 1) 0
        (startPass s (avNewPacket garbage bytes.length)) = .ok copied ∧
      copied.outSize = bytes.length ∧ copied.ptr = bytes.length ∧ copied.out = bytes ∧ copied.view = b := by
  have hsize : b.outSize = bytes.length := hemits.size.trans (Nat.zero_add _)
  obtain ⟨counted, hcounted, hview⟩ := hemits.counts (startPass s []) rfl
  have hroom : (startPass s (avNewPacket garbage bytes.length)).ptr + bytes.length ≤
      (startPass s (avNewPacket garbage bytes.length)).out.length := by
    simp [startPass, length_avNewPacket]
  obtain ⟨copied, hcopied, hview', hout, hptr⟩ :=
    hemits.copies (startPass s (avNewPacket garbage bytes.length)) rfl hroom
  refine ⟨counted, copied, hcounted, ?_, hcopied, ?_, ?_, ?_, hview'⟩
  · rw [← hsize, ← hview]
    rfl
  · rw [← hsize, ← hview']
    rfl
  · rw [hptr, startPass, Nat.zero_add]
  · rw [hout]
    exact pwrite_whole (length_avNewPacket _ _).symm

theorem filter_cases {garbage : List UInt8} (hn : 1 ≤ s.lengthSize) (hn4 : s.lengthSize ≤ 4)
    (hparsed : s.extradataParsed = true) :
    (∃ us pieces out counted copied, LengthPrefixed s.lengthSize data us ∧ Spelled s true us out ∧
      Traced s padding (startPass s []).view.flags data pieces out copied.view.flags ∧
      filterLoop s false (data ++ padding) data.length (data.length + 1) 0 (startPass s []) = .ok counted ∧
      counted.outSize = out.length ∧
      filterLoop s true (data ++ padding) data.length (data.length + 1) 0
        (startPass s (avNewPacket garbage out.length)) = .ok copied ∧ copied.ptr = out.length ∧
      h264Mp4toannexbFilter s data padding garbage =
        if out.length > intMax - avInputBufferPaddingSize then some (.error averrorInvaliddata, s)
        else some (.ok out, { s with
          newIdr := copied.newIdr, idrSpsSeen := copied.spsSeen, idrPpsSeen := copied.ppsSeen })) ∨
    (data ≠ [] → ∀ us, ¬ LengthPrefixed s.lengthSize data us) ∧
      h264Mp4toannexbFilter s data padding garbage = some (.error averrorInvaliddata, s) := by
  by_cases hdata : data = []
  · have hinvalid : filterLoop s false (data ++ padding) data.length (data.length + 1) 0 (startPass s []) =
        .error .invalid := by
      rw [hdata, filterLoop, if_pos]
      rw [List.length_nil]
      omega
    refine .inr ⟨absurd hdata, ?_⟩
    simp only [h264Mp4toannexbFilter, hparsed, hinvalid, Bool.true_eq_false, if_false]
  have hcases := @filterLoop_cases s data padding hn hn4 (data.length + 1) 0 (List.length_pos_iff.mpr hdata)
    (by omega) (startPass s []).view
  rw [List.drop_zero] at hcases
  obtain ⟨us, b, out, hus, hemits, hspelled, pieces, htraced⟩ | ⟨hnot, hinvalid⟩ := hcases
  · obtain ⟨counted, copied, hcounted, hcsize, hcopied, hwritten, hptr, hout, hview⟩ :=
      @passes_spell s b data padding out garbage hemits
    refine .inl ⟨us, pieces, out, counted, copied, hus, hspelled, hview ▸ htraced, hcounted, hcsize, hcopied, hptr, ?_⟩
    simp only [h264Mp4toannexbFilter, hparsed, Bool.true_eq_false, if_false, hcounted, hcsize, hcopied,
      hwritten, hout, if_true]
  · refine .inr ⟨fun _ => hnot, ?_⟩
    simp only [h264Mp4toannexbFilter, hparsed, hinvalid _ rfl, Bool.true_eq_false, if_false]

inductive PacketCall
  | filter (data padding garbage : List UInt8)
  | flush

def packets (s₀ : H264BSFContext) : System H264BSFContext PacketCall where
  init s := s = s₀
  next s
    | .filter data padding garbage => (h264Mp4toannexbFilter s data padding garbage).map Prod.snd
    | .flush => some (h264Mp4toannexbFlush s)

def SameSets (s₀ s : H264BSFContext) : Prop :=
  s = { s₀ with newIdr := s.newIdr, idrSpsSeen := s.idrSpsSeen, idrPpsSeen := s.idrPpsSeen }

theorem Spelled.sameSets (hsame : SameSets s₀ s) {first : Bool} {bytes : List UInt8}
    (h : Spelled s first us bytes) : Spelled s₀ first us bytes := by
  induction h with
  | nil => exact .nil
  | skip _ ih => exact .skip ih
  | unit hne hinsert hcode hfirst _ ih =>
      refine .unit hne ?_ hcode hfirst ih
      rw [hsame] at hinsert
      exact hinsert

theorem packets_sameSets (hs : (packets s₀).Reachable s) : SameSets s₀ s := by
  refine hs.invariant (SameSets s₀) (fun s hs => by cases hs; rfl) ?_
  intro s c t _ hsame hnext
  cases c with
  | flush =>
      cases hnext
      rw [SameSets] at hsame ⊢
      rw [hsame]
      rfl
  | filter data padding garbage =>
      obtain ⟨⟨ret, t'⟩, hfilter, rfl⟩ := Option.map_eq_some_iff.mp hnext
      simp only [h264Mp4toannexbFilter] at hfilter
      have hflags : ∀ x y z, SameSets s₀ { s with newIdr := x, idrSpsSeen := y, idrPpsSeen := z } := by
        intro x y z
        rw [SameSets] at hsame ⊢
        rw [hsame]
      split at hfilter
      · cases hfilter
        exact hsame
      · split at hfilter
        · cases hfilter
          exact hsame
        · cases hfilter
        · split at hfilter
          · cases hfilter
            exact hsame
          · split at hfilter
            · cases hfilter
              exact hsame
            · cases hfilter
            · split at hfilter
              · cases hfilter
                exact hflags _ _ _
              · cases hfilter

/-- Units as the extradata are converted to. -/
def startCoded (us : List (List UInt8)) : List UInt8 :=
  us.flatMap fun unit => [0, 0, 0, 1] ++ unit

theorem startCoded_concat (us : List (List UInt8)) (unit : List UInt8) :
    startCoded (us ++ [unit]) = startCoded us ++ [0, 0, 0, 1] ++ unit := by
  rw [startCoded, List.flatMap_append, List.flatMap_singleton, ← List.append_assoc]
  rfl

def Conversion.Splits (c : Conversion) : Prop :=
  ∃ spsUnits ppsUnits, c.out = startCoded spsUnits ++ startCoded ppsUnits ∧
    c.ppsOffset = (startCoded spsUnits).length

theorem ppsLabel_splits {mem : List UInt8} {c : Conversion} (h : c.Splits) : (ppsLabel mem c).Splits := by
  rw [ppsLabel]
  split
  · obtain ⟨spsUnits, ppsUnits, hout, -⟩ := h
    refine ⟨spsUnits ++ ppsUnits, [], ?_, ?_⟩
    · simp [hout, startCoded]
    · simp [hout, startCoded]
  · exact h

theorem convertUnits_splits {mem : List UInt8} {size fuel : Nat} {c d : Conversion} (h : c.Splits)
    (hconvert : convertUnits mem size fuel c = some (.ok d)) : d.Splits := by
  induction fuel generalizing c with
  | zero => cases hconvert
  | succ fuel ih =>
      simp only [convertUnits] at hconvert
      split at hconvert
      · cases hconvert
        exact h
      · generalize (if c.spsDone = true then 0 else 1 : Int) = more at hconvert
        split at hconvert
        · cases hconvert
        · refine ih (ppsLabel_splits ?_) hconvert
          obtain ⟨spsUnits, ppsUnits, hout, hoffset⟩ := h
          refine ⟨spsUnits, ppsUnits ++ [((mem.drop (c.pos + 2)).take (avRb16 mem c.pos).toNat)], ?_, hoffset⟩
          rw [startCoded_concat, ← List.append_assoc, ← List.append_assoc, ← hout]

def Conversion.unread (c : Conversion) : Nat :=
  c.unitNb + if c.spsDone then 0 else 256

theorem ppsLabel_unread (mem : List UInt8) (c : Conversion) : (ppsLabel mem c).unread ≤ c.unread := by
  have hbyte := (byteAt mem c.pos).toNat_lt
  rw [ppsLabel]
  split
  · rename_i h
    simp only [Conversion.unread, h.2]
    simp
    omega
  · exact Nat.le_refl _

/-- What an initialisation with extradata that are not in the format of the output sets:
the parameter sets are the two parts of the converted extradata. -/
theorem init_sets {extradata : List UInt8} (hinit : h264Mp4toannexbInit extradata padding = some (.ok s₀))
    (hparsed : s₀.extradataParsed = true) :
    1 ≤ s₀.lengthSize ∧ s₀.lengthSize ≤ 4 ∧ ∃ spsUnits ppsUnits, s₀.sps = startCoded spsUnits ∧
      s₀.pps = startCoded ppsUnits ∧ s₀.extradata.getD [] = s₀.sps ++ s₀.pps := by
  simp only [h264Mp4toannexbInit] at hinit
  split at hinit
  · cases hinit
    cases hparsed
  split at hinit
  · simp only [h264ExtradataToAnnexb, Option.map_map] at hinit
    obtain ⟨r, hconvert, hr⟩ := Option.map_eq_some_iff.mp hinit
    cases r with
    | error e => cases hr
    | ok d =>
        cases hr
        have hsize : (byteAt (extradata ++ padding) 4 &&& 3).toNat ≤ 3 := by
          rw [UInt8.toNat_and]
          exact Nat.and_le_right
        have hempty : ∀ pos n, Conversion.Splits ⟨pos, n, false, [], 0⟩ := fun pos n => ⟨[], [], rfl, rfl⟩
        have hsplits : d.Splits := by
          refine convertUnits_splits ?_ hconvert
          split
          · exact ppsLabel_splits (hempty _ _)
          · exact hempty _ _
        obtain ⟨spsUnits, ppsUnits, hout, hoffset⟩ := hsplits
        have hsps : (if d.ppsOffset ≠ 0 then d.out.take d.ppsOffset else []) = startCoded spsUnits := by
          split
          · rw [hout, hoffset, List.take_left]
          · rename_i hzero
            exact (List.length_eq_zero_iff.mp (hoffset ▸ Decidable.not_not.mp hzero)).symm
        have hpps : (if d.ppsOffset < d.out.length then d.out.drop d.ppsOffset else []) =
            startCoded ppsUnits := by
          split
          · rw [hout, hoffset, List.drop_left]
          · rename_i hall
            rw [hout, hoffset, List.length_append] at hall
            exact (List.length_eq_zero_iff.mp (by omega)).symm
        have hextra : (if d.out = [] then none else some d.out).getD [] =
            startCoded spsUnits ++ startCoded ppsUnits := by
          rw [← hout]
          split
          · rename_i hnil
            rw [hnil]
            rfl
          · rfl
        refine ⟨Nat.le_add_left _ _, Nat.succ_le_succ hsize, spsUnits, ppsUnits, hsps, hpps, ?_⟩
        refine hextra.trans ?_
        rw [← hsps, ← hpps]
        rfl
  · cases hinit

def filterWithSets (newIdr seen : Bool) : H264BSFContext :=
  ⟨[0, 0, 0, 1, 103, 66, 0, 30], [0, 0, 0, 1, 104, 206], 4, newIdr, seen, seen, true,
    some [0, 0, 0, 1, 103, 66, 0, 30, 0, 0, 0, 1, 104, 206]⟩

theorem filterWithSets_init :
    h264Mp4toannexbInit [1, 66, 0, 30, 0xff, 0xe1, 0, 4, 103, 66, 0, 30, 1, 0, 2, 104, 206] (List.replicate 64 0) =
      some (.ok (filterWithSets true false)) := by decide +kernel

end P2PFFmpeg.Annexb
