import P2PFFmpeg.Annexb.Stream

namespace P2PFFmpeg.Annexb

open Library.ByteFile Util

def nalType (unit : List UInt8) : UInt8 := byteAt unit 0 &&& 0x1f

def H264BSFContext.flags (s : H264BSFContext) : Flags := ⟨s.newIdr, s.idrSpsSeen, s.idrPpsSeen⟩

/-- A unit that is not empty, with what the filter put before it, or a flush. -/
inductive Item
  | unit (i : Insertion) (unit : List UInt8)
  | flush
deriving DecidableEq

inductive Filtered (s₀ : H264BSFContext) : List Item → H264BSFContext → Prop
  | start : Filtered s₀ [] s₀
  | packet {items s data padding garbage pieces out t} : Filtered s₀ items s →
      h264Mp4toannexbFilter s data padding garbage = some (.ok out, t) →
      Traced s padding s.flags data pieces out t.flags →
      Filtered s₀ (items ++ pieces.map fun piece => .unit piece.1 piece.2) t
  | flush {items s} : Filtered s₀ items s → Filtered s₀ (items ++ [.flush]) (h264Mp4toannexbFlush s)

def Insertion.units (spsUnits ppsUnits : List (List UInt8)) : Insertion → List (List UInt8)
  | .nothing => []
  | .sps => spsUnits
  | .pps => ppsUnits
  | .extradata => spsUnits ++ ppsUnits

def Item.written (spsUnits ppsUnits : List (List UInt8)) : Item → List (List UInt8)
  | .unit i u => i.units spsUnits ppsUnits ++ [u]
  | .flush => []

inductive AnnexB : List (List UInt8) → List UInt8 → Prop
  | nil : AnnexB [] []
  | unit {code unit us out} : code = [0, 0, 0, 1] ∨ code = [0, 0, 1] → AnnexB us out →
      AnnexB (unit :: us) (code ++ unit ++ out)

def Holds (unitType : UInt8) (us : List (List UInt8)) : Prop := ∃ unit ∈ us, nalType unit = unitType

def InBand (unitType : UInt8) (items : List Item) : Prop := ∃ i unit, Item.unit i unit ∈ items ∧ nalType unit = unitType

section Unit

variable {s : H264BSFContext} {f g h : Flags} {i : Insertion} {unitType next : UInt8}

structure Flags.Sound (f : Flags) : Prop where
  cleared : f.newIdr = false → f.spsSeen = false
  complete : f.ppsSeen = true → f.spsSeen = true

structure Taken (unitType : UInt8) (f g : Flags) (i : Insertion) : Prop where
  sound : g.Sound
  sps : g.spsSeen = true ↔ f.spsSeen = true ∨ unitType = h264NalSps ∨ unitType = h264NalPps
  pps : g.ppsSeen = true ↔ f.ppsSeen = true ∨ unitType = h264NalPps
  prepended : unitType = h264NalPps → f.spsSeen = false → i = .sps
  cases : i = .nothing ∨ i = .sps ∧ f.spsSeen = false ∨ i = .extradata ∧ f.spsSeen = false ∨ i = .pps ∧ f.ppsSeen = false

theorem parameterSet_taken (hs : s.sps ≠ []) (hf : f.Sound) :
    Taken unitType f (f.parameterSet s unitType).1 (f.parameterSet s unitType).2 := by
  have hdiffer : h264NalSps ≠ h264NalPps := by decide
  rw [Flags.parameterSet]
  split
  · next hsps =>
      exact ⟨⟨fun hfalse => absurd hfalse (by simp), fun _ => rfl⟩, by simp [hsps], by simp [hsps, hdiffer],
        fun hpps => absurd (hsps.symm.trans hpps) hdiffer, .inl rfl⟩
  split
  · next hpps =>
      split
      · next hnone =>
          exact ⟨⟨fun hfalse => absurd hfalse (by simp), fun _ => rfl⟩, by simp [hpps], by simp [hpps], fun _ _ => rfl,
          .inr (.inl ⟨rfl, hnone.1⟩)⟩
      · next hseen =>
          have hsps : f.spsSeen = true := by
            by_contra hfalse
            exact hseen ⟨Bool.eq_false_of_not_eq_true hfalse, hs⟩
          exact ⟨⟨fun hfalse => absurd hfalse (by simp), fun _ => hsps⟩, by simp [hsps], by simp [hpps],
            fun _ hfalse => absurd hsps (by simp [hfalse]), .inl rfl⟩
  · next hsps hpps => exact ⟨hf, by simp [hsps, hpps], by simp [hpps], fun h => absurd h hpps, .inl rfl⟩

structure Flags.Kept (f g : Flags) : Prop where
  sps : g.spsSeen = f.spsSeen
  pps : g.ppsSeen = f.ppsSeen
  sound : g.Sound

theorem startPicture_kept (hf : f.Sound) (unitType next : UInt8) : f.Kept (f.startPicture unitType next) := by
  rw [Flags.startPicture]
  split
  · exact ⟨rfl, rfl, fun hfalse => absurd hfalse (by simp), hf.complete⟩
  · exact ⟨rfl, rfl, hf⟩

theorem idr_kept (hf : f.Sound) (unitType : UInt8) : f.Kept (f.idr unitType).1 := by
  rw [Flags.idr]
  split
  · next hall => exact ⟨rfl, rfl, fun _ => hall.2.2.1, hf.complete⟩
  split
  · exact ⟨rfl, rfl, hf⟩
  · exact ⟨rfl, rfl, hf⟩

theorem idr_inserts (f : Flags) (unitType : UInt8) :
    (f.idr unitType).2 = .nothing ∨ (f.idr unitType).2 = .extradata ∧ f.spsSeen = false ∨
      (f.idr unitType).2 = .pps ∧ f.ppsSeen = false := by
  rw [Flags.idr]
  split
  · next hall => exact .inr (.inl ⟨rfl, hall.2.2.1⟩)
  split
  · next hpps => exact .inr (.inr ⟨rfl, hpps.2.2.2⟩)
  · exact .inl rfl

theorem slice_kept (hf : f.Sound) (unitType : UInt8) : f.Kept (f.slice unitType) := by
  rw [Flags.slice]
  split
  · next hend =>
      have hsps := hf.cleared hend.1
      have hpps : f.ppsSeen = false := by
        by_contra hseen
        rw [hf.complete (Bool.eq_true_of_not_eq_false hseen)] at hsps
        cases hsps
      exact ⟨hsps.symm, hpps.symm, fun _ => rfl, fun htrue => absurd htrue (by simp)⟩
  · exact ⟨rfl, rfl, hf⟩

theorem unit_taken (hs : s.sps ≠ []) (hf : f.Sound) (h : f.unit s unitType next = (g, i)) : Taken unitType f g i := by
  have hset := @parameterSet_taken s f unitType hs hf
  have hstart := startPicture_kept hset.sound unitType next
  have hidr := idr_kept hstart.sound unitType
  have hslice := slice_kept hidr.sound unitType
  obtain ⟨rfl, rfl⟩ := Prod.mk.inj h
  have hsps := hslice.sps.trans (hidr.sps.trans hstart.sps)
  have hpps := hslice.pps.trans (hidr.pps.trans hstart.pps)
  refine ⟨hslice.sound, by rw [hsps]; exact hset.sps, by rw [hpps]; exact hset.pps, fun htype hnone => ?_, ?_⟩
  · have hprepended := hset.prepended htype hnone
    rw [if_neg (by rw [hprepended]; decide)]
    exact hprepended
  · split
    · have hseen (hnone : (f.parameterSet s unitType).1.spsSeen = false) : f.spsSeen = false :=
        Bool.eq_false_of_not_eq_true fun htrue => absurd (hset.sps.mpr (.inl htrue)) (by rw [hnone]; decide)
      have hseen' (hnone : (f.parameterSet s unitType).1.ppsSeen = false) : f.ppsSeen = false :=
        Bool.eq_false_of_not_eq_true fun htrue => absurd (hset.pps.mpr (.inl htrue)) (by rw [hnone]; decide)
      rcases idr_inserts ((f.parameterSet s unitType).1.startPicture unitType next) unitType with hi | ⟨hi, hnone⟩ | ⟨hi, hnone⟩
      · exact .inl hi
      · exact .inr (.inr (.inl ⟨hi, hseen (hstart.sps.symm.trans hnone)⟩))
      · exact .inr (.inr (.inr ⟨hi, hseen' (hstart.pps.symm.trans hnone)⟩))
    · exact hset.cases

theorem unit_first (hf : f.Sound) (hnext : next &&& 0x80 ≠ 0) (h : f.unit s h264NalIdrSlice next = (g, i)) :
    i = if f.ppsSeen then .nothing else if f.spsSeen then .pps else .extradata := by
  obtain ⟨-, rfl⟩ := Prod.mk.inj h
  have hset : f.parameterSet s h264NalIdrSlice = (f, .nothing) := rfl
  have hstart := startPicture_kept hf h264NalIdrSlice next
  have hnew : (f.startPicture h264NalIdrSlice next).newIdr = true := by
    rw [Flags.startPicture]
    split
    · rfl
    · next hstay => exact Bool.eq_true_of_not_eq_false fun hfalse => hstay ⟨hfalse, rfl, hnext⟩
  rw [hset, if_pos rfl, Flags.idr, hnew, hstart.sps, hstart.pps]
  cases hsps : f.spsSeen <;> cases hpps : f.ppsSeen
  · rfl
  · exact absurd (hf.complete hpps) (by rw [hsps]; decide)
  · rfl
  · rfl

end Unit

inductive Steps (s : H264BSFContext) : Flags → List Item → Flags → Prop
  | done {f} : Steps s f [] f
  | unit {f g h i u next items} : (2 ≤ u.length → next = byteAt u 1) → f.unit s (nalType u) next = (g, i) →
      Steps s g items h → Steps s f (.unit i u :: items) h
  | flush {f h items} : Steps s ⟨true, false, false⟩ items h → Steps s f (.flush :: items) h

section Run

variable {s s₀ : H264BSFContext} {f g : Flags} {items : List Item} {spsUnits ppsUnits : List (List UInt8)}

theorem Steps.append {xs ys : List Item} {h : Flags} (hxs : Steps s f xs g) (hys : Steps s g ys h) :
    Steps s f (xs ++ ys) h := by
  induction hxs with
  | done => exact hys
  | unit hnext hunit _ ih => exact .unit hnext hunit (ih hys)
  | flush _ ih => exact .flush (ih hys)

theorem Steps.split {xs ys : List Item} {h : Flags} (hsteps : Steps s f (xs ++ ys) h) :
    ∃ g, Steps s f xs g ∧ Steps s g ys h := by
  induction xs generalizing f with
  | nil => exact ⟨f, .done, hsteps⟩
  | cons x xs ih =>
      cases hsteps with
      | unit hnext hunit hrest =>
          obtain ⟨g, hxs, hys⟩ := ih hrest
          exact ⟨g, .unit hnext hunit hxs, hys⟩
      | flush hrest =>
          obtain ⟨g, hxs, hys⟩ := ih hrest
          exact ⟨g, .flush hxs, hys⟩

theorem Traced.steps {padding data out : List UInt8} {pieces : List (Insertion × List UInt8)}
    (h : Traced s padding f data pieces out g) : Steps s f (pieces.map fun piece => .unit piece.1 piece.2) g := by
  induction h with
  | done => exact .done
  | skip _ _ _ ih => exact ih
  | @unit f len u rest i code pieces out g h _ _ _ hunit _ _ ih =>
      refine .unit (fun hlong => ?_) hunit ih
      rw [byteAt, byteAt, List.append_assoc, List.getD_append _ _ _ _ hlong]

theorem unit_sameSets (h : SameSets s₀ s) (unitType next : UInt8) (f : Flags) :
    f.unit s unitType next = f.unit s₀ unitType next := by
  rw [h]
  rfl

theorem Steps.sameSets (h : SameSets s₀ s) (hsteps : Steps s f items g) : Steps s₀ f items g := by
  induction hsteps with
  | done => exact .done
  | unit hnext hunit _ ih => exact .unit hnext (unit_sameSets h _ _ _ ▸ hunit) ih
  | flush _ ih => exact .flush ih

theorem Filtered.reachable (h : Filtered s₀ items s) : (packets s₀).Reachable s := by
  induction h with
  | start => exact .init rfl
  | packet _ hfilter _ ih => exact ih.step (l := .filter _ _ _) (Option.map_eq_some_iff.mpr ⟨_, hfilter, rfl⟩)
  | flush _ ih => exact ih.step (l := .flush) rfl

theorem Filtered.steps (hparsed : s₀.extradataParsed = true) (h : Filtered s₀ items s) :
    Steps s₀ s₀.flags items s.flags := by
  induction h with
  | start => exact .done
  | packet hitems _ htraced ih => exact ih.append (htraced.steps.sameSets (packets_sameSets hitems.reachable))
  | @flush items s hitems ih =>
      refine ih.append ?_
      have hsame := packets_sameSets hitems.reachable
      have hflags : (h264Mp4toannexbFlush s).flags = ⟨true, false, false⟩ := by
        rw [hsame, H264BSFContext.flags, h264Mp4toannexbFlush]
        simp only [hparsed]
      rw [hflags]
      exact .flush .done

theorem filter_traced {data padding garbage out : List UInt8} {t : H264BSFContext} (hn : 1 ≤ s.lengthSize)
    (hn4 : s.lengthSize ≤ 4) (hparsed : s.extradataParsed = true)
    (h : h264Mp4toannexbFilter s data padding garbage = some (.ok out, t)) :
    ∃ pieces, Traced s padding s.flags data pieces out t.flags := by
  obtain ⟨us, pieces, bytes, counted, copied, -, -, htraced, -, -, -, -, hfilter⟩ | ⟨-, hfilter⟩ :=
    @filter_cases s data padding garbage hn hn4 hparsed
  · rw [hfilter] at h
    split at h
    · cases h
    · cases h
      exact ⟨pieces, htraced⟩
  · rw [hfilter] at h
    cases h

theorem AnnexB.append {us vs : List (List UInt8)} {a b : List UInt8} (ha : AnnexB us a) (hb : AnnexB vs b) :
    AnnexB (us ++ vs) (a ++ b) := by
  induction ha with
  | nil => exact hb
  | unit hcode _ ih =>
      rw [List.append_assoc]
      exact .unit hcode ih

theorem annexB_startCoded (us : List (List UInt8)) : AnnexB us (startCoded us) := by
  induction us with
  | nil => exact .nil
  | cons u us ih => exact .unit (.inl rfl) ih

structure SetsOf (s : H264BSFContext) (spsUnits ppsUnits : List (List UInt8)) : Prop where
  sps : s.sps = startCoded spsUnits
  pps : s.pps = startCoded ppsUnits
  whole : s.extradata.getD [] = s.sps ++ s.pps

theorem SetsOf.bytes (h : SetsOf s spsUnits ppsUnits) (i : Insertion) :
    AnnexB (i.units spsUnits ppsUnits) (i.bytes s) := by
  cases i with
  | nothing => exact .nil
  | sps =>
      rw [Insertion.bytes, h.sps]
      exact annexB_startCoded _
  | pps =>
      rw [Insertion.bytes, h.pps]
      exact annexB_startCoded _
  | extradata =>
      rw [Insertion.bytes, h.whole, h.sps, h.pps]
      exact (annexB_startCoded _).append (annexB_startCoded _)

theorem Traced.annexB {padding data out : List UInt8} {pieces : List (Insertion × List UInt8)}
    (hsets : SetsOf s spsUnits ppsUnits) (h : Traced s padding f data pieces out g) :
    AnnexB (pieces.flatMap fun piece => piece.1.units spsUnits ppsUnits ++ [piece.2]) out := by
  induction h with
  | done => exact .nil
  | skip _ _ _ ih => exact ih
  | @unit f len u rest i code pieces out g h _ _ _ _ hcode _ ih =>
      rw [List.flatMap_cons, List.append_assoc, List.append_assoc, List.append_assoc]
      refine (hsets.bytes i).append ?_
      rw [← List.append_assoc]
      exact .unit hcode ih

end Run

section Window

variable {s : H264BSFContext} {f g : Flags} {items : List Item} {spsUnits ppsUnits : List (List UInt8)} {t : UInt8}

theorem holds_append (us vs : List (List UInt8)) : Holds t (us ++ vs) ↔ Holds t us ∨ Holds t vs := by
  simp only [Holds, List.mem_append, or_and_right, exists_or]

theorem inBand_cons_unit (i : Insertion) (u : List UInt8) (items : List Item) :
    InBand t (.unit i u :: items) ↔ nalType u = t ∨ InBand t items := by
  simp only [InBand, List.mem_cons, Item.unit.injEq]
  constructor
  · rintro ⟨j, v, ⟨rfl, rfl⟩ | hmem, htype⟩
    · exact .inl htype
    · exact .inr ⟨j, v, hmem, htype⟩
  · rintro (htype | ⟨j, v, hmem, htype⟩)
    · exact ⟨i, u, .inl ⟨rfl, rfl⟩, htype⟩
    · exact ⟨j, v, .inr hmem, htype⟩

theorem not_inBand_nil : ¬ InBand t [] := by
  rintro ⟨i, u, hmem, -⟩
  cases hmem

theorem or_pairs {a b c d e : Prop} : (a ∨ b ∨ c) ∨ d ∨ e ↔ a ∨ (b ∨ d) ∨ c ∨ e := by tauto

theorem Steps.seen (hs : s.sps ≠ []) (hf : f.Sound) (h : Steps s f items g) (hflush : .flush ∉ items) :
    g.Sound ∧ (g.spsSeen = true ↔ f.spsSeen = true ∨ InBand h264NalSps items ∨ InBand h264NalPps items) ∧
      (g.ppsSeen = true ↔ f.ppsSeen = true ∨ InBand h264NalPps items) := by
  induction h with
  | done => exact ⟨hf, by simp [not_inBand_nil], by simp [not_inBand_nil]⟩
  | unit _ hunit _ ih =>
      have htaken := unit_taken hs hf hunit
      obtain ⟨hsound, hsps, hpps⟩ := ih htaken.sound (fun hmem => hflush (List.mem_cons_of_mem _ hmem))
      refine ⟨hsound, ?_, ?_⟩
      · rw [hsps, htaken.sps, inBand_cons_unit, inBand_cons_unit]
        exact or_pairs
      · rw [hpps, htaken.pps, inBand_cons_unit, or_assoc]
  | flush _ _ => exact absurd List.mem_cons_self hflush

def written (spsUnits ppsUnits : List (List UInt8)) (items : List Item) : List (List UInt8) :=
  items.flatMap (Item.written spsUnits ppsUnits)

theorem holds_written_unit (i : Insertion) (u : List UInt8) (items : List Item) :
    Holds t (written spsUnits ppsUnits (.unit i u :: items)) ↔
      Holds t (i.units spsUnits ppsUnits) ∨ nalType u = t ∨ Holds t (written spsUnits ppsUnits items) := by
  rw [written, List.flatMap_cons, holds_append, Item.written, holds_append, or_assoc]
  simp only [Holds, written, List.mem_singleton, exists_eq_left]

theorem InBand.holds (h : InBand t items) : Holds t (written spsUnits ppsUnits items) := by
  obtain ⟨i, u, hmem, htype⟩ := h
  exact ⟨u, List.mem_flatMap.mpr ⟨_, hmem, List.mem_append_right _ List.mem_cons_self⟩, htype⟩

theorem Steps.written_of_seen (hs : s.sps ≠ []) (hspsUnits : Holds h264NalSps spsUnits) (hf : f.Sound)
    (h : Steps s f items g) (hflush : .flush ∉ items) :
    (g.spsSeen = true → f.spsSeen = true ∨ Holds h264NalSps (written spsUnits ppsUnits items)) ∧
      (g.ppsSeen = true → f.ppsSeen = true ∨ Holds h264NalPps (written spsUnits ppsUnits items)) := by
  induction h with
  | done => exact ⟨.inl, .inl⟩
  | @unit f g h i u next items _ hunit _ ih =>
      have htaken := unit_taken hs hf hunit
      obtain ⟨hsps, hpps⟩ := ih htaken.sound (fun hmem => hflush (List.mem_cons_of_mem _ hmem))
      rw [holds_written_unit, holds_written_unit]
      refine ⟨fun hseen => ?_, fun hseen => ?_⟩
      · rcases hsps hseen with hseen | hholds
        · rcases htaken.sps.mp hseen with hbefore | htype | htype
          · exact .inl hbefore
          · exact .inr (.inr (.inl htype))
          · -- a picture parameter set comes behind the sets of the extradata
            by_cases hbefore : f.spsSeen = true
            · exact .inl hbefore
            · rw [htaken.prepended htype (Bool.eq_false_of_not_eq_true hbefore)]
              exact .inr (.inl hspsUnits)
        · exact .inr (.inr (.inr hholds))
      · rcases hpps hseen with hseen | hholds
        · rcases htaken.pps.mp hseen with hbefore | htype
          · exact .inl hbefore
          · exact .inr (.inr (.inl htype))
        · exact .inr (.inr (.inr hholds))
  | flush _ _ => exact absurd List.mem_cons_self hflush

theorem Steps.inBand_of_written (hs : s.sps ≠ []) (honly : ¬ Holds h264NalSps ppsUnits) (hf : f.Sound)
    (hseen : f.spsSeen = true) (h : Steps s f items g) (hflush : .flush ∉ items) :
    (Holds h264NalSps (written spsUnits ppsUnits items) → InBand h264NalSps items) ∧
      (f.ppsSeen = true → Holds h264NalPps (written spsUnits ppsUnits items) → InBand h264NalPps items) := by
  induction h with
  | done =>
      refine ⟨?_, fun _ => ?_⟩ <;>
      · rintro ⟨u, hmem, -⟩
        cases hmem
  | @unit f g h i u next items _ hunit _ ih =>
      have htaken := unit_taken hs hf hunit
      obtain ⟨hsps, hpps⟩ := ih htaken.sound (htaken.sps.mpr (.inl hseen)) (fun hmem => hflush (List.mem_cons_of_mem _ hmem))
      rw [holds_written_unit, holds_written_unit, inBand_cons_unit, inBand_cons_unit]
      have hinserted : i = .nothing ∨ i = .pps ∧ f.ppsSeen = false := by
        rcases htaken.cases with hi | ⟨-, hnone⟩ | ⟨-, hnone⟩ | hi
        · exact .inl hi
        · rw [hseen] at hnone
          cases hnone
        · rw [hseen] at hnone
          cases hnone
        · exact .inr hi
      refine ⟨?_, fun hseen' => ?_⟩
      · rintro (hholds | htype | hholds)
        · rcases hinserted with rfl | ⟨rfl, -⟩
          · obtain ⟨u, hmem, -⟩ := hholds
            cases hmem
          · exact absurd hholds honly
        · exact .inl htype
        · exact .inr (hsps hholds)
      · rintro (hholds | htype | hholds)
        · rcases hinserted with rfl | ⟨-, hnone⟩
          · obtain ⟨u, hmem, -⟩ := hholds
            cases hmem
          · rw [hseen'] at hnone
            cases hnone
        · exact .inl htype
        · exact .inr (hpps (htaken.pps.mpr (.inl hseen')) hholds)
  | flush _ _ => exact absurd List.mem_cons_self hflush

/-- The items begin behind these ones anew. -/
def Restarted (old : List Item) : Prop := old = [] ∨ ∃ items, old = items ++ [.flush]

def UpToSlice (items : List Item) : Prop :=
  items = [] ∨ ∃ before i u, items = before ++ [.unit i u] ∧ nalType u = h264NalSlice

def FirstIdrSlice (u : List UInt8) : Prop := nalType u = h264NalIdrSlice ∧ 2 ≤ u.length ∧ byteAt u 1 &&& 0x80 ≠ 0

/-- Both kinds of sets are written behind the last slice of another picture. -/
def Decodable (spsUnits ppsUnits : List (List UInt8)) (window : List Item) (i : Insertion) : Prop :=
  Holds h264NalSps (written spsUnits ppsUnits window ++ i.units spsUnits ppsUnits) ∧
    Holds h264NalPps (written spsUnits ppsUnits window ++ i.units spsUnits ppsUnits)

/-- No set of the stream came before, or new ones come again. -/
def SetsRenewed (before window : List Item) : Prop :=
  (¬ InBand h264NalSps before ∧ ¬ InBand h264NalPps before) ∨
    InBand h264NalSps window ∧ (InBand h264NalPps window ∨ ¬ InBand h264NalPps before)

structure Approach (s : H264BSFContext) (before window : List Item) (f g : Flags) (i : Insertion) : Prop where
  sound : f.Sound
  sound' : g.Sound
  steps : Steps s f window g
  flush : .flush ∉ window
  spsBefore : f.spsSeen = true ↔ InBand h264NalSps before ∨ InBand h264NalPps before
  ppsBefore : f.ppsSeen = true ↔ InBand h264NalPps before
  spsSeen : f.spsSeen = true → g.spsSeen = true
  ppsSeen : f.ppsSeen = true → g.ppsSeen = true
  inserted : i = if g.ppsSeen then .nothing else if g.spsSeen then .pps else .extradata

theorem approach {before window rest : List Item} {i : Insertion} {picture : List UInt8} {h : Flags} (hs : s.sps ≠ [])
    (hsteps : Steps s ⟨true, false, false⟩ (before ++ window ++ .unit i picture :: rest) h)
    (hflush : .flush ∉ before ++ window) (hpicture : FirstIdrSlice picture) :
    ∃ f g, Approach s before window f g i := by
  obtain ⟨g, hwindow, hrest⟩ := hsteps.split
  obtain ⟨f, hbefore, hwindow⟩ := hwindow.split
  rw [List.mem_append, not_or] at hflush
  obtain ⟨hf, hsps, hpps⟩ := hbefore.seen hs ⟨fun _ => rfl, fun htrue => absurd htrue (by simp)⟩ hflush.1
  obtain ⟨hg, hsps', hpps'⟩ := hwindow.seen hs hf hflush.2
  cases hrest with
  | unit hnext hunit _ =>
      obtain ⟨htype, hlong, hbit⟩ := hpicture
      rw [htype] at hunit
      rw [← hnext hlong] at hbit
      exact ⟨f, g, hf, hg, hwindow, hflush.2, by rw [hsps]; simp, by rw [hpps]; simp, fun hseen => hsps'.mpr (.inl hseen),
        fun hseen => hpps'.mpr (.inl hseen), unit_first hg hbit hunit⟩

variable {before window : List Item} {i : Insertion}

theorem Approach.inserts_pps (h : Approach s before window f g i) (hhas : Holds h264NalPps ppsUnits)
    (hnone : ¬ g.ppsSeen = true) : Holds h264NalPps (i.units spsUnits ppsUnits) := by
  rw [h.inserted, if_neg hnone]
  split
  · exact hhas
  · exact (holds_append _ _).mpr (.inr hhas)

theorem Approach.inserts_sps (h : Approach s before window f g i) (hhas : Holds h264NalSps spsUnits)
    (hnone : ¬ g.spsSeen = true) : Holds h264NalSps (i.units spsUnits ppsUnits) := by
  rw [h.inserted, if_neg (mt h.sound'.complete hnone), if_neg hnone]
  exact (holds_append _ _).mpr (.inl hhas)

theorem Approach.decodable (h : Approach s before window f g i) (hs : s.sps ≠ []) (hhas : Holds h264NalSps spsUnits)
    (hhas' : Holds h264NalPps ppsUnits) (hrenewed : SetsRenewed before window) :
    Decodable spsUnits ppsUnits window i := by
  obtain ⟨hwritten, hwritten'⟩ := @Steps.written_of_seen s f g window spsUnits ppsUnits hs hhas h.sound h.steps h.flush
  have hpps (hnone : ¬ InBand h264NalPps before) :
      Holds h264NalPps (written spsUnits ppsUnits window) ∨ Holds h264NalPps (i.units spsUnits ppsUnits) := by
    by_cases hseen : g.ppsSeen = true
    · exact .inl ((hwritten' hseen).resolve_left (mt h.ppsBefore.mp hnone))
    · exact .inr (h.inserts_pps hhas' hseen)
  rw [Decodable, holds_append, holds_append]
  rcases hrenewed with ⟨hnosps, hnopps⟩ | ⟨hsps, hrenewed⟩
  · refine ⟨?_, hpps hnopps⟩
    by_cases hseen : g.spsSeen = true
    · refine .inl ((hwritten hseen).resolve_left fun hbefore => ?_)
      exact (h.spsBefore.mp hbefore).elim hnosps hnopps
    · exact .inr (h.inserts_sps hhas hseen)
  · exact ⟨.inl hsps.holds, hrenewed.elim (fun hinband => .inl hinband.holds) hpps⟩

theorem Approach.renewed (h : Approach s before window f g i) (hs : s.sps ≠ []) (honly : ¬ Holds h264NalSps ppsUnits)
    (hdecodable : Decodable spsUnits ppsUnits window i) : SetsRenewed before window := by
  by_cases hnone : ¬ InBand h264NalSps before ∧ ¬ InBand h264NalPps before
  · exact .inl hnone
  have hseen : f.spsSeen = true := by
    refine h.spsBefore.mpr ?_
    tauto
  obtain ⟨hsps, hpps⟩ := @Steps.inBand_of_written s f g window spsUnits ppsUnits hs honly h.sound hseen h.steps h.flush
  rw [Decodable, holds_append, holds_append] at hdecodable
  have hinserted := h.inserted
  rw [if_pos (h.spsSeen hseen)] at hinserted
  refine .inr ⟨hsps (hdecodable.1.resolve_right fun hholds => ?_), ?_⟩
  · rw [hinserted] at hholds
    split at hholds
    · obtain ⟨u, hmem, -⟩ := hholds
      cases hmem
    · exact honly hholds
  · by_cases hbefore : InBand h264NalPps before
    · have hseen' := h.ppsBefore.mpr hbefore
      rw [if_pos (h.ppsSeen hseen')] at hinserted
      refine .inl (hpps hseen' (hdecodable.2.resolve_right fun hholds => ?_))
      rw [hinserted] at hholds
      obtain ⟨u, hmem, -⟩ := hholds
      cases hmem
    · exact .inr hbefore

end Window

theorem init_starts {extradata padding : List UInt8} {s₀ : H264BSFContext}
    (hinit : h264Mp4toannexbInit extradata padding = some (.ok s₀)) (hsps : s₀.sps ≠ []) :
    s₀.extradataParsed = true ∧ s₀.flags = ⟨true, false, false⟩ := by
  simp only [h264Mp4toannexbInit] at hinit
  split at hinit
  · cases hinit
    exact absurd rfl hsps
  split at hinit
  · obtain ⟨r, -, hr⟩ := Option.map_eq_some_iff.mp hinit
    cases r with
    | error e => cases hr
    | ok d =>
        cases hr
        exact ⟨rfl, rfl⟩
  · cases hinit

theorem Steps.restarted {s : H264BSFContext} {old : List Item} {g : Flags} (hold : Restarted old)
    (h : Steps s ⟨true, false, false⟩ old g) : g = ⟨true, false, false⟩ := by
  rcases hold with rfl | ⟨items, rfl⟩
  · cases h
    rfl
  · obtain ⟨f, -, hflush⟩ := h.split
    cases hflush with
    | flush hdone =>
        cases hdone
        rfl

theorem holds_ne_nil {t : UInt8} {us : List (List UInt8)} (h : Holds t us) : startCoded us ≠ [] := by
  obtain ⟨u, hmem, -⟩ := h
  obtain ⟨v, vs, rfl⟩ := List.exists_cons_of_ne_nil (List.ne_nil_of_mem hmem)
  rw [startCoded, List.flatMap_cons]
  exact List.cons_ne_nil _ _

/-- For whatever a filter took: before an IDR picture both parameter sets are written behind the last
slice of another picture exactly when no set of the stream came before that slice, or the sets
that did come again. -/
theorem idr_sets_iff {extradata extradataPadding : List UInt8} {s₀ : H264BSFContext} {spsUnits ppsUnits : List (List UInt8)}
    (hinit : h264Mp4toannexbInit extradata extradataPadding = some (.ok s₀)) (hsps : s₀.sps = startCoded spsUnits)
    (hpps : s₀.pps = startCoded ppsUnits) (hhas : Holds h264NalSps spsUnits) (hhas' : Holds h264NalPps ppsUnits) :
    (∀ items s data padding garbage out t, Filtered s₀ items s →
      h264Mp4toannexbFilter s data padding garbage = some (.ok out, t) →
      ∃ pieces, Traced s padding s.flags data pieces out t.flags ∧
        AnnexB (pieces.flatMap fun piece => piece.1.units spsUnits ppsUnits ++ [piece.2]) out) ∧
    ∀ old before window i picture rest s, Filtered s₀ (old ++ (before ++ window ++ .unit i picture :: rest)) s →
      Restarted old → .flush ∉ before ++ window → UpToSlice before → ¬ InBand h264NalSlice window → FirstIdrSlice picture →
      (SetsRenewed before window → Decodable spsUnits ppsUnits window i) ∧
      (¬ Holds h264NalSps ppsUnits → (Decodable spsUnits ppsUnits window i ↔ SetsRenewed before window)) := by
  have hs : s₀.sps ≠ [] := hsps ▸ holds_ne_nil hhas
  obtain ⟨hparsed, hflags⟩ := init_starts hinit hs
  obtain ⟨hn, hn4, -, -, -, -, hwhole⟩ := init_sets hinit hparsed
  refine ⟨fun items s data padding garbage out t hitems hfilter => ?_, ?_⟩
  · have hsame := packets_sameSets hitems.reachable
    have hsets : SetsOf s spsUnits ppsUnits := by
      rw [hsame]
      exact ⟨hsps, hpps, hwhole⟩
    obtain ⟨pieces, htraced⟩ := filter_traced (by rw [hsame]; exact hn) (by rw [hsame]; exact hn4)
      (by rw [hsame]; exact hparsed) hfilter
    exact ⟨pieces, htraced, htraced.annexB hsets⟩
  · intro old before window i picture rest s hitems hold hflush _ _ hpicture
    have hsteps := hitems.steps hparsed
    rw [hflags] at hsteps
    obtain ⟨f, holdSteps, hrest⟩ := hsteps.split
    rw [holdSteps.restarted hold] at hrest
    obtain ⟨f, g, happroach⟩ := approach hs hrest hflush hpicture
    exact ⟨happroach.decodable hs hhas hhas',
      fun honly => ⟨happroach.renewed hs honly, happroach.decodable hs hhas hhas'⟩⟩

theorem filterWithSets_filter :
    h264Mp4toannexbFilter (filterWithSets true false) [0, 0, 0, 2, 101, 136] (List.replicate 64 0) [] =
      some (.ok [0, 0, 0, 1, 103, 66, 0, 30, 0, 0, 0, 1, 104, 206, 0, 0, 1, 101, 136], filterWithSets false false) := by
  decide +kernel

theorem filterWithSets_idr :
    Filtered (filterWithSets true false) [.unit .extradata [101, 136]] (filterWithSets false false) := by
  refine @Filtered.packet _ _ _ _ _ _ [(.extradata, [101, 136])] _ _ .start filterWithSets_filter ?_
  exact @Traced.unit _ _ _ [0, 0, 0, 2] [101, 136] [] .extradata [0, 0, 1] [] [] ⟨false, false, false⟩ _ rfl rfl (by decide)
    (by decide) (.inr rfl) .done

theorem idr_sets_first : Decodable [[103, 66, 0, 30]] [[104, 206]] [] .extradata := by
  have hnone (t : UInt8) : ¬ InBand t [] := not_inBand_nil
  refine ((@idr_sets_iff _ _ _ [[103, 66, 0, 30]] [[104, 206]] filterWithSets_init rfl rfl ⟨_, List.mem_cons_self, by decide⟩
    ⟨_, List.mem_cons_self, by decide⟩).2 [] [] [] .extradata [101, 136] [] _ filterWithSets_idr (.inl rfl) List.not_mem_nil
    (.inl rfl) (hnone _) ⟨by decide, by decide, by decide⟩).1 (.inl ⟨hnone _, hnone _⟩)

theorem filterWithSets_later :
    Filtered (filterWithSets true false) ([] ++ ([.unit .nothing [103, 66], .unit .nothing [104, 206], .unit .nothing [65, 154]] ++
      [] ++ .unit .nothing [101, 136] :: [])) (filterWithSets true true) := by
  have hfilter : h264Mp4toannexbFilter (filterWithSets true false)
      [0, 0, 0, 2, 103, 66, 0, 0, 0, 2, 104, 206, 0, 0, 0, 2, 65, 154] (List.replicate 64 0) [] =
      some (.ok [0, 0, 0, 1, 103, 66, 0, 0, 0, 1, 104, 206, 0, 0, 1, 65, 154], filterWithSets true true) := by
    decide +kernel
  have hfilter' : h264Mp4toannexbFilter (filterWithSets true true) [0, 0, 0, 2, 101, 136] (List.replicate 64 0) [] =
      some (.ok [0, 0, 0, 1, 101, 136], filterWithSets true true) := by
    decide +kernel
  have hfirst : Filtered (filterWithSets true false)
      [.unit .nothing [103, 66], .unit .nothing [104, 206], .unit .nothing [65, 154]] (filterWithSets true true) := by
    refine @Filtered.packet _ _ _ _ _ _ [(.nothing, [103, 66]), (.nothing, [104, 206]), (.nothing, [65, 154])] _ _ .start
      hfilter ?_
    refine @Traced.unit _ _ _ [0, 0, 0, 2] [103, 66] [0, 0, 0, 2, 104, 206, 0, 0, 0, 2, 65, 154] .nothing [0, 0, 0, 1] _ _
      ⟨true, true, false⟩ _ rfl rfl (by decide) (by decide) (.inl rfl) ?_
    refine @Traced.unit _ _ _ [0, 0, 0, 2] [104, 206] [0, 0, 0, 2, 65, 154] .nothing [0, 0, 0, 1] _ _ ⟨true, true, true⟩ _
      rfl rfl (by decide) (by decide) (.inl rfl) ?_
    exact @Traced.unit _ _ _ [0, 0, 0, 2] [65, 154] [] .nothing [0, 0, 1] [] [] ⟨true, true, true⟩ _ rfl rfl (by decide)
      (by decide) (.inr rfl) .done
  refine @Filtered.packet _ _ _ _ _ _ [(.nothing, [101, 136])] _ _ hfirst hfilter' ?_
  exact @Traced.unit _ _ _ [0, 0, 0, 2] [101, 136] [] .nothing [0, 0, 0, 1] [] [] ⟨true, true, true⟩ _ rfl rfl (by decide)
    (by decide) (.inl rfl) .done

/-- The sets of the stream stay seen, so nothing is put before an IDR picture behind another picture. -/
theorem later_idr_not_decodable :
    ∃ s₀ before i s, h264Mp4toannexbInit [1, 66, 0, 30, 0xff, 0xe1, 0, 4, 103, 66, 0, 30, 1, 0, 2, 104, 206]
        (List.replicate 64 0) = some (.ok s₀) ∧
      s₀.sps = startCoded [[103, 66, 0, 30]] ∧ s₀.pps = startCoded [[104, 206]] ∧
      Filtered s₀ ([] ++ (before ++ [] ++ .unit i [101, 136] :: [])) s ∧ .flush ∉ before ∧ UpToSlice before ∧
      FirstIdrSlice [101, 136] ∧ ¬ Decodable [[103, 66, 0, 30]] [[104, 206]] [] i := by
  refine ⟨_, _, _, _, filterWithSets_init, rfl, rfl, filterWithSets_later, by decide,
    .inr ⟨[.unit .nothing [103, 66], .unit .nothing [104, 206]], .nothing, [65, 154], rfl, by decide⟩, ⟨by decide, by decide, by decide⟩, ?_⟩
  rintro ⟨⟨u, hmem, -⟩, -⟩
  cases hmem

end P2PFFmpeg.Annexb
