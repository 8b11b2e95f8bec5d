import P2PFFmpeg.Util.Dict
import Mathlib.Data.List.Perm.Basic
import Mathlib.Logic.Function.Basic

namespace P2PFFmpeg.Util.DictMap

structure Block where
  count : Nat
  elems : List AVDictionaryEntry

structure SetFlags where
  get : DictFlags
  dontStrdupKey : Bool
  dontStrdupVal : Bool

def entryAt (m : Option Block) (i : Nat) : AVDictionaryEntry :=
  (m.map fun m => m.elems.getD i ⟨[], []⟩).getD ⟨[], []⟩

/-- The place of the next entry. -/
def avDictIterate (m : Option Block) (prev : Option Nat) : Option Nat :=
  m.bind fun m =>
    let i := prev.elim 0 (· + 1)
    if i ≥ m.count then none else some i

def getLoop (m : Option Block) (key : List UInt8) (flags : DictFlags) : Nat → Option Nat → Option Nat
  | 0, _ => none
  | rounds + 1, entry =>
      match avDictIterate m entry with
      | none => none
      | some i =>
          if keyMatches flags (entryAt m i).key key then some i else getLoop m key flags rounds (some i)

/-- Each round moves on by an entry, and the last one finds the end. -/
def avDictGet (m : Option Block) (key : Option (List UInt8)) (prev : Option Nat) (flags : DictFlags) :
    Option Nat :=
  key.bind fun key => getLoop m key flags ((m.elim 0 Block.count) + 1) prev

/-- A dictionary without entries is freed, and its pointer becomes NULL. -/
def freeEmpty (m : Option Block) : Option Block := m.filter fun m => m.count ≠ 0

def moveLast (m : Block) (i : Nat) : Block where
  count := m.count - 1
  elems := m.elems.set i (m.elems.getD (m.count - 1) ⟨[], []⟩)

def reallocArray (m : Block) : Block :=
  { m with elems := m.elems.take (m.count + 1) ++
    List.replicate (m.count + 1 - m.elems.length) ⟨[], []⟩ }

/-- A write behind the entries; nothing when there is no slot. -/
def store (m : Block) (e : AVDictionaryEntry) : Option (Int × Option Block) :=
  if m.count < m.elems.length then some (0, some ⟨m.count + 1, m.elems.set m.count e⟩) else none

def setEntry (m : Block) (tag : Option Nat) (key : List UInt8) (copyValue : Option (List UInt8))
    (flags : DictFlags) (memory : DictMemory) : Option (Int × Option Block) :=
  match tag with
  | some i =>
      if flags.dontOverwrite then some (0, some m)
      else
        match copyValue with
        | none => some (0, freeEmpty (some (moveLast m i)))
        | some v =>
            if flags.append then
              if memory.appended then store (moveLast m i) ⟨key, (entryAt (some m) i).value ++ v⟩
              else some (-12, freeEmpty (some m))
            else store (moveLast m i) ⟨key, v⟩
  | none =>
      match copyValue with
      | none => some (0, freeEmpty (some m))
      | some v =>
          if memory.elems then store (reallocArray m) ⟨key, v⟩ else some (-12, freeEmpty (some m))

/-- The result and the pointer; nothing is a write outside the slots. -/
def avDictSet (pm : Option Block) (key value : Option (List UInt8)) (flags : SetFlags)
    (memory : DictMemory) : Option (Int × Option Block) :=
  let copyValue := if flags.dontStrdupVal then value else value.filter fun _ => memory.value
  match key with
  | none => some (-22, freeEmpty pm)
  | some key =>
      let tag := if flags.get.multikey then none else avDictGet pm (some key) none flags.get
      let copyKey := if flags.dontStrdupKey || memory.key then some key else none
      match (if pm.isNone && memory.dict then some ⟨0, []⟩ else pm) with
      | none => some (-12, none)
      | some m =>
          if copyKey.isNone || value.isSome && copyValue.isNone then some (-12, freeEmpty (some m))
          else setEntry m tag key copyValue flags.get memory

def valuestr (value : Int) : List UInt8 :=
  ((if value < 0 then [45] else []) ++
    (Nat.toDigits 10 value.natAbs).map fun (c : Char) => UInt8.ofNat c.toNat).take 21

def avDictSetInt (pm : Option Block) (key : Option (List UInt8)) (value : Int) (flags : SetFlags)
    (memory : DictMemory) : Option (Int × Option Block) :=
  avDictSet pm key (some (valuestr value)) { flags with dontStrdupVal := false } memory

def entries (pm : Option Block) : AVDictionary := (pm.map fun m => m.elems.take m.count).getD []

/-- A pointer is NULL where there are no entries, and the entries lie in the slots. -/
def Valid (pm : Option Block) : Prop := ∀ m, pm = some m → 0 < m.count ∧ m.count ≤ m.elems.length

section Get

variable {m : Block} {key : List UInt8} {flags : DictFlags}

theorem getLoop_eq (hm : m.count ≤ m.elems.length) (rounds : Nat) (prev : Option Nat)
    (hrounds : m.count + 1 ≤ rounds + prev.elim 0 (· + 1)) : getLoop (some m) key flags rounds prev =
      (((m.elems.take m.count).drop (prev.elim 0 (· + 1))).findIdx? fun e => keyMatches flags e.key key).map
        (· + prev.elim 0 (· + 1)) := by
  induction rounds generalizing prev with
  | zero =>
      rw [getLoop, List.drop_eq_nil_of_le]
      · rfl
      · rw [List.length_take]
        omega
  | succ rounds ih =>
      rw [getLoop, avDictIterate, Option.bind_some]
      by_cases hend : prev.elim 0 (· + 1) ≥ m.count
      · rw [List.drop_eq_nil_of_le]
        · simp [hend]
        · rw [List.length_take]
          omega
      · have hlt : prev.elim 0 (· + 1) < (m.elems.take m.count).length := by
          rw [List.length_take]
          omega
        have hentry : entryAt (some m) (prev.elim 0 (· + 1)) = (m.elems.take m.count)[prev.elim 0 (· + 1)] := by
          rw [List.getElem_take, entryAt, Option.map_some, Option.getD_some, List.getD_eq_getElem?_getD,
            List.getElem?_eq_getElem, Option.getD_some]
        simp only [if_neg hend, hentry]
        rw [List.drop_eq_getElem_cons hlt, List.findIdx?_cons]
        split
        · simp
        · rw [ih (some _) (by simp only [Option.elim_some]; omega), Option.map_map]
          congr 1
          funext i
          simp only [Option.elim_some, Function.comp_apply]
          omega

theorem avDictGet_eq {pm : Option Block} (h : Valid pm) :
    avDictGet pm (some key) none flags = Util.avDictGet (entries pm) key flags := by
  cases pm with
  | none => rfl
  | some m =>
      have hloop := @getLoop_eq m key flags (h m rfl).2 (m.count + 1) none (Nat.le_refl _)
      simp only [Option.elim_none, List.drop_zero, Nat.add_zero, Option.map_id_fun', id] at hloop
      exact hloop

end Get

section Refinement

variable {m : Block} {e : AVDictionaryEntry} {i : Nat}

theorem valid_freeEmpty (h : m.count ≤ m.elems.length) :
    Valid (freeEmpty (some m)) ∧ entries (freeEmpty (some m)) = m.elems.take m.count := by
  by_cases hempty : m.count = 0
  · have hnone : freeEmpty (some m) = none := by simp [freeEmpty, hempty]
    rw [hnone, hempty, List.take_zero]
    exact ⟨nofun, rfl⟩
  · have hsame : freeEmpty (some m) = some m := by simp [freeEmpty, hempty]
    rw [hsame]
    refine ⟨?_, rfl⟩
    intro m' hm'
    obtain rfl := Option.some.inj hm'
    exact ⟨Nat.pos_of_ne_zero hempty, h⟩

theorem freeEmpty_valid {pm : Option Block} (h : Valid pm) : freeEmpty pm = pm := by
  cases pm with
  | none => rfl
  | some m => simp [freeEmpty, (h m rfl).1.ne']

theorem store_entries (h : m.count < m.elems.length) :
    ∃ pm, store m e = some (0, pm) ∧ Valid pm ∧ entries pm = m.elems.take m.count ++ [e] := by
  refine ⟨_, if_pos h, ?_, ?_⟩
  · intro m' hm'
    obtain rfl := Option.some.inj hm'
    refine ⟨Nat.succ_pos _, ?_⟩
    rw [List.length_set]
    exact h
  · change (m.elems.set m.count e).take (m.count + 1) = _
    rw [List.take_set, List.take_succ_eq_append_getElem h,
      List.set_append_right _ _ (by rw [List.length_take]; omega), List.length_take, Nat.min_eq_left h.le,
      Nat.sub_self, List.set_cons_zero]

theorem moveLast_entries (hcount : m.count ≤ m.elems.length) (hi : i < m.count) :
    (moveLast m i).count < (moveLast m i).elems.length ∧
      (moveLast m i).elems.take (moveLast m i).count = withoutEntry (m.elems.take m.count) i := by
  have hlast : (m.elems.take m.count).getLast? = some (m.elems.getD (m.count - 1) ⟨[], []⟩) := by
    rw [List.getLast?_eq_getElem?, List.length_take, Nat.min_eq_left hcount,
      List.getElem?_take_of_lt (by omega), List.getD_eq_getElem?_getD, List.getElem?_eq_getElem (by omega),
      Option.getD_some]
  constructor
  · change m.count - 1 < (m.elems.set i _).length
    rw [List.length_set]
    omega
  · change (m.elems.set i _).take (m.count - 1) = _
    rw [withoutEntry, hlast]
    change _ = ((m.elems.take m.count).set i _).dropLast
    rw [List.dropLast_eq_take, List.length_set, List.length_take, Nat.min_eq_left hcount,
      ← List.take_set, List.take_take, Nat.min_eq_left (Nat.sub_le _ _)]

theorem reallocArray_entries (hcount : m.count ≤ m.elems.length) :
    (reallocArray m).count < (reallocArray m).elems.length ∧
      (reallocArray m).elems.take (reallocArray m).count = m.elems.take m.count := by
  constructor
  · change m.count < (m.elems.take (m.count + 1) ++ List.replicate _ _).length
    rw [List.length_append, List.length_take, List.length_replicate]
    omega
  · change (m.elems.take (m.count + 1) ++ List.replicate _ _).take m.count = _
    rw [List.take_append_of_le_length, List.take_take, Nat.min_eq_left (Nat.le_succ _)]
    rw [List.length_take]
    omega

def effective (flags : SetFlags) (memory : DictMemory) : DictMemory :=
  { memory with
    value := flags.dontStrdupVal || memory.value
    key := flags.dontStrdupKey || memory.key }

def entrySet (d : AVDictionary) (tag : Option Nat) (key : List UInt8) (value : Option (List UInt8))
    (flags : DictFlags) (memory : DictMemory) : Int × AVDictionary :=
  match tag.bind (fun i => d[i]?.map (i, ·)) with
  | some (i, e) =>
      if flags.dontOverwrite then (0, d)
      else
        match value with
        | none => (0, withoutEntry d i)
        | some v =>
            if flags.append then
              if memory.appended then (0, withoutEntry d i ++ [⟨key, e.value ++ v⟩]) else (-12, d)
            else (0, withoutEntry d i ++ [⟨key, v⟩])
  | none =>
      match value with
      | none => (0, d)
      | some v => if memory.elems then (0, d ++ [⟨key, v⟩]) else (-12, d)

theorem avDictSet_entrySet (d : AVDictionary) (key : List UInt8) (value : Option (List UInt8))
    (flags : DictFlags) (memory : DictMemory) : Util.avDictSet d (some key) value flags memory =
      if d.isEmpty && !memory.dict || !memory.key || value.isSome && !memory.value then (-12, d)
      else entrySet d (if flags.multikey then none else Util.avDictGet d key flags) key value flags memory :=
  rfl

structure Refines (res : Option (Int × Option Block)) (spec : Int × AVDictionary) : Prop where
  refines : ∃ pm, res = some (spec.1, pm) ∧ Valid pm ∧ entries pm = spec.2

theorem refines_freeEmpty (h : m.count ≤ m.elems.length) (ret : Int) :
    Refines (some (ret, freeEmpty (some m))) (ret, m.elems.take m.count) := by
  obtain ⟨hvalid, hentries⟩ := valid_freeEmpty h
  exact ⟨_, rfl, hvalid, hentries⟩

theorem refines_store (h : m.count < m.elems.length) (e : AVDictionaryEntry) :
    Refines (store m e) (0, m.elems.take m.count ++ [e]) := ⟨store_entries h⟩

theorem setEntry_refines (h : m.count ≤ m.elems.length) {tag : Option Nat}
    (htag : ∀ i, tag = some i → i < m.count) (key : List UInt8) (value : Option (List UInt8))
    (flags : DictFlags) (memory : DictMemory) : Refines (setEntry m tag key value flags memory)
      (entrySet (m.elems.take m.count) tag key value flags memory) := by
  unfold setEntry entrySet
  cases tag with
  | none =>
      obtain ⟨hslot, hsame⟩ := reallocArray_entries h
      cases value with
      | none => exact refines_freeEmpty h 0
      | some v =>
          simp only [Option.bind_none]
          split
          · exact hsame ▸ refines_store hslot _
          · exact refines_freeEmpty h _
  | some i =>
      have hi := htag i rfl
      obtain ⟨hslot, hmoved⟩ := moveLast_entries h hi
      have hentry : (m.elems.take m.count)[i]? = some (entryAt (some m) i) := by
        rw [List.getElem?_take_of_lt hi, entryAt, Option.map_some, Option.getD_some, List.getD_eq_getElem?_getD,
          List.getElem?_eq_getElem (by omega), Option.getD_some]
      simp only [Option.bind_some, hentry, Option.map_some]
      split
      · refine ⟨some m, rfl, ?_, rfl⟩
        intro m' hm'
        obtain rfl := Option.some.inj hm'
        exact ⟨Nat.zero_lt_of_lt hi, h⟩
      · cases value with
        | none => exact hmoved ▸ refines_freeEmpty hslot.le 0
        | some v =>
            simp only
            split
            · split
              · exact hmoved ▸ refines_store hslot _
              · exact refines_freeEmpty h _
            · exact hmoved ▸ refines_store hslot _

theorem avDictGet_lt {d : AVDictionary} {k : List UInt8} {flags : DictFlags}
    (h : Util.avDictGet d k flags = some i) : i < d.length :=
  (List.findIdx?_eq_some_iff_getElem.mp h).1

theorem avDictSet_refines {pm : Option Block} (h : Valid pm) (key value : Option (List UInt8))
    (flags : SetFlags) (memory : DictMemory) : Refines (avDictSet pm key value flags memory)
      (Util.avDictSet (entries pm) key value flags.get (effective flags memory)) := by
  cases key with
  | none => exact ⟨pm, by rw [avDictSet, freeEmpty_valid h]; rfl, h, rfl⟩
  | some key =>
      have hblock : ∃ dict, (if pm.isNone && memory.dict then some ⟨0, []⟩ else pm) = dict ∧
          (dict = none → pm = none ∧ memory.dict = false) ∧
          ∀ m, dict = some m → m.count ≤ m.elems.length ∧ entries pm = m.elems.take m.count ∧
            ((entries pm).isEmpty && !memory.dict) = false := by
        cases pm with
        | none =>
            cases hdict : memory.dict with
            | false => exact ⟨none, rfl, fun _ => ⟨rfl, rfl⟩, nofun⟩
            | true =>
                refine ⟨_, rfl, nofun, ?_⟩
                intro m hm
                obtain rfl := Option.some.inj hm
                exact ⟨Nat.le_refl 0, rfl, rfl⟩
        | some m =>
            refine ⟨some m, rfl, nofun, ?_⟩
            intro m' hm'
            obtain rfl := Option.some.inj hm'
            obtain ⟨hpos, hle⟩ := h m rfl
            have hsome : entries (some m) ≠ [] := by
              intro hnil
              have hlength := congrArg List.length hnil
              change (m.elems.take m.count).length = 0 at hlength
              rw [List.length_take] at hlength
              omega
            refine ⟨hle, rfl, ?_⟩
            rw [List.isEmpty_eq_false_iff.mpr hsome, Bool.false_and]
      obtain ⟨dict, hdict, hnone, hsome⟩ := hblock
      rw [avDictSet, avDictSet_entrySet]
      simp only [hdict, avDictGet_eq h]
      cases dict with
      | none =>
          obtain ⟨rfl, hno⟩ := hnone rfl
          refine ⟨none, ?_, h, ?_⟩ <;> simp [effective, hno, entries]
      | some m =>
          obtain ⟨hcount, hentries, hfilled⟩ := hsome m rfl
          have htag : ∀ i, (if flags.get.multikey = true then none
              else Util.avDictGet (entries pm) key flags.get) = some i → i < m.count := by
            intro i hi
            split at hi
            · cases hi
            · have hlt := avDictGet_lt hi
              rw [hentries, List.length_take] at hlt
              omega
          have hstep := setEntry_refines hcount htag key value flags.get (effective flags memory)
          have herror := @refines_freeEmpty m hcount (-12)
          have hsame : ∀ tag v, setEntry m tag key v flags.get (effective flags memory) =
              setEntry m tag key v flags.get memory := fun _ _ => rfl
          rw [← hentries] at hstep herror
          rw [hsame] at hstep
          simp only [show (effective flags memory).dict = memory.dict from rfl, hfilled, Bool.false_or]
          cases hkey : (flags.dontStrdupKey || memory.key) with
          | false => simpa [effective, hkey] using herror
          | true =>
              cases hval : (flags.dontStrdupVal || memory.value) with
              | false =>
                  obtain ⟨hno, hmem⟩ : flags.dontStrdupVal = false ∧ memory.value = false := by simpa using hval
                  cases value with
                  | none => simpa [effective, hkey, hno, hmem] using hstep
                  | some v => simpa [effective, hkey, hno, hmem] using herror
              | true =>
                  have hcopy : (if flags.dontStrdupVal = true then value else value.filter fun _ => memory.value) =
                      value := by
                    cases hno : flags.dontStrdupVal with
                    | true => rfl
                    | false =>
                        rw [hno, Bool.false_or] at hval
                        cases value <;> simp [hval]
                  rw [hcopy]
                  cases value with
                  | none => simpa [effective, hkey, hval] using hstep
                  | some v => simpa [effective, hkey, hval] using hstep

end Refinement

def foldKey (matchCase : Bool) (key : List UInt8) : List UInt8 :=
  if matchCase then key else key.map avToupper

def Unique (matchCase : Bool) (d : AVDictionary) : Prop := (d.map fun e => foldKey matchCase e.key).Nodup

def lookup (matchCase : Bool) (d : AVDictionary) (k : List UInt8) : Option (List UInt8) :=
  (d.find? fun e => foldKey matchCase e.key == k).map AVDictionaryEntry.value

def refSet (flags : DictFlags) (key value : Option (List UInt8)) (map : List UInt8 → Option (List UInt8)) :
    List UInt8 → Option (List UInt8) :=
  match key with
  | none => map
  | some key =>
      match map (foldKey flags.matchCase key) with
      | none => Function.update map (foldKey flags.matchCase key) value
      | some old =>
          if flags.dontOverwrite then map
          else Function.update map (foldKey flags.matchCase key)
            (value.map fun v => if flags.append then old ++ v else v)

structure Plain (matchCase : Bool) (flags : DictFlags) : Prop where
  matchCase : flags.matchCase = matchCase
  suffix : flags.ignoreSuffix = false
  multikey : flags.multikey = false

section Map

variable {matchCase : Bool} {d d' : AVDictionary} {e : AVDictionaryEntry} {i : Nat} {k : List UInt8}
  {flags : DictFlags}

theorem keyMatches_iff (hflags : Plain matchCase flags) (s key : List UInt8) :
    keyMatches flags s key = true ↔ foldKey matchCase s = foldKey matchCase key := by
  unfold foldKey
  induction s generalizing key with
  | nil => cases key <;> cases matchCase <;> simp [keyMatches]
  | cons c s ih =>
      cases key with
      | nil => cases matchCase <;> simp [keyMatches, hflags.suffix]
      | cons b key =>
          have htail := ih key
          cases matchCase <;> simp_all [keyMatches, hflags.matchCase]

theorem lookup_cons (e : AVDictionaryEntry) (d : AVDictionary) (k : List UInt8) :
    lookup matchCase (e :: d) k =
      if foldKey matchCase e.key = k then some e.value else lookup matchCase d k := by
  rw [lookup, List.find?_cons]
  by_cases hk : foldKey matchCase e.key = k
  · simp [hk]
  · rw [if_neg hk, beq_eq_false_iff_ne.mpr hk]
    rfl

theorem lookup_eq_none : lookup matchCase d k = none ↔ k ∉ d.map fun e => foldKey matchCase e.key := by
  simp [lookup]

theorem lookup_eq_some (h : Unique matchCase d) {v : List UInt8} :
    lookup matchCase d k = some v ↔ ∃ e ∈ d, foldKey matchCase e.key = k ∧ e.value = v := by
  induction d with
  | nil => simp [lookup]
  | cons e d ih =>
      obtain ⟨hfresh, hrest⟩ := List.nodup_cons.mp h
      rw [lookup_cons]
      split
      · next hk =>
          simp only [List.mem_cons, exists_eq_or_imp, hk, true_and, Option.some.injEq]
          constructor
          · exact .inl
          · rintro (hv | ⟨b, hb, hbk, _⟩)
            · exact hv
            · exact absurd (List.mem_map.mpr ⟨b, hb, hbk.trans hk.symm⟩) hfresh
      · next hk => simp [ih hrest, hk]

theorem Unique.perm (h : Unique matchCase d) (hperm : d.Perm d') : Unique matchCase d' :=
  (hperm.map _).nodup_iff.mp h

theorem lookup_perm (h : Unique matchCase d) (hperm : d.Perm d') (k : List UInt8) :
    lookup matchCase d k = lookup matchCase d' k := by
  apply Option.ext
  intro v
  rw [lookup_eq_some h, lookup_eq_some (h.perm hperm)]
  simp only [hperm.mem_iff]

theorem withoutEntry_perm (h : d[i]? = some e) : d.Perm (e :: withoutEntry d i) := by
  rcases List.eq_nil_or_concat' d with rfl | ⟨front, last, rfl⟩
  · cases h
  · have hwithout : withoutEntry (front ++ [last]) i = ((front ++ [last]).set i last).dropLast := by
      rw [withoutEntry, List.getLast?_concat]
    rw [hwithout]
    by_cases hi : i < front.length
    · rw [List.getElem?_append_left hi, List.getElem?_eq_getElem hi] at h
      obtain rfl := Option.some.inj h
      rw [List.set_append_left _ _ hi, List.dropLast_concat]
      calc front ++ [last]
        _ |>.Perm (last :: front) := List.perm_append_singleton last front
        _ |>.Perm (last :: front[i] :: front.eraseIdx i) :=
            (List.getElem_cons_eraseIdx_perm hi).symm.cons last
        _ |>.Perm (front[i] :: last :: front.eraseIdx i) := List.Perm.swap _ _ _
        _ |>.Perm (front[i] :: front.set i last) := (List.set_perm_cons_eraseIdx hi last).symm.cons _
    · have hlast : i = front.length := by
        have hlt := (List.getElem?_eq_some_iff.mp h).1
        rw [List.length_append, List.length_singleton] at hlt
        omega
      subst hlast
      rw [List.getElem?_concat_length] at h
      obtain rfl := Option.some.inj h
      rw [List.set_append_right _ _ (Nat.le_refl _), Nat.sub_self, List.set_cons_zero, List.dropLast_concat]
      exact List.perm_append_singleton last front

theorem lookup_replaced (h : Unique matchCase (e :: d)) (new : AVDictionaryEntry)
    (hkey : foldKey matchCase e.key = foldKey matchCase new.key) : Unique matchCase (d ++ [new]) ∧
      lookup matchCase (d ++ [new]) =
        Function.update (lookup matchCase (e :: d)) (foldKey matchCase new.key) (some new.value) := by
  have hnew : Unique matchCase (new :: d) := by
    unfold Unique at h ⊢
    rw [List.map_cons] at h ⊢
    rwa [← hkey]
  have hperm : (new :: d).Perm (d ++ [new]) := (List.perm_append_singleton new d).symm
  refine ⟨hnew.perm hperm, ?_⟩
  funext k
  rw [← lookup_perm hnew hperm, lookup_cons, Function.update_apply, lookup_cons, hkey]
  by_cases hk : k = foldKey matchCase new.key
  · simp [hk]
  · simp [hk, Ne.symm hk]

theorem lookup_removed (h : Unique matchCase (e :: d)) : Unique matchCase d ∧
      lookup matchCase d = Function.update (lookup matchCase (e :: d)) (foldKey matchCase e.key) none := by
  obtain ⟨hfresh, hrest⟩ := List.nodup_cons.mp h
  refine ⟨hrest, ?_⟩
  funext k
  rw [Function.update_apply, lookup_cons]
  by_cases hk : k = foldKey matchCase e.key
  · rw [if_pos hk, hk]
    exact lookup_eq_none.mpr hfresh
  · rw [if_neg hk, if_neg (Ne.symm hk)]

theorem lookup_added (h : Unique matchCase d) (new : AVDictionaryEntry)
    (hfresh : lookup matchCase d (foldKey matchCase new.key) = none) : Unique matchCase (d ++ [new]) ∧
      lookup matchCase (d ++ [new]) =
        Function.update (lookup matchCase d) (foldKey matchCase new.key) (some new.value) := by
  have hnew : Unique matchCase (new :: d) := List.nodup_cons.mpr ⟨lookup_eq_none.mp hfresh, h⟩
  have hperm : (new :: d).Perm (d ++ [new]) := (List.perm_append_singleton new d).symm
  refine ⟨hnew.perm hperm, ?_⟩
  funext k
  rw [← lookup_perm hnew hperm, lookup_cons, Function.update_apply]
  by_cases hk : k = foldKey matchCase new.key
  · simp [hk]
  · simp [hk, Ne.symm hk]

theorem avDictGet_lookup (hflags : Plain matchCase flags) (h : Unique matchCase d) (key : List UInt8) :
    (Util.avDictGet d key flags = none ∧ lookup matchCase d (foldKey matchCase key) = none) ∨
      ∃ i e, Util.avDictGet d key flags = some i ∧ d[i]? = some e ∧
        foldKey matchCase e.key = foldKey matchCase key ∧
        lookup matchCase d (foldKey matchCase key) = some e.value := by
  cases hget : Util.avDictGet d key flags with
  | none =>
      refine .inl ⟨rfl, lookup_eq_none.mpr ?_⟩
      intro hmem
      obtain ⟨e, he, hk⟩ := List.mem_map.mp hmem
      have hno := List.findIdx?_eq_none_iff.mp hget e he
      rw [(keyMatches_iff hflags e.key key).mpr hk] at hno
      cases hno
  | some i =>
      obtain ⟨hi, hmatch, _⟩ := List.findIdx?_eq_some_iff_getElem.mp hget
      have hk := (keyMatches_iff hflags d[i].key key).mp hmatch
      exact .inr ⟨i, d[i], rfl, List.getElem?_eq_getElem hi, hk,
        (lookup_eq_some h).mpr ⟨d[i], List.getElem_mem hi, hk, rfl⟩⟩

structure Updates (matchCase : Bool) (d : AVDictionary) (map : List UInt8 → Option (List UInt8))
    (res : Int × AVDictionary) : Prop where
  unique : Unique matchCase res.2
  failed : res.1 ≠ 0 → res.2 = d
  succeeded : res.1 = 0 → lookup matchCase res.2 = map

theorem updates_failed (h : Unique matchCase d) {map : List UInt8 → Option (List UInt8)} {ret : Int}
    (hret : ret ≠ 0) : Updates matchCase d map (ret, d) :=
  ⟨h, fun _ => rfl, fun hzero => absurd hzero hret⟩

theorem entrySet_updates (hflags : Plain matchCase flags) (h : Unique matchCase d) (key : List UInt8)
    (value : Option (List UInt8)) (memory : DictMemory) :
    Updates matchCase d (refSet flags (some key) value (lookup matchCase d))
      (entrySet d (Util.avDictGet d key flags) key value flags memory) := by
  obtain ⟨htag, hmap⟩ | ⟨i, e, htag, he, hk, hmap⟩ := avDictGet_lookup hflags h key
  · unfold refSet entrySet
    simp only [htag, hflags.matchCase, hmap, Option.bind_none]
    cases value with
    | none =>
        refine ⟨h, fun _ => rfl, fun _ => ?_⟩
        exact (Function.update_eq_self_iff.mpr hmap.symm).symm
    | some v =>
        simp only
        split
        · obtain ⟨hunique, hlookup⟩ := lookup_added h ⟨key, v⟩ hmap
          exact ⟨hunique, fun hne => absurd rfl hne, fun _ => hlookup⟩
        · exact updates_failed h (by decide)
  · have hperm := withoutEntry_perm he
    have hmoved := h.perm hperm
    have hsame : lookup matchCase d = lookup matchCase (e :: withoutEntry d i) :=
      funext fun k => lookup_perm h hperm k
    unfold refSet entrySet
    simp only [htag, hflags.matchCase, hmap, Option.bind_some, he, Option.map_some]
    split
    · exact ⟨h, fun hne => absurd rfl hne, fun _ => rfl⟩
    · cases value with
      | none =>
          obtain ⟨hunique, hlookup⟩ := lookup_removed hmoved
          rw [← hsame, hk] at hlookup
          exact ⟨hunique, fun hne => absurd rfl hne, fun _ => hlookup⟩
      | some v =>
          have hreplaced := fun new => lookup_replaced hmoved ⟨key, new⟩ hk
          rw [← hsame] at hreplaced
          simp only [Option.map_some]
          split
          · split
            · obtain ⟨hunique, hlookup⟩ := hreplaced (e.value ++ v)
              exact ⟨hunique, fun hne => absurd rfl hne, fun _ => hlookup⟩
            · exact updates_failed h (by decide)
          · obtain ⟨hunique, hlookup⟩ := hreplaced v
            exact ⟨hunique, fun hne => absurd rfl hne, fun _ => hlookup⟩

theorem avDictSet_updates (hflags : Plain matchCase flags) (h : Unique matchCase d)
    (key value : Option (List UInt8)) (memory : DictMemory) :
    Updates matchCase d (refSet flags key value (lookup matchCase d))
      (Util.avDictSet d key value flags memory) := by
  cases key with
  | none => exact updates_failed h (by decide)
  | some key =>
      rw [avDictSet_entrySet, hflags.multikey]
      split
      · exact updates_failed h (by decide)
      · exact entrySet_updates hflags h key value memory

structure Provided (fresh : Prop) (flags : DictFlags) (value old : Option (List UInt8)) (memory : DictMemory) :
    Prop where
  copyKey : memory.key = true
  copyValue : value ≠ none → memory.value = true
  dict : fresh → memory.dict = true
  appended : old ≠ none → flags.dontOverwrite = false → value ≠ none → flags.append = true →
    memory.appended = true
  elems : old = none → value ≠ none → memory.elems = true

theorem entrySet_ret (hflags : Plain matchCase flags) (h : Unique matchCase d) (key : List UInt8)
    (value : Option (List UInt8)) (memory : DictMemory) :
    (entrySet d (Util.avDictGet d key flags) key value flags memory).1 = 0 ↔
      (lookup matchCase d (foldKey matchCase key) ≠ none → flags.dontOverwrite = false → value ≠ none →
        flags.append = true → memory.appended = true) ∧
      (lookup matchCase d (foldKey matchCase key) = none → value ≠ none → memory.elems = true) := by
  obtain ⟨htag, hmap⟩ | ⟨i, e, htag, he, _, hmap⟩ := avDictGet_lookup hflags h key
  · unfold entrySet
    simp only [htag, hmap, Option.bind_none]
    cases value with
    | none => simp
    | some v => cases memory.elems <;> simp
  · unfold entrySet
    simp only [htag, hmap, Option.bind_some, he, Option.map_some]
    cases flags.dontOverwrite with
    | true => simp
    | false =>
        cases value with
        | none => simp
        | some v => cases flags.append <;> cases memory.appended <;> simp

theorem avDictSet_ret (hflags : Plain matchCase flags) (h : Unique matchCase d) (key : List UInt8)
    (value : Option (List UInt8)) (memory : DictMemory) :
    (Util.avDictSet d (some key) value flags memory).1 = 0 ↔
      Provided (d = []) flags value (lookup matchCase d (foldKey matchCase key)) memory := by
  rw [avDictSet_entrySet, hflags.multikey]
  by_cases hmade : (d.isEmpty && !memory.dict || !memory.key || value.isSome && !memory.value) = true
  · rw [if_pos hmade]
    refine iff_of_false (show ¬((-12 : Int) = 0) by decide) ?_
    rintro ⟨hkey, hvalue, hdict, -, -⟩
    simp only [Bool.or_eq_true, Bool.and_eq_true, List.isEmpty_iff, Bool.not_eq_true', Option.isSome_iff_ne_none] at hmade
    rcases hmade with (⟨hnull, hno⟩ | hno) | ⟨hsome, hno⟩
    · exact absurd (hdict hnull) (by rw [hno]; decide)
    · exact absurd hkey (by rw [hno]; decide)
    · exact absurd (hvalue hsome) (by rw [hno]; decide)
  · rw [if_neg hmade]
    simp only [Bool.or_eq_true, Bool.and_eq_true, List.isEmpty_iff, Bool.not_eq_true', Option.isSome_iff_ne_none,
      not_or, not_and, Bool.not_eq_false] at hmade
    obtain ⟨⟨hdict, hkey⟩, hvalue⟩ := hmade
    refine (entrySet_ret hflags h key value memory).trans ⟨fun ⟨happended, helems⟩ => ?_, fun hprovided => ?_⟩
    · exact ⟨hkey, hvalue, hdict, happended, helems⟩
    · exact ⟨hprovided.appended, hprovided.elems⟩

end Map

section Runs

inductive Call
  | set (key value : Option (List UInt8)) (flags : SetFlags) (memory : DictMemory)
  | setInt (key : Option (List UInt8)) (value : Int) (flags : SetFlags) (memory : DictMemory)

def Call.flags : Call → DictFlags
  | .set _ _ flags _ | .setInt _ _ flags _ => flags.get

def Call.key : Call → Option (List UInt8)
  | .set key _ _ _ | .setInt key _ _ _ => key

def Call.value : Call → Option (List UInt8)
  | .set _ value _ _ => value
  | .setInt _ value _ _ => some (valuestr value)

def Call.memory : Call → DictMemory
  | .set _ _ flags memory => effective flags memory
  | .setInt _ _ flags memory => effective { flags with dontStrdupVal := false } memory

def Call.Succeeds (call : Call) (matchCase : Bool) (pm : Option Block) (map : List UInt8 → Option (List UInt8)) :
    Prop :=
  ∃ key, call.key = some key ∧
    Provided (pm = none) call.flags call.value (map (foldKey matchCase key)) call.memory

def perform (pm : Option Block) : Call → Option (Int × Option Block)
  | .set key value flags memory => avDictSet pm key value flags memory
  | .setInt key value flags memory => avDictSetInt pm key value flags memory

/-- The calls one after the other, with the reference map beside the dictionary: a call that
fails leaves the map as it was. -/
def performAll (pm : Option Block) (map : List UInt8 → Option (List UInt8)) :
    List Call → Option (Option Block × (List UInt8 → Option (List UInt8)))
  | [] => some (pm, map)
  | call :: calls =>
      (perform pm call).bind fun res =>
        performAll res.2 (if res.1 = 0 then refSet call.flags call.key call.value map else map) calls

/-- The entries that a loop over av_dict_iterate visits; nothing when it has not ended. -/
def visited (pm : Option Block) : Nat → Option Nat → Option (List Nat)
  | 0, _ => none
  | rounds + 1, prev =>
      match avDictIterate pm prev with
      | none => some []
      | some i => (visited pm rounds (some i)).map fun later => i :: later

/-- The dictionary behind a pointer is a given map. -/
structure KeyedMap (matchCase : Bool) (pm : Option Block) (map : List UInt8 → Option (List UInt8)) :
    Prop where
  unique : Unique matchCase (entries pm)
  get : ∀ key flags, Plain matchCase flags →
    (avDictGet pm (some key) none flags).map (fun i => (entryAt pm i).value) = map (foldKey matchCase key)
  visits : visited pm ((entries pm).length + 1) none = some (List.range (entries pm).length)
  null : pm = none ↔ entries pm = []
  empty : pm = none ↔ ∀ key, map (foldKey matchCase key) = none

variable {matchCase : Bool} {pm : Option Block} {map : List UInt8 → Option (List UInt8)}

theorem visited_range (h : Valid pm) (rounds : Nat) (prev : Option Nat)
    (hrounds : (entries pm).length + 1 = rounds + prev.elim 0 (· + 1)) (hpos : 0 < rounds) :
    visited pm rounds prev =
      some (List.range' (prev.elim 0 (· + 1)) ((entries pm).length - prev.elim 0 (· + 1))) := by
  have hlength : (entries pm).length = pm.elim 0 Block.count := by
    cases pm with
    | none => rfl
    | some m =>
        change (m.elems.take m.count).length = m.count
        rw [List.length_take, Nat.min_eq_left (h m rfl).2]
  induction rounds generalizing prev with
  | zero => exact absurd hpos (Nat.lt_irrefl 0)
  | succ rounds ih =>
      rw [visited]
      cases pm with
      | none =>
          change some [] = some (List.range' _ (0 - _))
          rw [Nat.zero_sub]
          rfl
      | some m =>
          rw [Option.elim_some] at hlength
          rw [avDictIterate, Option.bind_some]
          by_cases hend : prev.elim 0 (· + 1) ≥ m.count
          · simp only [if_pos hend]
            rw [hlength, Nat.sub_eq_zero_of_le hend]
            rfl
          · simp only [if_neg hend]
            rw [ih (some _) (by simp only [Option.elim_some]; omega) (by omega), Option.map_some, Option.elim_some]
            rw [show (entries (some m)).length - prev.elim 0 (· + 1) =
              (entries (some m)).length - (prev.elim 0 (· + 1) + 1) + 1 by omega, List.range'_succ]

theorem Valid.null (h : Valid pm) : pm = none ↔ entries pm = [] := by
  cases pm with
  | none => exact ⟨fun _ => rfl, fun _ => rfl⟩
  | some m =>
      refine ⟨nofun, fun hnil => ?_⟩
      obtain ⟨hpos, hle⟩ := h m rfl
      have hlength := congrArg List.length hnil
      change (m.elems.take m.count).length = 0 at hlength
      rw [List.length_take] at hlength
      omega

theorem keyedMap (h : Valid pm) (hunique : Unique matchCase (entries pm)) :
    KeyedMap matchCase pm (lookup matchCase (entries pm)) := by
  have hnull := h.null
  refine ⟨hunique, ?_, ?_, hnull, ?_⟩
  · intro key flags hflags
    rw [avDictGet_eq h]
    obtain ⟨hget, hlookup⟩ | ⟨i, e, hget, he, _, hlookup⟩ := avDictGet_lookup hflags hunique key
    · rw [hget, hlookup]
      rfl
    · rw [hget, hlookup, Option.map_some]
      cases pm with
      | none => cases he
      | some m =>
          have hi := (List.getElem?_eq_some_iff.mp he).1
          change i < (m.elems.take m.count).length at hi
          change (m.elems.take m.count)[i]? = some e at he
          rw [List.length_take] at hi
          rw [List.getElem?_take_of_lt (by omega)] at he
          rw [entryAt, Option.map_some, Option.getD_some, List.getD_eq_getElem?_getD, he, Option.getD_some]
  · rw [visited_range h _ none rfl (Nat.succ_pos _), List.range_eq_range']
    rfl
  · rw [hnull]
    constructor
    · intro hnil key
      rw [hnil]
      rfl
    · intro hnone
      cases hentries : entries pm with
      | nil => rfl
      | cons e d =>
          have hfirst := hnone e.key
          rw [hentries, lookup_cons, if_pos rfl] at hfirst
          cases hfirst

theorem perform_updates (h : Valid pm) (hunique : Unique matchCase (entries pm)) {call : Call}
    (hflags : Plain matchCase call.flags) :
    ∃ ret pm', perform pm call = some (ret, pm') ∧ Valid pm' ∧ Unique matchCase (entries pm') ∧
      (ret = 0 ↔ call.Succeeds matchCase pm (lookup matchCase (entries pm))) ∧
      (ret ≠ 0 → entries pm' = entries pm) ∧
      (ret = 0 → lookup matchCase (entries pm') =
        refSet call.flags call.key call.value (lookup matchCase (entries pm))) := by
  have hset : ∀ key value flags memory, Plain matchCase flags.get →
      ∃ ret pm', avDictSet pm key value flags memory = some (ret, pm') ∧ Valid pm' ∧
        Unique matchCase (entries pm') ∧
        (ret = 0 ↔ (Call.set key value flags memory).Succeeds matchCase pm (lookup matchCase (entries pm))) ∧
        (ret ≠ 0 → entries pm' = entries pm) ∧
        (ret = 0 → lookup matchCase (entries pm') =
          refSet flags.get key value (lookup matchCase (entries pm))) := by
    intro key value flags memory hplain
    obtain ⟨pm', hrun, hvalid, hentries⟩ := (avDictSet_refines h key value flags memory).refines
    have hupdates := avDictSet_updates hplain hunique key value (effective flags memory)
    refine ⟨_, pm', hrun, hvalid, hentries ▸ hupdates.unique, ?_, fun hne => hentries.trans (hupdates.failed hne),
      fun hzero => hentries ▸ hupdates.succeeded hzero⟩
    cases key with
    | none =>
        refine iff_of_false (show ¬((-22 : Int) = 0) by decide) ?_
        rintro ⟨key, hkey, -⟩
        cases hkey
    | some key =>
        rw [avDictSet_ret hplain hunique key value (effective flags memory), ← h.null]
        constructor
        · exact fun hprovided => ⟨key, rfl, hprovided⟩
        · rintro ⟨k, hkey, hprovided⟩
          obtain rfl := Option.some.inj hkey
          exact hprovided
  cases call with
  | set key value flags memory => exact hset key value flags memory hflags
  | setInt key value flags memory => exact hset key _ { flags with dontStrdupVal := false } memory hflags

theorem performAll_keyed (h : Valid pm) (hunique : Unique matchCase (entries pm)) (calls : List Call)
    (hcalls : ∀ call ∈ calls, Plain matchCase call.flags) :
    ∃ pm', performAll pm (lookup matchCase (entries pm)) calls =
        some (pm', lookup matchCase (entries pm')) ∧ Valid pm' ∧ Unique matchCase (entries pm') := by
  induction calls generalizing pm with
  | nil => exact ⟨pm, rfl, h, hunique⟩
  | cons call calls ih =>
      obtain ⟨ret, pm', hrun, hvalid, hunique', -, hfailed, hdone⟩ :=
        perform_updates h hunique (hcalls call List.mem_cons_self)
      obtain ⟨last, hrest, hlast⟩ := ih hvalid hunique' fun c hc => hcalls c (List.mem_cons_of_mem _ hc)
      refine ⟨last, ?_, hlast⟩
      rw [performAll, hrun, Option.bind_some]
      simp only
      split
      · next hzero => rw [← hdone hzero, hrest]
      · next hne =>
          have hsame := hfailed hne
          rw [hsame] at hrest
          rw [hrest]

end Runs

/-- From NULL on, any calls leave the dictionary of the reference map; a call with a key fails
only where an allocation does, and one that fails changes no entry. -/
theorem av_dict_keyed_map (matchCase : Bool) (calls : List Call)
    (hcalls : ∀ call ∈ calls, Plain matchCase call.flags) :
    ∃ pm map, performAll none (fun _ => none) calls = some (pm, map) ∧ KeyedMap matchCase pm map ∧
      ∀ call, Plain matchCase call.flags →
        ∃ ret pm', perform pm call = some (ret, pm') ∧ (ret = 0 ↔ call.Succeeds matchCase pm map) ∧
          (ret ≠ 0 → entries pm' = entries pm) := by
  have hstart : Valid none := nofun
  obtain ⟨pm, hrun, hvalid, hunique⟩ := performAll_keyed hstart List.nodup_nil calls hcalls
  refine ⟨pm, _, hrun, keyedMap hvalid hunique, ?_⟩
  intro call hflags
  obtain ⟨ret, pm', hstep, _, _, hret, hfailed, _⟩ := perform_updates hvalid hunique hflags
  exact ⟨ret, pm', hstep, hret, hfailed⟩

section Example

def plainFlags (append : Bool) : SetFlags := ⟨⟨false, false, false, append, false⟩, false, false⟩

/-- A value that is extended under another spelling of its key, a value that goes again,
and a call for whose entry there is no memory. -/
def spelledCalls : List Call :=
  [.set (some [97]) (some [120]) (plainFlags false) .enough,
    .set (some [98]) (some [121]) (plainFlags false) .enough,
    .setInt (some [65]) (-7) (plainFlags true) .enough,
    .set (some [66]) none (plainFlags false) .enough,
    .set (some [99]) (some [122]) (plainFlags false) { DictMemory.enough with elems := false }]

theorem spelledCalls_plain : ∀ call ∈ spelledCalls, Plain false call.flags := by
  intro call hcall
  simp only [spelledCalls, List.mem_cons, List.not_mem_nil, or_false] at hcall
  rcases hcall with rfl | rfl | rfl | rfl | rfl
  all_goals exact ⟨rfl, rfl, rfl⟩

/-- The entry for "A" holds "x-7", and a further key is stored. -/
theorem av_dict_keyed_map_spelled :
    ∃ pm map, performAll none (fun _ => none) spelledCalls = some (pm, map) ∧ KeyedMap false pm map ∧
      entries pm = [⟨[65], [120, 45, 55]⟩] ∧ map [65] = some [120, 45, 55] ∧ map [66] = none ∧ map [67] = none ∧
      ∃ pm', perform pm (.set (some [100]) (some [119]) (plainFlags false) .enough) = some (0, pm') := by
  obtain ⟨pm, map, hrun, hkeyed, hcall⟩ := av_dict_keyed_map false spelledCalls spelledCalls_plain
  have hview : (performAll none (fun _ => none) spelledCalls).map
      (fun r => (entries r.1, [[65], [66], [67], [68]].map r.2)) =
        some ([⟨[65], [120, 45, 55]⟩], [some [120, 45, 55], none, none, none]) := by
    decide +kernel
  rw [hrun, Option.map_some, Option.some_inj, Prod.mk.injEq] at hview
  obtain ⟨hentries, hvalues⟩ := hview
  simp only [List.map_cons, List.map_nil, List.cons.injEq, and_true] at hvalues
  obtain ⟨hfirst, hsecond, hthird, -⟩ := hvalues
  refine ⟨pm, map, hrun, hkeyed, hentries, hfirst, hsecond, hthird, ?_⟩
  obtain ⟨ret, pm', hstep, hret, -⟩ :=
    hcall (.set (some [100]) (some [119]) (plainFlags false) .enough) ⟨rfl, rfl, rfl⟩
  obtain rfl : ret = 0 := by
    refine hret.mpr ⟨[100], rfl, rfl, fun _ => rfl, fun _ => rfl, fun _ _ _ happend => ?_, fun _ _ => rfl⟩
    cases happend
  exact ⟨pm', hstep⟩

end Example

end P2PFFmpeg.Util.DictMap
