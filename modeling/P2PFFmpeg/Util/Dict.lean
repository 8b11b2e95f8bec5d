import P2PFFmpeg.Util.Token
import P2PFFmpeg.Util.BPrintText

namespace P2PFFmpeg.Util

structure AVDictionaryEntry where
  key : List UInt8
  value : List UInt8
deriving DecidableEq

/-- The entries in their order; a dictionary without entries is NULL. -/
abbrev AVDictionary := List AVDictionaryEntry

structure DictFlags where
  matchCase : Bool
  ignoreSuffix : Bool
  dontOverwrite : Bool
  append : Bool
  multikey : Bool

structure DictMemory where
  value : Bool
  key : Bool
  dict : Bool
  appended : Bool
  elems : Bool

def avToupper (c : UInt8) : UInt8 := if 97 ≤ c ∧ c ≤ 122 then c ^^^ 32 else c

/-- The loop of av_dict_get over the characters of a key that is there, `s`, and
of the one that is looked for. -/
def keyMatches (flags : DictFlags) : List UInt8 → List UInt8 → Bool
  | s, [] => s.isEmpty || flags.ignoreSuffix
  | [], _ :: _ => false
  | c :: s, d :: key =>
      (if flags.matchCase then c == d else avToupper c == avToupper d) && keyMatches flags s key

/-- The first entry that matches, by its index. -/
def avDictGet (m : AVDictionary) (key : List UInt8) (flags : DictFlags) : Option Nat :=
  m.findIdx? fun e => keyMatches flags e.key key

def withoutEntry (m : AVDictionary) (i : Nat) : AVDictionary :=
  match m.getLast? with
  | none => []
  | some last => (m.set i last).dropLast

/-- `none` for a NULL key or value. -/
def avDictSet (m : AVDictionary) (key value : Option (List UInt8)) (flags : DictFlags)
    (memory : DictMemory) : Int × AVDictionary :=
  match key with
  | none => (-22, m)
  | some key =>
      let tag := if flags.multikey then none else avDictGet m key flags
      if m.isEmpty && !memory.dict || !memory.key || value.isSome && !memory.value then (-12, m)
      else
        match tag.bind (fun i => m[i]?.map (i, ·)) with
        | some (i, e) =>
            if flags.dontOverwrite then (0, m)
            else
              match value with
              | none => (0, withoutEntry m i)
              | some value =>
                  if flags.append then
                    if memory.appended then (0, withoutEntry m i ++ [⟨key, e.value ++ value⟩])
                    else (-12, m)
                  else (0, withoutEntry m i ++ [⟨key, value⟩])
        | none =>
            match value with
            | none => (0, m)
            | some value => if memory.elems then (0, m ++ [⟨key, value⟩]) else (-12, m)

/-- There is memory for everything. -/
def DictMemory.enough : DictMemory := ⟨true, true, true, true, true⟩

/-- The result, the dictionary, and the rest of the string. -/
def parseKeyValuePair (m : AVDictionary) (buf keyValSep pairsSep : List UInt8) (flags : DictFlags) :
    Int × AVDictionary × List UInt8 :=
  let key := avGetToken buf keyValSep
  let val :=
    match key.2 with
    | c :: rest =>
        if key.1 ≠ [] ∧ keyValSep.contains c then
          let token := avGetToken rest pairsSep
          (some token.1, token.2)
        else (none, key.2)
    | [] => (none, [])
  if key.1 ≠ [] ∧ val.1.any (· ≠ []) then
    let set := avDictSet m (some key.1) val.1 flags .enough
    (set.1, set.2, val.2)
  else (-22, m, val.2)

/-- The loop of av_dict_parse_string; a round that does not end it reads a character. -/
def parsePairs (keyValSep pairsSep : List UInt8) (flags : DictFlags) :
    Nat → AVDictionary → List UInt8 → Option (Int × AVDictionary)
  | 0, _, _ => none
  | rounds + 1, m, str =>
      if str = [] then some (0, m)
      else
        let parsed := parseKeyValuePair m str keyValSep pairsSep flags
        if parsed.1 < 0 then some (parsed.1, parsed.2.1)
        else parsePairs keyValSep pairsSep flags rounds parsed.2.1 (parsed.2.2.drop 1)

def avDictParseString (m : AVDictionary) (str keyValSep pairsSep : List UInt8) (flags : DictFlags) :
    Option (Int × AVDictionary) :=
  parsePairs keyValSep pairsSep flags (str.length + 1) m str

def escapePlain : EscapeFlags := ⟨false, false, false, false⟩

def entryText (keyValSep pairsSep : UInt8) (e : AVDictionaryEntry) : List UInt8 :=
  avBprintEscape e.key [pairsSep, keyValSep] .backslash escapePlain ++ [keyValSep] ++
    avBprintEscape e.value [pairsSep, keyValSep] .backslash escapePlain

def dictText (keyValSep pairsSep : UInt8) : Nat → AVDictionary → List UInt8
  | _, [] => []
  | cnt, e :: m =>
      (if cnt ≠ 0 then [pairsSep] else []) ++ entryText keyValSep pairsSep e ++
        dictText keyValSep pairsSep (cnt + 1) m

def avDictGetString (m : AVDictionary) (keyValSep pairsSep : UInt8) : Except Int (List UInt8) :=
  if pairsSep = 0 ∨ keyValSep = 0 ∨ pairsSep = keyValSep ∨ pairsSep = backslash ∨
      keyValSep = backslash then .error (-22)
  else if m.length = 0 then .ok []
  else .ok (dictText keyValSep pairsSep 0 m)

def multikey : DictFlags := ⟨false, false, false, false, true⟩

theorem avDictSet_multikey (m : AVDictionary) (key value : List UInt8) :
    avDictSet m (some key) (some value) multikey .enough = (0, m ++ [⟨key, value⟩]) := by
  simp [avDictSet, multikey, DictMemory.enough]

def laterText (keyValSep pairsSep : UInt8) (m : AVDictionary) : List UInt8 :=
  m.flatMap fun e => pairsSep :: entryText keyValSep pairsSep e

theorem dictText_later (keyValSep pairsSep : UInt8) (m : AVDictionary) (cnt : Nat) :
    dictText keyValSep pairsSep (cnt + 1) m = laterText keyValSep pairsSep m := by
  induction m generalizing cnt with
  | nil => rfl
  | cons e m ih =>
      rw [dictText, if_pos (Nat.succ_ne_zero cnt), ih, laterText, laterText, List.flatMap_cons]
      rfl

theorem dictText_cons (keyValSep pairsSep : UInt8) (e : AVDictionaryEntry) (m : AVDictionary) :
    dictText keyValSep pairsSep 0 (e :: m) =
      entryText keyValSep pairsSep e ++ laterText keyValSep pairsSep m := by
  rw [dictText, if_neg (not_not.mpr rfl), dictText_later, List.nil_append]

def AVDictionaryEntry.Full (e : AVDictionaryEntry) : Prop := e.key ≠ [] ∧ e.value ≠ []

section Separators

variable {keyValSep pairsSep : UInt8}

structure Separates (keyValSep pairsSep : UInt8) : Prop where
  keyVal : keyValSep ≠ backslash
  pairs : pairsSep ≠ backslash

theorem avDictGetString_ok {m : AVDictionary} {text : List UInt8}
    (h : avDictGetString m keyValSep pairsSep = .ok text) :
    Separates keyValSep pairsSep ∧ text = dictText keyValSep pairsSep 0 m := by
  rw [avDictGetString] at h
  split at h
  · cases h
  · rename_i haccepted
    simp only [not_or] at haccepted
    refine ⟨⟨haccepted.2.2.2.2, haccepted.2.2.2.1⟩, ?_⟩
    split at h
    · rename_i hnone
      rw [List.length_eq_zero_iff.mp hnone]
      exact (Except.ok.inj h).symm
    · exact (Except.ok.inj h).symm

theorem endsToken_later (m : AVDictionary) : EndsToken [pairsSep] (laterText keyValSep pairsSep m) := by
  cases m with
  | nil =>
      intro c hc
      cases hc
  | cons e m =>
      intro c hc
      rw [laterText, List.flatMap_cons, List.cons_append, List.head?_cons] at hc
      exact List.mem_singleton.mpr (Option.some.inj hc).symm

variable (h : Separates keyValSep pairsSep)

include h

theorem read_key {key : List UInt8} (hkey : key ≠ []) (rest : List UInt8) :
    avGetToken (avBprintEscape key [pairsSep, keyValSep] .backslash escapePlain ++
      keyValSep :: rest) [keyValSep] = (key, keyValSep :: rest) := by
  apply avGetToken_escape
  · intro c hc
    rw [List.mem_singleton.mp hc]
    simp
  · simpa using h.keyVal.symm
  · rfl
  · exact hkey
  · intro c hc
    exact List.mem_singleton.mpr (Option.some.inj hc).symm

theorem read_value {value : List UInt8} (hvalue : value ≠ []) (m : AVDictionary) :
    avGetToken (avBprintEscape value [pairsSep, keyValSep] .backslash escapePlain ++
      laterText keyValSep pairsSep m) [pairsSep] = (value, laterText keyValSep pairsSep m) := by
  apply avGetToken_escape
  · intro c hc
    rw [List.mem_singleton.mp hc]
    simp
  · simpa using h.pairs.symm
  · rfl
  · exact hvalue
  · exact endsToken_later m

variable {e : AVDictionaryEntry}

theorem parse_entry (he : e.Full) (m later : AVDictionary) :
    parseKeyValuePair m (entryText keyValSep pairsSep e ++ laterText keyValSep pairsSep later)
      [keyValSep] [pairsSep] multikey = (0, m ++ [e], laterText keyValSep pairsSep later) := by
  have htext : entryText keyValSep pairsSep e ++ laterText keyValSep pairsSep later =
      avBprintEscape e.key [pairsSep, keyValSep] .backslash escapePlain ++ keyValSep ::
        (avBprintEscape e.value [pairsSep, keyValSep] .backslash escapePlain ++
          laterText keyValSep pairsSep later) := by
    simp [entryText]
  have hkey := read_key h he.1 (avBprintEscape e.value [pairsSep, keyValSep] .backslash escapePlain ++
    laterText keyValSep pairsSep later)
  have hvalue := read_value h he.2 later
  rw [htext, parseKeyValuePair, hkey]
  simp only [List.contains_cons, beq_self_eq_true, Bool.true_or, and_true, hvalue]
  simp [he.1, he.2, avDictSet_multikey]

structure Visible (keyValSep pairsSep : UInt8) : Prop where
  keyVal : keyValSep ∉ whitespaces
  pairs : pairsSep ∉ whitespaces

theorem parse_empty (hvisible : Visible keyValSep pairsSep) (he : ¬ e.Full) (m later : AVDictionary) :
    (parseKeyValuePair m (entryText keyValSep pairsSep e ++ laterText keyValSep pairsSep later)
      [keyValSep] [pairsSep] multikey).1 = -22 := by
  by_cases hkey : e.key = []
  · -- the separator is the first character
    have htext : entryText keyValSep pairsSep e ++ laterText keyValSep pairsSep later =
        keyValSep :: (avBprintEscape e.value [pairsSep, keyValSep] .backslash escapePlain ++
          laterText keyValSep pairsSep later) := by
      simp [entryText, hkey, avBprintEscape, escapeBackslash]
    have hends : ∀ rest, EndsToken [keyValSep] (keyValSep :: rest) := fun rest c hc =>
      List.mem_singleton.mpr (Option.some.inj hc).symm
    rw [htext, parseKeyValuePair, avGetToken_nothing (hends _)
      (fun c hc => List.mem_singleton.mp hc ▸ hvisible.keyVal)]
    simp
  · have hvalue : e.value = [] := by
      by_contra hvalue
      exact he ⟨hkey, hvalue⟩
    have htext : entryText keyValSep pairsSep e ++ laterText keyValSep pairsSep later =
        avBprintEscape e.key [pairsSep, keyValSep] .backslash escapePlain ++ keyValSep ::
          laterText keyValSep pairsSep later := by
      simp [entryText, hvalue, avBprintEscape, escapeBackslash]
    have hnothing := avGetToken_nothing (@endsToken_later keyValSep pairsSep later)
      (fun c hc => List.mem_singleton.mp hc ▸ hvisible.pairs)
    rw [htext, parseKeyValuePair, read_key h hkey]
    simp [hkey, hnothing]

theorem parse_entries (he : e.Full) (m later : AVDictionary) (hlater : ∀ e' ∈ later, e'.Full)
    {rounds : Nat} (hrounds : later.length + 2 ≤ rounds) : parsePairs [keyValSep] [pairsSep] multikey rounds m
      (entryText keyValSep pairsSep e ++ laterText keyValSep pairsSep later) =
        some (0, m ++ e :: later) := by
  induction later generalizing e m rounds with
  | nil =>
      obtain ⟨rounds, rfl⟩ : ∃ k, rounds = k + 2 := ⟨rounds - 2, by simp at hrounds; omega⟩
      have hsome : entryText keyValSep pairsSep e ++ laterText keyValSep pairsSep [] ≠ [] := by
        simp [entryText]
      rw [parsePairs, if_neg hsome, parse_entry h he]
      rfl
  | cons e' later ih =>
      obtain ⟨rounds, rfl⟩ : ∃ k, rounds = k + 1 := ⟨rounds - 1, by omega⟩
      have hsome : entryText keyValSep pairsSep e ++ laterText keyValSep pairsSep (e' :: later) ≠ [] := by
        simp [entryText]
      rw [parsePairs, if_neg hsome, parse_entry h he]
      simp only [Int.lt_irrefl, if_false]
      have hleft : later.length + 2 ≤ rounds := Nat.le_of_succ_le_succ hrounds
      have hnext := ih (hlater e' List.mem_cons_self) (m ++ [e])
        (fun x hx => hlater x (List.mem_cons_of_mem _ hx)) hleft
      rw [List.append_assoc] at hnext
      exact hnext

theorem parse_fails (hvisible : Visible keyValSep pairsSep) {e : AVDictionaryEntry}
    {later : AVDictionary} (hempty : ¬ ∀ e' ∈ e :: later, e'.Full) (m : AVDictionary) {rounds : Nat}
    (hrounds : later.length + 2 ≤ rounds) : (parsePairs [keyValSep] [pairsSep] multikey rounds m
      (entryText keyValSep pairsSep e ++ laterText keyValSep pairsSep later)).map Prod.fst =
        some (-22) := by
  induction later generalizing e m rounds with
  | nil =>
      obtain ⟨rounds, rfl⟩ : ∃ k, rounds = k + 1 := ⟨rounds - 1, by omega⟩
      have he : ¬ e.Full := by simpa using hempty
      have hsome : entryText keyValSep pairsSep e ++ laterText keyValSep pairsSep [] ≠ [] := by
        simp [entryText]
      rw [parsePairs, if_neg hsome]
      simp only [parse_empty h hvisible he]
      rfl
  | cons e' later ih =>
      obtain ⟨rounds, rfl⟩ : ∃ k, rounds = k + 1 := ⟨rounds - 1, by omega⟩
      have hsome : entryText keyValSep pairsSep e ++ laterText keyValSep pairsSep (e' :: later) ≠ [] := by
        simp [entryText]
      rw [parsePairs, if_neg hsome]
      by_cases he : e.Full
      · have hnext : ¬ ∀ x ∈ e' :: later, x.Full := fun hall =>
          hempty (List.forall_mem_cons.mpr ⟨he, hall⟩)
        rw [parse_entry h he]
        exact ih hnext (m ++ [e]) (Nat.le_of_succ_le_succ hrounds)
      · simp only [parse_empty h hvisible he]
        rfl

end Separators

section Parser

variable {keyValSep pairsSep : List UInt8}

theorem parseKeyValuePair_spec (m : AVDictionary) (buf : List UInt8) :
    (parseKeyValuePair m buf keyValSep pairsSep multikey).1 = -22 ∧
        (parseKeyValuePair m buf keyValSep pairsSep multikey).2.1 = m ∨
      ∃ e, e.Full ∧ ∃ rest, rest.length < buf.length ∧
        parseKeyValuePair m buf keyValSep pairsSep multikey = (0, m ++ [e], rest) := by
  have hkeyLen := @avGetToken_length keyValSep buf
  rw [parseKeyValuePair]
  cases hrest : (avGetToken buf keyValSep).2 with
  | nil => exact .inl ⟨by simp, by simp⟩
  | cons c rest =>
      have hvalueLen := @avGetToken_length pairsSep rest
      rw [hrest, List.length_cons] at hkeyLen
      by_cases hsep : (avGetToken buf keyValSep).1 ≠ [] ∧ keyValSep.contains c = true
      · simp only [if_pos hsep]
        by_cases hvalue : (avGetToken rest pairsSep).1 = []
        · exact .inl ⟨by simp [hvalue], by simp [hvalue]⟩
        · refine .inr ⟨⟨(avGetToken buf keyValSep).1, (avGetToken rest pairsSep).1⟩, ⟨hsep.1, hvalue⟩,
            (avGetToken rest pairsSep).2, by omega, ?_⟩
          simp [hsep.1, hvalue, avDictSet_multikey]
      · exact .inl ⟨by simp only [if_neg hsep]; simp, by simp only [if_neg hsep]; simp⟩

theorem parsePairs_stores {rounds : Nat} {m : AVDictionary} {str : List UInt8}
    (hm : ∀ e ∈ m, e.Full) (hrounds : str.length < rounds) :
    ∃ ret d, parsePairs keyValSep pairsSep multikey rounds m str = some (ret, d) ∧
      ∀ e ∈ d, e.Full := by
  induction rounds generalizing m str with
  | zero => exact absurd hrounds (Nat.not_lt_zero _)
  | succ rounds ih =>
      rw [parsePairs]
      by_cases hend : str = []
      · exact ⟨0, m, if_pos hend, hm⟩
      · rw [if_neg hend]
        obtain ⟨hret, hsame⟩ | ⟨e, he, rest, hshort, hread⟩ :=
          @parseKeyValuePair_spec keyValSep pairsSep m str
        · refine ⟨-22, m, ?_, hm⟩
          simp only [hret, hsame]
          rfl
        · simp only [hread, Int.lt_irrefl, if_false]
          apply ih
          · intro x hx
            rcases List.mem_append.mp hx with hx | hx
            · exact hm x hx
            · exact List.mem_singleton.mp hx ▸ he
          · rw [List.length_drop]
            omega

theorem avDictParseString_stores (str : List UInt8) :
    ∃ ret d, avDictParseString [] str keyValSep pairsSep multikey = some (ret, d) ∧
      ∀ e ∈ d, e.Full :=
  parsePairs_stores (fun _ he => absurd he List.not_mem_nil) (Nat.lt_succ_self _)

end Parser

theorem dictText_length (keyValSep pairsSep : UInt8) (m : AVDictionary) (cnt : Nat) :
    m.length ≤ (dictText keyValSep pairsSep cnt m).length := by
  induction m generalizing cnt with
  | nil => exact Nat.zero_le _
  | cons e m ih =>
      have hlater := ih (cnt + 1)
      simp only [dictText, entryText, List.length_append, List.length_cons]
      omega

/-- What av_dict_get_string writes is read back by av_dict_parse_string. -/
theorem dict_text_round_trip (m : AVDictionary) (keyValSep pairsSep : UInt8) (text : List UInt8)
    (htext : avDictGetString m keyValSep pairsSep = .ok text) :
    (avDictParseString [] text [keyValSep] [pairsSep] multikey = some (0, m) ↔ ∀ e ∈ m, e.Full) ∧
      (Visible keyValSep pairsSep → (¬ ∀ e ∈ m, e.Full) →
        ∃ d, avDictParseString [] text [keyValSep] [pairsSep] multikey = some (-22, d)) := by
  obtain ⟨hsep, rfl⟩ := avDictGetString_ok htext
  have hlen := dictText_length keyValSep pairsSep m 0
  refine ⟨⟨?_, ?_⟩, ?_⟩
  · intro hread
    obtain ⟨ret, d, hd, hfull⟩ := @avDictParseString_stores [keyValSep] [pairsSep]
      (dictText keyValSep pairsSep 0 m)
    rw [hread] at hd
    cases hd
    exact hfull
  · intro hfull
    cases m with
    | nil => rfl
    | cons e later =>
        rw [avDictParseString, dictText_cons]
        rw [dictText_cons, List.length_cons] at hlen
        exact parse_entries hsep (hfull e List.mem_cons_self) []
          later (fun x hx => hfull x (List.mem_cons_of_mem _ hx)) (by omega)
  · intro hvisible hempty
    cases m with
    | nil => exact absurd (fun _ he => absurd he List.not_mem_nil) hempty
    | cons e later =>
        rw [dictText_cons, List.length_cons] at hlen
        have hfails := @parse_fails _ _ hsep hvisible e later hempty []
          ((dictText keyValSep pairsSep 0 (e :: later)).length + 1) (by rw [dictText_cons]; omega)
        rw [← dictText_cons] at hfails
        obtain ⟨⟨ret, d⟩, hd, rfl⟩ := Option.map_eq_some_iff.mp hfails
        exact ⟨d, hd⟩

/-- With keys and values of quotes, separators and spaces, and one value that is empty. -/
theorem dict_text_round_trip_special :
    avDictParseString [] [97, 92, 61, 61, 92, 32, 92, 39, 38, 97, 92, 61, 61, 98] [61] [38] multikey =
        some (0, [⟨[97, 61], [32, 39]⟩, ⟨[97, 61], [98]⟩]) ∧
      ∃ d, avDictParseString [] [97, 61, 98, 38, 99, 61] [61] [38] multikey = some (-22, d) := by
  refine ⟨?_, ?_⟩
  · exact (dict_text_round_trip [⟨[97, 61], [32, 39]⟩, ⟨[97, 61], [98]⟩] 61 38 _
      (by decide +kernel)).1.mpr (by simp [AVDictionaryEntry.Full])
  · exact (dict_text_round_trip [⟨[97], [98]⟩, ⟨[99], []⟩] 61 38 _ (by decide +kernel)).2
      ⟨by decide, by decide⟩ (by simp [AVDictionaryEntry.Full])

/-- Where the pairs are separated by a space, an empty value takes in the next pair. -/
theorem empty_value_is_read_on :
    avDictGetString [⟨[97], []⟩, ⟨[98], [99]⟩] 61 32 = .ok [97, 61, 32, 98, 61, 99] ∧
      avDictParseString [] [97, 61, 32, 98, 61, 99] [61] [32] multikey =
        some (0, [⟨[97], [98, 61, 99]⟩]) := by
  refine ⟨rfl, ?_⟩
  decide +kernel

end P2PFFmpeg.Util
