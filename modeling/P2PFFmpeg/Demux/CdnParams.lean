import P2PFFmpeg.Util.AvString

namespace P2PFFmpeg.Demux

open Util

def questionMark : UInt8 := 63

def equalsSign : UInt8 := 61

def ampersand : UInt8 := 38

/-- The copy of a value, with the pointers that parse_cdn_params takes it from as
offsets into the query. -/
structure ParamCopy where
  q : List UInt8
  eq : Nat
  amp : Nat
deriving DecidableEq, Repr

/-- `amp - (eq + 1)`. -/
def ParamCopy.span (c : ParamCopy) : Int := c.amp - (c.eq + 1)

def ParamCopy.vlen (c : ParamCopy) : Nat := (c.span % 2 ^ 64).toNat

def ParamCopy.val (c : ParamCopy) : List UInt8 := (c.q.drop (c.eq + 1)).take c.vlen

def cdnParamCopy (mem : Allocator) (key : List UInt8) (q : List UInt8) : Option ParamCopy :=
  if q = [] then none
  else match strchr q equalsSign with
    | none => none
    | some eq =>
        let amp := (strchr q ampersand).getD q.length
        if eq = key.length ∧ avStrncasecmp q key key.length = 0 then
          let copy : ParamCopy := { q, eq, amp }
          if mem.avMalloc ((copy.vlen + 1) % 2 ^ 64) then some copy else none
        else if q.length ≤ amp then none
        else cdnParamCopy mem key (q.drop (amp + 1))
termination_by q.length
decreasing_by
  rw [List.length_drop]
  omega

def parseCdnCopy (mem : Allocator) (url key : Option CString) : Option ParamCopy :=
  match url, key with
  | some url, some key =>
      match strchr url.bytes questionMark with
      | none => none
      | some q => cdnParamCopy mem key.bytes (url.bytes.drop (q + 1))
  | _, _ => none

def parseCdnParams (mem : Allocator) (url key : Option CString) : Option (List UInt8) :=
  (parseCdnCopy mem url key).map ParamCopy.val

def queryOf (url : List UInt8) : Option (List UInt8) :=
  if questionMark ∈ url then some (url.dropWhile (· ≠ questionMark)).tail else none

def sameName (a b : List UInt8) : Prop := a.map avTolower = b.map avTolower

instance (a b : List UInt8) : Decidable (sameName a b) := inferInstanceAs (Decidable (_ = _))

def pieceValue (key piece : List UInt8) : Option (List UInt8) :=
  if equalsSign ∈ piece ∧ sameName (piece.takeWhile (· ≠ equalsSign)) key then
    some (piece.dropWhile (· ≠ equalsSign)).tail
  else none

def queryValue (key query : List UInt8) : Option (List UInt8) :=
  (query.splitOn ampersand).findSome? (pieceValue key)

def urlParameter (url key : List UInt8) : Option (List UInt8) := (queryOf url).bind (queryValue key)

section Pieces

variable {mem : Allocator} {key q : List UInt8} {eq : Nat}

theorem queryValue_eq_none (h : ampersand ∈ key) (query : List UInt8) : queryValue key query = none := by
  rw [queryValue, List.findSome?_eq_none_iff]
  intro piece hpiece
  refine if_neg fun hnamed => ?_
  have hname : ampersand ∈ piece.takeWhile (· ≠ equalsSign) := by
    have hmem := (mem_map_avTolower (by decide : ampersand < 65)).mpr h
    rw [← hnamed.2] at hmem
    exact (mem_map_avTolower (by decide)).mp hmem
  exact (of_mem_splitOn hpiece).1 (List.takeWhile_subset _ hname)

theorem queryValue_unnamed (h : equalsSign ∉ q) : queryValue key q = none := by
  rw [queryValue, List.findSome?_eq_none_iff]
  exact fun piece hpiece => if_neg fun hnamed => h ((of_mem_splitOn hpiece).2 hnamed.1)

theorem pieceValue_at (h : strchr q equalsSign = some eq) :
    pieceValue key q = if sameName (q.take eq) key then some (q.drop (eq + 1)) else none := by
  obtain ⟨-, -, hq⟩ := strchr_eq_some h
  have hmem : equalsSign ∈ q := by
    rw [hq]
    exact List.mem_append_right _ List.mem_cons_self
  rw [pieceValue, strchr_takeWhile h, strchr_dropWhile h]
  simp only [hmem, true_and]

theorem queryValue_eq (key q : List UInt8) :
    queryValue key q = (pieceValue key (q.take ((strchr q ampersand).getD q.length))).or
      (if q.length ≤ (strchr q ampersand).getD q.length then none
        else queryValue key (q.drop ((strchr q ampersand).getD q.length + 1))) := by
  cases hamp : strchr q ampersand with
  | none =>
      rw [Option.getD_none, if_pos (Nat.le_refl _), List.take_length, Option.or_none, queryValue,
        List.splitOn_eq_singleton (strchr_eq_none.mp hamp), List.findSome?_singleton]
  | some amp =>
      obtain ⟨hlt, hfirst, hq⟩ := strchr_eq_some hamp
      rw [Option.getD_some, if_neg (Nat.not_le.mpr hlt), queryValue]
      conv_lhs => rw [hq]
      rw [List.splitOn_append_cons_self_of_not_mem hfirst, List.findSome?_cons]
      cases pieceValue key (q.take amp) with
      | none => rfl
      | some val => rfl

theorem name_compared (hnul : 0 ∉ q) (h : strchr q equalsSign = some eq) :
    (eq = key.length ∧ avStrncasecmp q key key.length = 0) ↔ sameName (q.take eq) key := by
  obtain ⟨hlt, -, -⟩ := strchr_eq_some h
  constructor
  · rintro ⟨rfl, hcmp⟩
    have hsame := (avStrncasecmp_eq_zero (Nat.le_of_lt hlt) (Nat.le_refl _) hnul).mp hcmp
    rwa [List.take_length] at hsame
  · intro hsame
    have hlength := congrArg List.length hsame
    rw [List.length_map, List.length_map, List.length_take, Nat.min_eq_left (Nat.le_of_lt hlt)] at hlength
    subst hlength
    refine ⟨rfl, (avStrncasecmp_eq_zero (Nat.le_of_lt hlt) (Nat.le_refl _) hnul).mpr ?_⟩
    rw [List.take_length]
    exact hsame

variable {amp : Nat}

theorem vlen_of_le (h : eq + 1 ≤ amp) (hamp : amp < 2 ^ 64) :
    ParamCopy.vlen { q, eq, amp } = amp - (eq + 1) := by
  unfold ParamCopy.vlen ParamCopy.span
  dsimp only
  omega

theorem vlen_of_lt (h : amp < eq) (heq : eq < 2 ^ 63) :
    2 ^ 63 ≤ (ParamCopy.vlen { q, eq, amp } + 1) % 2 ^ 64 := by
  unfold ParamCopy.vlen ParamCopy.span
  dsimp only
  omega

theorem amp_beside (h : strchr q equalsSign = some eq) (hamp : (strchr q ampersand).getD q.length = amp) :
    amp ≤ q.length ∧ (eq < amp ∨ amp < eq ∧ ampersand ∈ q.take eq) := by
  obtain ⟨hlt, -, hq⟩ := strchr_eq_some h
  cases hchr : strchr q ampersand with
  | none =>
      rw [hchr, Option.getD_none] at hamp
      exact ⟨Nat.le_of_eq hamp.symm, Or.inl (hamp ▸ hlt)⟩
  | some i =>
      rw [hchr, Option.getD_some] at hamp
      subst hamp
      obtain ⟨hin, hfirst, hq'⟩ := strchr_eq_some hchr
      refine ⟨Nat.le_of_lt hin, ?_⟩
      obtain hlt' | rfl | hgt := Nat.lt_trichotomy eq i
      · exact Or.inl hlt'
      · have hsame := (List.append_inj (hq.symm.trans hq') rfl).2
        exact absurd (List.cons.inj hsame).1 (by decide)
      · refine Or.inr ⟨hgt, ?_⟩
        have hmem : q[i] ∈ q.take eq := List.mem_take_iff_getElem.mpr ⟨i, by omega, rfl⟩
        rw [strchr, List.findIdx?_eq_some_iff_getElem] at hchr
        obtain ⟨_, hc, -⟩ := hchr
        rwa [eq_of_beq hc] at hmem

theorem pieceValue_first {amp : Nat} (h : strchr q equalsSign = some eq) (hlt : eq < amp) (hamp : amp < 2 ^ 64) :
    pieceValue key (q.take amp) =
      if sameName (q.take eq) key then some (ParamCopy.val { q, eq, amp }) else none := by
  rw [pieceValue_at (by rw [strchr_take h, if_pos hlt] : strchr (q.take amp) equalsSign = some eq),
    List.take_take, Nat.min_eq_left (Nat.le_of_lt hlt), List.drop_take, ParamCopy.val, vlen_of_le hlt hamp]

theorem pieceValue_crossed (h : strchr q equalsSign = some eq) (hlt : amp < eq) :
    pieceValue key (q.take amp) = none := by
  have hchr := strchr_take h (n := amp)
  rw [if_neg (Nat.not_lt.mpr (Nat.le_of_lt hlt)), strchr_eq_none] at hchr
  exact if_neg fun hnamed => hchr hnamed.1

theorem cdnParamCopy_finds (hnul : 0 ∉ q) (hfits : q.length < 2 ^ 63) :
    (cdnParamCopy mem key q).map ParamCopy.val =
        (queryValue key q).filter (fun val => mem.avMalloc (val.length + 1)) ∧
      ∀ copy, cdnParamCopy mem key q = some copy → 0 ≤ copy.span := by
  induction hn : q.length using Nat.strongRecOn generalizing q with
  | ind n ih =>
      subst hn
      rw [cdnParamCopy]
      by_cases hempty : q = []
      · subst hempty
        rw [if_pos rfl]
        exact ⟨rfl, nofun⟩
      rw [if_neg hempty]
      cases heq : strchr q equalsSign with
      | none =>
          rw [queryValue_unnamed (strchr_eq_none.mp heq)]
          exact ⟨rfl, nofun⟩
      | some eq =>
          generalize hamp : (strchr q ampersand).getD q.length = amp
          obtain ⟨hle, hbeside⟩ := amp_beside heq hamp
          have hlt := (strchr_eq_some heq).1
          have hrest := ih (q.drop (amp + 1)).length (by
            rw [List.length_drop]
            omega) (fun hmem => hnul (List.mem_of_mem_drop hmem)) (by
            rw [List.length_drop]
            omega) rfl
          dsimp only
          simp only [name_compared hnul heq]
          by_cases hname : sameName (q.take eq) key
          · rw [if_pos hname]
            rcases hbeside with hbefore | ⟨hcrossed, hmem⟩
            · -- the value ends with its piece
              have hval := @pieceValue_first key _ _ _ heq hbefore (by omega)
              rw [if_pos hname] at hval
              have hlength : (ParamCopy.val { q, eq, amp }).length = amp - (eq + 1) := by
                rw [ParamCopy.val, vlen_of_le hbefore (by omega), List.length_take, List.length_drop,
                  Nat.min_eq_left (Nat.sub_le_sub_right hle (eq + 1))]
              rw [queryValue_eq, hamp, hval, Option.some_or, Option.filter_some, hlength,
                vlen_of_le hbefore (by omega), Nat.mod_eq_of_lt (by omega : amp - (eq + 1) + 1 < 2 ^ 64)]
              split
              · refine ⟨rfl, fun copy hcopy => ?_⟩
                obtain rfl := Option.some.inj hcopy
                exact Int.sub_nonneg.mpr (by exact_mod_cast hbefore)
              · exact ⟨rfl, nofun⟩
            · -- the key has an ampersand, and the span is no size of a block
              have hkey : ampersand ∈ key := by
                have hlower := (mem_map_avTolower (by decide : ampersand < 65)).mpr hmem
                rw [hname] at hlower
                exact (mem_map_avTolower (by decide)).mp hlower
              rw [mem.avMalloc_huge (vlen_of_lt hcrossed (by omega)), queryValue_eq_none hkey]
              exact ⟨rfl, nofun⟩
          · rw [if_neg hname, queryValue_eq, hamp]
            have hnone : pieceValue key (q.take amp) = none := by
              rcases hbeside with hbefore | ⟨hcrossed, -⟩
              · rw [pieceValue_first heq hbefore (by omega), if_neg hname]
              · exact pieceValue_crossed heq hcrossed
            rw [hnone, Option.none_or]
            split
            · exact ⟨rfl, nofun⟩
            · exact hrest

end Pieces

theorem queryOf_eq (url : List UInt8) :
    queryOf url = (strchr url questionMark).map fun q => url.drop (q + 1) := by
  unfold queryOf
  cases hchr : strchr url questionMark with
  | none => exact if_neg (strchr_eq_none.mp hchr)
  | some i =>
      obtain ⟨-, -, hurl⟩ := strchr_eq_some hchr
      rw [if_pos (by rw [hurl]; exact List.mem_append_right _ List.mem_cons_self), strchr_dropWhile hchr]
      rfl

theorem parseCdnCopy_some (mem : Allocator) (url key : CString) :
    parseCdnCopy mem (some url) (some key) = (queryOf url.bytes).bind (cdnParamCopy mem key.bytes) := by
  rw [queryOf_eq, parseCdnCopy]
  cases strchr url.bytes questionMark with
  | none | some i => rfl

/-- A parameter is found by the name it has in the query, whatever stands around it,
and no copy is of a negative length. -/
theorem parse_cdn_params_finds (mem : Allocator) (url key : CString) :
    parseCdnParams mem (some url) (some key) =
        (urlParameter url.bytes key.bytes).filter (fun val => mem.avMalloc (val.length + 1)) ∧
      ∀ copy, parseCdnCopy mem (some url) (some key) = some copy → 0 ≤ copy.span := by
  rw [parseCdnParams, parseCdnCopy_some, urlParameter, queryOf_eq]
  cases strchr url.bytes questionMark with
  | none => exact ⟨rfl, nofun⟩
  | some i =>
      have hfits := url.fits
      refine cdnParamCopy_finds (fun hmem => url.noNul (List.mem_of_mem_drop hmem)) ?_
      rw [List.length_drop]
      omega

end P2PFFmpeg.Demux
