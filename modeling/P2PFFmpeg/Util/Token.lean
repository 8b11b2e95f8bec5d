import Mathlib.Data.List.DropRight

namespace P2PFFmpeg.Util

/-! Strings are the bytes before their NUL. -/

def backslash : UInt8 := 92

def quote : UInt8 := 39

def whitespaces : List UInt8 := [32, 10, 9, 13]

inductive EscapeMode where
  | auto
  | backslash
  | quote
  | xml
deriving DecidableEq

structure EscapeFlags where
  whitespace : Bool
  strict : Bool
  xmlSingleQuotes : Bool
  xmlDoubleQuotes : Bool

def isEscaped (special : List UInt8) (flags : EscapeFlags) (isFirstLast : Bool) (c : UInt8) : Bool :=
  let isWs := whitespaces.contains c
  let isStrictlySpecial := special.contains c
  let isSpecial := isStrictlySpecial || c == quote || c == backslash || isWs && flags.whitespace
  isStrictlySpecial || !flags.strict && (isSpecial || isWs && isFirstLast)

/-- The loop of backslash escaping; `isFirst` tells that src is src0. -/
def escapeBackslash (special : List UInt8) (flags : EscapeFlags) : Bool → List UInt8 → List UInt8
  | _, [] => []
  | isFirst, c :: src =>
      (if isEscaped special flags (isFirst || src.isEmpty) c then [backslash, c] else [c]) ++
        escapeBackslash special flags false src

def escapeXml (flags : EscapeFlags) (c : UInt8) : List UInt8 :=
  if c = 38 then [38, 97, 109, 112, 59]
  else if c = 60 then [38, 108, 116, 59]
  else if c = 62 then [38, 103, 116, 59]
  else if c = 39 ∧ flags.xmlSingleQuotes then [38, 97, 112, 111, 115, 59]
  else if c = 34 ∧ flags.xmlDoubleQuotes then [38, 113, 117, 111, 116, 59]
  else [c]

/-- What av_bprint_escape appends to the buffer. -/
def avBprintEscape (src special : List UInt8) (mode : EscapeMode) (flags : EscapeFlags) : List UInt8 :=
  match mode with
  | .quote =>
      [quote] ++ src.flatMap (fun c => if c = quote then [quote, backslash, quote, quote] else [c]) ++
        [quote]
  | .xml => src.flatMap (escapeXml flags)
  | .auto | .backslash => escapeBackslash special flags true src

structure Token where
  out : List UInt8
  kept : Nat
deriving DecidableEq

def Token.push (t : Token) (c : UInt8) : Token := { t with out := t.out ++ [c] }

def Token.keep (t : Token) : Token := { t with kept := t.out.length }

def tokenLoop (term : List UInt8) : Bool → List UInt8 → Token → Token × List UInt8
  | _, [], t => (t, [])
  | true, c :: p, t =>
      if c = quote then tokenLoop term false p t.keep else tokenLoop term true p (t.push c)
  | false, c :: p, t =>
      if term.contains c then (t, c :: p)
      else if c = backslash then
        match p with
        | [] => (t.push c, [])
        | d :: p' => tokenLoop term false p' (t.push d).keep
      else if c = quote then tokenLoop term true p t
      else tokenLoop term false p (t.push c)

def Token.trim (t : Token) : List UInt8 :=
  t.out.take t.kept ++ (t.out.drop t.kept).rdropWhile whitespaces.contains

/-- The token and the rest of the string. -/
def avGetToken (buf term : List UInt8) : List UInt8 × List UInt8 :=
  let read := tokenLoop term false (buf.dropWhile whitespaces.contains) ⟨[], 0⟩
  (read.1.trim, read.2)

section RoundTrip

variable {special term : List UInt8} {flags : EscapeFlags}

variable {c : UInt8}

theorem tokenLoop_stops (hc : c ∈ term) (p : List UInt8) (t : Token) :
    tokenLoop term false (c :: p) t = (t, c :: p) := by
  cases p <;> simp [tokenLoop, hc]

theorem tokenLoop_escaped (hback : backslash ∉ term) (d : UInt8) (p : List UInt8) (t : Token) :
    tokenLoop term false (backslash :: d :: p) t = tokenLoop term false p (t.push d).keep := by
  simp [tokenLoop, hback]

theorem tokenLoop_plain (hc : c ∉ term) (hslash : c ≠ backslash) (hquote : c ≠ quote) (p : List UInt8)
    (t : Token) : tokenLoop term false (c :: p) t = tokenLoop term false p (t.push c) := by
  cases p <;> simp [tokenLoop, hc, hslash, hquote]

theorem Token.trim_keep (t : Token) : t.keep.trim = t.out := by
  simp [trim, keep]

theorem Token.trim_push {t : Token} (h : t.kept ≤ t.out.length) (hc : c ∉ whitespaces) :
    (t.push c).trim = (t.push c).out := by
  simp only [trim, push]
  rw [List.drop_append_of_le_length h, List.rdropWhile_concat_neg _ _ _ (by simpa using hc),
    ← List.drop_append_of_le_length h, List.take_append_drop]

theorem plain_of_not_escaped (hstrict : flags.strict = false) {isFirstLast : Bool}
    (h : isEscaped special flags isFirstLast c = false) :
    c ∉ special ∧ c ≠ quote ∧ c ≠ backslash ∧ (isFirstLast = true → c ∉ whitespaces) := by
  simp only [isEscaped, hstrict, Bool.not_false, Bool.true_and, Bool.or_eq_false_iff,
    Bool.and_eq_false_iff, List.contains_eq_mem, decide_eq_false_iff_not, beq_eq_false_iff_ne] at h
  obtain ⟨hspecial, ⟨⟨⟨_, hquote⟩, hback⟩, _⟩, hws⟩ := h
  refine ⟨hspecial, hquote, hback, ?_⟩
  intro hlast
  exact hws.resolve_right (by simp [hlast])

theorem tokenLoop_escape (hterm : ∀ c ∈ term, c ∈ special) (hback : backslash ∉ term)
    (hstrict : flags.strict = false) (s rest : List UInt8) (isFirst : Bool) (t : Token)
    (hkept : t.kept ≤ t.out.length) :
    ∃ t', tokenLoop term false (escapeBackslash special flags isFirst s ++ rest) t =
        tokenLoop term false rest t' ∧ t'.out = t.out ++ s ∧
      (s ≠ [] ∨ t.trim = t.out → t'.trim = t'.out) := by
  induction s generalizing isFirst t with
  | nil =>
      refine ⟨t, rfl, (List.append_nil _).symm, ?_⟩
      rintro (hne | htrim)
      · exact absurd rfl hne
      · exact htrim
  | cons c s ih =>
      rw [escapeBackslash]
      by_cases hescaped : isEscaped special flags (isFirst || s.isEmpty) c = true
      · -- the backslash is read, and the character behind it is kept
        obtain ⟨t', hread, hout, htrim⟩ := ih false (t.push c).keep (Nat.le_refl _)
        refine ⟨t', ?_, ?_, fun _ => htrim (.inr (Token.trim_keep _))⟩
        · rw [if_pos hescaped, ← hread]
          exact tokenLoop_escaped hback c _ t
        · simp [hout, Token.push, Token.keep]
      · rw [Bool.not_eq_true] at hescaped
        obtain ⟨hspecial, hquote, hslash, hws⟩ := plain_of_not_escaped hstrict hescaped
        have hin : c ∉ term := fun hc => hspecial (hterm c hc)
        have hkept' : (t.push c).kept ≤ (t.push c).out.length := by
          simp only [Token.push, List.length_append, List.length_singleton]
          omega
        obtain ⟨t', hread, hout, htrim⟩ := ih false (t.push c) hkept'
        refine ⟨t', ?_, ?_, fun _ => htrim ?_⟩
        · rw [if_neg (by rw [hescaped]; exact Bool.false_ne_true), ← hread]
          exact tokenLoop_plain hin hslash hquote _ t
        · simp [hout, Token.push]
        · by_cases hs : s = []
          · refine .inr (Token.trim_push hkept (hws ?_))
            rw [hs, List.isEmpty_nil, Bool.or_true]
          · exact .inl hs

theorem dropWhile_escape (hstrict : flags.strict = false) {s : List UInt8} (hs : s ≠ []) (rest : List UInt8) :
    (escapeBackslash special flags true s ++ rest).dropWhile whitespaces.contains =
      escapeBackslash special flags true s ++ rest := by
  cases s with
  | nil => exact absurd rfl hs
  | cons c s =>
      rw [escapeBackslash, Bool.true_or]
      cases hescaped : isEscaped special flags true c with
      | true => rfl
      | false =>
          have hws := (plain_of_not_escaped hstrict hescaped).2.2.2 rfl
          simp only [Bool.false_eq_true, if_false, List.cons_append]
          rw [List.dropWhile_cons_of_neg (by simpa using hws)]

def EndsToken (term rest : List UInt8) : Prop := ∀ c ∈ rest.head?, c ∈ term

theorem tokenLoop_ends {rest : List UInt8} (h : EndsToken term rest) (t : Token) :
    tokenLoop term false rest t = (t, rest) := by
  cases rest with
  | nil => rfl
  | cons c rest => exact tokenLoop_stops (h c rfl) rest t

theorem avGetToken_escape (hterm : ∀ c ∈ term, c ∈ special) (hback : backslash ∉ term)
    (hstrict : flags.strict = false) {s rest : List UInt8} (hs : s ≠ []) (hrest : EndsToken term rest) :
    avGetToken (escapeBackslash special flags true s ++ rest) term = (s, rest) := by
  obtain ⟨t, hread, hout, htrim⟩ := tokenLoop_escape hterm hback hstrict s rest true ⟨[], 0⟩ (Nat.le_refl _)
  rw [avGetToken, dropWhile_escape hstrict hs, hread, tokenLoop_ends hrest]
  simp only
  rw [htrim (.inl hs), hout, List.nil_append]

theorem avGetToken_nothing {rest : List UInt8} (hrest : EndsToken term rest)
    (hws : ∀ c ∈ term, c ∉ whitespaces) : avGetToken rest term = ([], rest) := by
  have hdrop : rest.dropWhile whitespaces.contains = rest := by
    cases rest with
    | nil => rfl
    | cons c rest => exact List.dropWhile_cons_of_neg (by simpa using hws c (hrest c rfl))
  rw [avGetToken, hdrop, tokenLoop_ends hrest]
  rfl

theorem tokenLoop_length (quoted : Bool) (p : List UInt8) (t : Token) :
    (tokenLoop term quoted p t).2.length ≤ p.length := by
  fun_induction tokenLoop term quoted p t with
  | case1 => exact Nat.le_refl _
  | case2 p t ih => exact Nat.le_succ_of_le ih
  | case3 c p t _ ih => exact Nat.le_succ_of_le ih
  | case4 => exact Nat.le_refl _
  | case5 => exact Nat.zero_le _
  | case6 t d p _ ih => exact Nat.le_succ_of_le (Nat.le_succ_of_le ih)
  | case7 p t _ _ ih => exact Nat.le_succ_of_le ih
  | case8 c p t _ _ _ ih => exact Nat.le_succ_of_le ih

theorem avGetToken_length (buf : List UInt8) : (avGetToken buf term).2.length ≤ buf.length :=
  Nat.le_trans (tokenLoop_length _ _ _) (List.dropWhile_suffix _).length_le

end RoundTrip

end P2PFFmpeg.Util
