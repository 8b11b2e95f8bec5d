import Mathlib.Data.List.Basic
import Mathlib.Algebra.GroupWithZero.Nat

namespace P2PFFmpeg.Payload

inductive Group
  | single (u : List UInt8)
  | aggregate (us : List (List UInt8))
  | fragments (u : List UInt8)

def Group.units : Group → List (List UInt8)
  | .single u => [u]
  | .aggregate us => us
  | .fragments u => [u]

def waiting (header : Nat) (held : List (List UInt8)) : Nat :=
  if held = [] then 0 else header + (held.map fun u => 2 + u.length).sum

def flushed : List (List UInt8) → List Group
  | [] => []
  | [u] => [.single u]
  | us => [.aggregate us]

def makeRoom (max header : Nat) (held : List (List UInt8)) (u : List UInt8) :
    List Group × List (List UInt8) :=
  if max < waiting header held + 2 + u.length then (flushed held, []) else ([], held)

def place (max header : Nat) (held : List (List UInt8)) (u : List UInt8) :
    List Group × List (List UInt8) :=
  if max < u.length then (flushed held ++ [.fragments u], [])
  else
    let (gs, held) := makeRoom max header held u
    if waiting header held + 2 + header + u.length ≤ max then (gs, held ++ [u])
    else (gs ++ flushed held ++ [.single u], [])

def plan (max header : Nat) (held : List (List UInt8)) : List (List UInt8) → List Group
  | [] => flushed held
  | u :: units => (place max header held u).1 ++ plan max header (place max header held u).2 units

variable {max header : Nat} {held : List (List UInt8)}

theorem flushed_units (held : List (List UInt8)) : (flushed held).flatMap Group.units = held := by
  match held with
  | [] => rfl
  | [u] => rfl
  | u :: v :: us => simp [flushed, Group.units]

theorem makeRoom_units (u : List UInt8) :
    (makeRoom max header held u).1.flatMap Group.units ++ (makeRoom max header held u).2 = held := by
  unfold makeRoom
  split
  · rw [flushed_units, List.append_nil]
  · rfl

theorem place_units (u : List UInt8) :
    (place max header held u).1.flatMap Group.units ++ (place max header held u).2 =
      held ++ [u] := by
  have hroom := @makeRoom_units max header held u
  unfold place
  split
  · rw [List.flatMap_append, flushed_units, List.append_nil]
    rfl
  · dsimp only
    split
    · rw [← List.append_assoc, hroom]
    · rw [List.flatMap_append, List.flatMap_append, flushed_units, hroom, List.append_nil]
      rfl

theorem plan_units (held units : List (List UInt8)) :
    (plan max header held units).flatMap Group.units = held ++ units := by
  induction units generalizing held with
  | nil => rw [plan, flushed_units, List.append_nil]
  | cons u units ih =>
      rw [plan, List.flatMap_append, ih, ← List.append_assoc, place_units, List.append_assoc]
      rfl

theorem fragments_mem_plan {u : List UInt8} (units : List (List UInt8)) :
    .fragments u ∈ plan max header held units ↔ u ∈ units ∧ max < u.length := by
  have hflushed : ∀ held, .fragments u ∉ flushed held := by
    intro held
    match held with
    | [] | [_] | _ :: _ :: _ => simp [flushed]
  have hplace : ∀ held v, .fragments u ∈ (place max header held v).1 ↔ u = v ∧ max < v.length := by
    intro held v
    have hroom : .fragments u ∉ (makeRoom max header held v).1 := by
      unfold makeRoom
      split
      · exact hflushed held
      · simp
    unfold place
    by_cases hv : max < v.length
    · simp [hv, hflushed]
    · dsimp only
      split
      · exact absurd ‹_› hv
      · split <;> simp [hv, hflushed, hroom]
  induction units generalizing held with
  | nil => simp [plan, hflushed]
  | cons v units ih =>
      simp only [plan, List.mem_append, ih, hplace, List.mem_cons]
      constructor
      · rintro (⟨rfl, hlen⟩ | ⟨hu, hlen⟩)
        · exact ⟨Or.inl rfl, hlen⟩
        · exact ⟨Or.inr hu, hlen⟩
      · rintro ⟨rfl | hu, hlen⟩
        · exact Or.inl ⟨rfl, hlen⟩
        · exact Or.inr ⟨hu, hlen⟩

section Alone

def fill (max header b n : Nat) : Nat :=
  if max < n then 0
  else
    let b := if max < b + 2 + n then 0 else b
    if b + 2 + header + n ≤ max then (if b = 0 then header else b) + 2 + n else 0

def filled (max header b : Nat) (sizes : List Nat) : Nat := sizes.foldl (fill max header) b

/-- A unit of n bytes gets a payload of its own: it has no room behind the bytes
that wait, and the next unit has none behind it. -/
def Alone (max header b n : Nat) (next : Option Nat) : Prop :=
  n ≤ max ∧ ¬(b ≠ 0 ∧ b + 2 + header + n ≤ max) ∧
    ¬((b = 0 ∨ max < b + 2 + n) ∧ ∃ m, next = some m ∧ header + 2 + n + 2 + header + m ≤ max)

theorem waiting_eq_zero (hheader : 0 < header) : waiting header held = 0 ↔ held = [] := by
  unfold waiting
  split
  · next h => simp [h]
  · next h =>
      simp only [h, iff_false]
      omega

theorem waiting_append (u : List UInt8) : waiting header (held ++ [u]) =
      (if held = [] then header else waiting header held) + 2 + u.length := by
  by_cases h : held = []
  · subst h
    simp [waiting, Nat.add_assoc]
  · simp [waiting, h, Nat.add_assoc]

theorem waiting_place (hheader : 0 < header) (u : List UInt8) :
    waiting header (place max header held u).2 = fill max header (waiting header held) u.length := by
  have hzero : waiting header [] = 0 := by simp [waiting]
  unfold place fill
  by_cases hu : max < u.length
  · rw [if_pos hu, if_pos hu]
    exact hzero
  · rw [if_neg hu, if_neg hu]
    have hroom : waiting header (makeRoom max header held u).2 =
        if max < waiting header held + 2 + u.length then 0 else waiting header held := by
      unfold makeRoom
      split <;> simp [hzero]
    dsimp only
    rw [hroom]
    generalize hb : (if max < waiting header held + 2 + u.length then 0 else waiting header held) = b
      at hroom
    split
    · rw [waiting_append, hroom, ← hroom]
      simp only [waiting_eq_zero hheader]
    · exact hzero

theorem single_mem_flushed {v : List UInt8} : .single v ∈ flushed held ↔ held = [v] := by
  match held with
  | [] => simp [flushed]
  | [u] => simp [flushed, eq_comm]
  | u :: w :: us => simp [flushed]

def WaitsAlone (max header : Nat) (held : List (List UInt8)) (n : Nat) (next : Option Nat) : Prop :=
  ∃ v, held = [v] ∧ v.length = n ∧
    ¬∃ m, next = some m ∧ waiting header held + 2 + header + m ≤ max

theorem waitsAlone_nil {n : Nat} {next : Option Nat} : ¬WaitsAlone max header [] n next := by
  rintro ⟨v, hv, _⟩
  cases hv

theorem waitsAlone_of_full {u : List UInt8} {n : Nat}
    (h : max < waiting header held + 2 + header + u.length) :
    WaitsAlone max header held n (some u.length) ↔ ∃ v, .single v ∈ flushed held ∧ v.length = n := by
  constructor
  · rintro ⟨v, hv, hn, _⟩
    exact ⟨v, single_mem_flushed.mpr hv, hn⟩
  · rintro ⟨v, hv, hn⟩
    refine ⟨v, single_mem_flushed.mp hv, hn, ?_⟩
    rintro ⟨m, hm, hroom⟩
    cases hm
    omega

theorem waitsAlone_singleton (u : List UInt8) {n : Nat} {next : Option Nat} :
    WaitsAlone max header [u] n next ↔
      u.length = n ∧ ¬∃ m, next = some m ∧ header + 2 + n + 2 + header + m ≤ max := by
  have hone : waiting header [u] = header + (2 + u.length) := by simp [waiting]
  constructor
  · rintro ⟨v, hv, hn, hnext⟩
    cases hv
    refine ⟨hn, fun ⟨m, hm, hroom⟩ => hnext ⟨m, hm, ?_⟩⟩
    omega
  · rintro ⟨hn, hnext⟩
    refine ⟨u, rfl, hn, fun ⟨m, hm, hroom⟩ => hnext ⟨m, hm, ?_⟩⟩
    omega

section Place

variable {u : List UInt8} {n : Nat} {next : Option Nat}

theorem place_fragments (hlong : max < u.length) :
    place max header held u = (flushed held ++ [.fragments u], []) := by
  rw [place, if_pos hlong]

theorem place_joins (hfits : waiting header held + 2 + header + u.length ≤ max) :
    place max header held u = ([], held ++ [u]) := by
  have hroom : makeRoom max header held u = ([], held) := by rw [makeRoom, if_neg (by omega)]
  rw [place, if_neg (by omega)]
  simp only [hroom]
  rw [if_pos hfits]

theorem place_first (hfull : max < waiting header held + 2 + u.length)
    (hfits : 2 + header + u.length ≤ max) : place max header held u = (flushed held, [u]) := by
  have hzero : waiting header [] = 0 := by simp [waiting]
  have hroom : makeRoom max header held u = (flushed held, []) := by rw [makeRoom, if_pos hfull]
  rw [place, if_neg (by omega)]
  simp only [hroom, hzero]
  rw [if_pos (by omega)]
  rfl

/-- The units that wait go first, whether they leave no room for the unit or none
for the header of a group. -/
theorem place_single (hshort : u.length ≤ max)
    (hfull : max < waiting header held + 2 + header + u.length)
    (hfits : max < waiting header held + 2 + u.length → max < 2 + header + u.length) :
    place max header held u = (flushed held ++ [.single u], []) := by
  have hzero : waiting header [] = 0 := by simp [waiting]
  rw [place, if_neg (by omega)]
  by_cases hflush : max < waiting header held + 2 + u.length
  · have hroom : makeRoom max header held u = (flushed held, []) := by rw [makeRoom, if_pos hflush]
    have hnone := hfits hflush
    simp only [hroom, hzero]
    rw [if_neg (by omega)]
    simp [flushed]
  · have hroom : makeRoom max header held u = ([], held) := by rw [makeRoom, if_neg hflush]
    simp only [hroom]
    rw [if_neg (by omega)]
    rfl

theorem fragments_alone (hlong : max < u.length) :
    ((∃ v, .single v ∈ flushed held ++ [.fragments u] ∧ v.length = n) ∨
        WaitsAlone max header [] n next) ↔
      WaitsAlone max header held n (some u.length) ∨
        (u.length = n ∧ Alone max header (waiting header held) n next) := by
  rw [waitsAlone_of_full (by omega)]
  simp only [List.mem_append, List.mem_singleton, reduceCtorEq, or_false, waitsAlone_nil]
  refine ⟨Or.inl, fun h => h.resolve_right ?_⟩
  rintro ⟨rfl, hn, _⟩
  omega

theorem first_alone (hfull : max < waiting header held + 2 + u.length)
    (hfits : 2 + header + u.length ≤ max) :
    ((∃ v, .single v ∈ flushed held ∧ v.length = n) ∨ WaitsAlone max header [u] n next) ↔
      WaitsAlone max header held n (some u.length) ∨
        (u.length = n ∧ Alone max header (waiting header held) n next) := by
  rw [waitsAlone_of_full (by omega), waitsAlone_singleton]
  refine or_congr_right (and_congr_right ?_)
  rintro rfl
  constructor
  · intro hnext
    exact ⟨by omega, by omega, fun h => hnext h.2⟩
  · rintro ⟨_, _, hnext⟩ hm
    exact hnext ⟨Or.inr hfull, hm⟩

theorem single_alone (hshort : u.length ≤ max)
    (hfull : max < waiting header held + 2 + header + u.length)
    (hfits : max < waiting header held + 2 + u.length → max < 2 + header + u.length) :
    ((∃ v, .single v ∈ flushed held ++ [.single u] ∧ v.length = n) ∨
        WaitsAlone max header [] n next) ↔
      WaitsAlone max header held n (some u.length) ∨
        (u.length = n ∧ Alone max header (waiting header held) n next) := by
  rw [waitsAlone_of_full hfull]
  simp only [List.mem_append, List.mem_singleton, waitsAlone_nil, or_false, or_and_right, exists_or]
  refine or_congr_right ?_
  constructor
  · rintro ⟨v, hv, rfl⟩
    cases hv
    refine ⟨rfl, hshort, by omega, ?_⟩
    rintro ⟨_, m, _, hm⟩
    omega
  · rintro ⟨hn, _⟩
    exact ⟨u, rfl, hn⟩

theorem joins_alone (hheader : 0 < header) (hfits : waiting header held + 2 + header + u.length ≤ max) :
    ((∃ v, .single v ∈ ([] : List Group) ∧ v.length = n) ∨
        WaitsAlone max header (held ++ [u]) n next) ↔
      WaitsAlone max header held n (some u.length) ∨
        (u.length = n ∧ Alone max header (waiting header held) n next) := by
  have hjoined : ¬WaitsAlone max header held n (some u.length) := by
    rintro ⟨v, _, _, hnext⟩
    exact hnext ⟨u.length, rfl, hfits⟩
  by_cases hheld : held = []
  · subst hheld
    have hzero : waiting header [] = 0 := by simp [waiting]
    rw [List.nil_append, waitsAlone_singleton]
    simp only [List.not_mem_nil, false_and, exists_false, false_or, hjoined]
    refine and_congr_right ?_
    rintro rfl
    constructor
    · intro hnext
      exact ⟨by omega, fun h => h.1 hzero, fun h => hnext h.2⟩
    · rintro ⟨_, _, hnext⟩ hm
      exact hnext ⟨Or.inl hzero, hm⟩
  · have hwaits : ¬WaitsAlone max header (held ++ [u]) n next := by
      rintro ⟨v, hv, _⟩
      have hlen := congrArg List.length hv
      have hpos := List.length_pos_iff.mpr hheld
      simp only [List.length_append, List.length_singleton] at hlen
      omega
    have hne : waiting header held ≠ 0 := fun h => hheld ((waiting_eq_zero hheader).mp h)
    simp only [List.not_mem_nil, false_and, exists_false, hwaits, hjoined, or_self, false_or,
      false_iff]
    rintro ⟨rfl, _, hnot, _⟩
    exact hnot ⟨hne, hfits⟩

/-- The cases are those of the packetizer: too long, with room behind the units that
wait, with room once they are gone, or with none. -/
theorem place_alone (hheader : 0 < header) (u : List UInt8) (n : Nat) (next : Option Nat) :
    ((∃ v, .single v ∈ (place max header held u).1 ∧ v.length = n) ∨
        WaitsAlone max header (place max header held u).2 n next) ↔
      WaitsAlone max header held n (some u.length) ∨
        (u.length = n ∧ Alone max header (waiting header held) n next) := by
  by_cases hlong : max < u.length
  · rw [place_fragments hlong]
    exact fragments_alone hlong
  · by_cases hjoins : waiting header held + 2 + header + u.length ≤ max
    · rw [place_joins hjoins]
      exact joins_alone hheader hjoins
    · by_cases hfirst : max < waiting header held + 2 + u.length ∧ 2 + header + u.length ≤ max
      · rw [place_first hfirst.1 hfirst.2]
        exact first_alone hfirst.1 hfirst.2
      · have hnone : max < waiting header held + 2 + u.length → max < 2 + header + u.length := by
          omega
        rw [place_single (by omega) (by omega) hnone]
        exact single_alone (by omega) (by omega) hnone

end Place

/-- A unit of n bytes is sent by itself exactly if it is alone among its neighbours.
The induction is on the units; what waits is carried along. -/
theorem single_mem_plan (hheader : 0 < header) (n : Nat) (units : List (List UInt8)) :
    (∃ v, .single v ∈ plan max header held units ∧ v.length = n) ↔
      WaitsAlone max header held n (units.head?.map List.length) ∨
      ∃ before v after, units = before ++ v :: after ∧ v.length = n ∧
        Alone max header (filled max header (waiting header held) (before.map List.length)) n
          (after.head?.map List.length) := by
  induction units generalizing held with
  | nil =>
      simp only [plan, single_mem_flushed]
      constructor
      · rintro ⟨v, hv, hn⟩
        exact Or.inl ⟨v, hv, hn, by simp⟩
      · rintro (⟨v, hv, hn, _⟩ | ⟨before, v, after, h, _⟩)
        · exact ⟨v, hv, hn⟩
        · simp at h
  | cons u units ih =>
      simp only [plan, List.mem_append, or_and_right, exists_or]
      rw [ih, ← or_assoc, place_alone hheader, or_assoc]
      refine or_congr_right ?_
      constructor
      · rintro (⟨hn, halone⟩ | ⟨before, v, after, rfl, hn, halone⟩)
        · exact ⟨[], u, units, rfl, hn, halone⟩
        · refine ⟨u :: before, v, after, rfl, hn, ?_⟩
          rw [waiting_place hheader] at halone
          exact halone
      · rintro ⟨before, v, after, hunits, hn, halone⟩
        cases before with
        | nil =>
            cases hunits
            exact Or.inl ⟨hn, halone⟩
        | cons w before =>
            cases hunits
            refine Or.inr ⟨before, v, after, rfl, hn, ?_⟩
            rw [waiting_place hheader]
            exact halone

def SentAlone (max header n : Nat) (units : List (List UInt8)) : Prop :=
  ∃ before v after, units = before ++ v :: after ∧ v.length = n ∧
    Alone max header (filled max header 0 (before.map List.length)) n (after.head?.map List.length)

theorem sentAlone_iff (hheader : 0 < header) (n : Nat) (units : List (List UInt8)) :
    SentAlone max header n units ↔ ∃ v, .single v ∈ plan max header [] units ∧ v.length = n := by
  rw [single_mem_plan hheader]
  simp only [waitsAlone_nil, false_or]
  rfl

end Alone

end P2PFFmpeg.Payload
