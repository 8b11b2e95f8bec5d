import P2PFFmpeg.Seek.Index

namespace P2PFFmpeg.Seek

open Util Library.Bisection Library.Transition

def Usable (flags : UInt32) (e : AVIndexEntry) : Prop :=
  flags &&& avseekFlagAny ≠ 0 ∨ e.flags &&& avindexKeyframe ≠ 0

def Asked (wanted : Int) (flags : UInt32) (e : AVIndexEntry) : Prop :=
  Usable flags e ∧
    if flags &&& avseekFlagBackward ≠ 0 then e.timestamp ≤ wanted else wanted ≤ e.timestamp

/-- The last of the entries asked for, or the first one, or -1. -/
inductive Finds (entries : List AVIndexEntry) (wanted : Int) (flags : UInt32) : Int → Prop
  | nothing : (∀ e ∈ entries, ¬Asked wanted flags e) → Finds entries wanted flags (-1)
  | entry {i : Nat} {e : AVIndexEntry} : entries[i]? = some e → Asked wanted flags e →
      (∀ (j : Nat) f, entries[j]? = some f → Asked wanted flags f →
        if flags &&& avseekFlagBackward ≠ 0 then j ≤ i else i ≤ j) →
      Finds entries wanted flags i

section Search

variable {entries : List AVIndexEntry} {wanted : Int}

def keys (entries : List AVIndexEntry) : List Int := entries.map AVIndexEntry.timestamp

@[simp] theorem length_keys (entries : List AVIndexEntry) : (keys entries).length = entries.length :=
  List.length_map _

theorem getElem?_keys {i : Nat} {e : AVIndexEntry} (h : entries[i]? = some e) :
    (keys entries)[i]? = some e.timestamp := by
  rw [keys, List.getElem?_map, h, Option.map_some]

theorem entryAt_natCast (entries : List AVIndexEntry) (i : Nat) : entryAt entries i = entries[i]? := by
  rw [entryAt, if_pos (by omega), Int.toNat_natCast]

theorem entryAt_inside {m : Int} (hm : 0 ≤ m) (hlen : m < entries.length) :
    ∃ (i : Nat) (e : AVIndexEntry), m = i ∧ entries[i]? = some e ∧ entryAt entries m = some e := by
  obtain ⟨i, rfl⟩ := Int.eq_ofNat_of_zero_le hm
  have hi : i < entries.length := by omega
  have hget := List.getElem?_eq_getElem hi
  exact ⟨i, entries[i], rfl, hget, by rw [entryAt_natCast, hget]⟩

theorem skipDiscarded_inside {b : Int} {rounds : Nat} {m : Int}
    (hb : b ≤ entries.length) (habove : ∀ e, entryAt entries b = some e → wanted ≤ e.timestamp)
    (hm : 0 ≤ m) (hmb : m < b) (hrounds : b - m ≤ rounds) :
    ∃ r, skipDiscarded entries wanted b rounds m = some r ∧ m ≤ r ∧ r < b := by
  induction rounds generalizing m with
  | zero => omega
  | succ rounds ih =>
      obtain ⟨_, e, _, _, he⟩ := @entryAt_inside entries m hm (by omega)
      rw [skipDiscarded, he, Option.bind_eq_bind, Option.bind_some]
      by_cases hskip : e.flags &&& avindexDiscardFrame ≠ 0 ∧ m < b ∧ m < entries.length - 1
      · rw [if_pos hskip]
        by_cases hbound : m + 1 = b
        · obtain ⟨_, next, _, _, hnext⟩ := @entryAt_inside entries (m + 1) (by omega) (by omega)
          have hwanted : next.timestamp ≥ wanted := habove next (hbound ▸ hnext)
          rw [if_pos hbound, hnext, Option.bind_some, if_pos hwanted]
          exact ⟨b - 1, rfl, by omega, by omega⟩
        · rw [if_neg hbound]
          obtain ⟨r, hr, hle, hlt⟩ := ih (m := m + 1) (by omega) (by omega) (by omega)
          exact ⟨r, hr, by omega, hlt⟩
      · rw [if_neg hskip]
        exact ⟨m, rfl, Int.le_refl m, hmb⟩

theorem bisect_bracket (hs : (keys entries).Pairwise (· < ·)) {rounds : Nat} {a b : Int}
    (h : Bracket (keys entries) wanted a b) (hrounds : b - a < rounds) :
    ∃ a' b', bisect entries wanted rounds (a, b) = some (a', b') ∧
      Bracket (keys entries) wanted a' b' ∧ b' ≤ a' + 1 := by
  induction rounds generalizing a b with
  | zero =>
      have horder := h.order
      omega
  | succ rounds ih =>
      rw [bisect]
      by_cases hapart : b - a > 1
      · have hleft := h.left
        have hright := h.right
        rw [length_keys] at hright
        have habove : ∀ e, entryAt entries b = some e → wanted ≤ e.timestamp := by
          intro e he
          obtain ⟨i, rfl⟩ := Int.eq_ofNat_of_zero_le (show 0 ≤ b by omega)
          rw [entryAt_natCast] at he
          exact (h.above i _ (getElem?_keys he) (Int.le_refl _) (by omega)).le
        obtain ⟨m, hm, hlow, hhigh⟩ := @skipDiscarded_inside entries wanted b
          (entries.length + 1) ((a + b) / 2) hright habove (by omega) (by omega) (by omega)
        obtain ⟨i, e, rfl, hget, he⟩ := @entryAt_inside entries m (by omega) (by omega)
        have hprobe := h.probe hs (getElem?_keys hget) (by omega) hhigh
        rw [if_pos hapart, hm, Option.bind_eq_bind, Option.bind_some, he, Option.bind_eq_bind,
          Option.bind_some]
        refine ih hprobe ?_
        split <;> split <;> omega
      · rw [if_neg hapart]
        exact ⟨a, b, rfl, h, by omega⟩

theorem searchStart_bracket (hs : (keys entries).Pairwise (· < ·)) :
    Bracket (keys entries) wanted (searchStart entries wanted) entries.length := by
  have hstart := Bracket.start (keys entries) wanted
  rw [length_keys] at hstart
  rw [searchStart]
  cases hlast : entries.getLast? with
  | none => exact hstart
  | some last =>
      simp only
      split
      · next hlt =>
          have hget : (keys entries)[(keys entries).length - 1]? = some last.timestamp := by
            rw [length_keys]
            exact getElem?_keys (by rw [← List.getLast?_eq_getElem?, hlast])
          have hbehind := Bracket.start_behind hs hget hlt
          rwa [length_keys] at hbehind
      · exact hstart

theorem seekKeyframe_forward {rounds : Nat} {m : Int} (hm : 0 ≤ m) (hlen : m ≤ entries.length)
    (hrounds : entries.length - m < rounds) :
    ∃ r, seekKeyframe entries 1 rounds m = some r ∧ m ≤ r ∧ r ≤ entries.length ∧
      (∀ (i : Nat) e, entries[i]? = some e → m ≤ i → i < r → e.flags &&& avindexKeyframe = 0) ∧
      ∀ (i : Nat) e, entries[i]? = some e → r = i → e.flags &&& avindexKeyframe ≠ 0 := by
  induction rounds generalizing m with
  | zero => omega
  | succ rounds ih =>
      rw [seekKeyframe]
      by_cases hinside : m < entries.length
      · obtain ⟨i, e, rfl, hget, he⟩ := @entryAt_inside entries m hm hinside
        rw [if_pos ⟨hm, hinside⟩, he, Option.bind_eq_bind, Option.bind_some]
        by_cases hkey : e.flags &&& avindexKeyframe = 0
        · obtain ⟨r, hr, hle, hbound, hnone, hlast⟩ := ih (m := (i : Int) + 1) (by omega) (by omega)
            (by omega)
          rw [if_pos hkey]
          refine ⟨r, hr, by omega, hbound, ?_, hlast⟩
          intro j f hf hj hjr
          obtain rfl | hmore : j = i ∨ i < j := by omega
          · obtain rfl : e = f := Option.some.inj (hget.symm.trans hf)
            exact hkey
          · exact hnone j f hf (by omega) hjr
        · rw [if_neg hkey]
          refine ⟨i, rfl, Int.le_refl _, by omega, fun j f _ _ _ => by omega, ?_⟩
          intro j f hf hj
          obtain rfl : i = j := by omega
          obtain rfl : e = f := Option.some.inj (hget.symm.trans hf)
          exact hkey
      · rw [if_neg (by omega)]
        refine ⟨m, rfl, Int.le_refl _, hlen, fun j f _ _ _ => by omega, ?_⟩
        intro j f hf hj
        have hlt := getElem?_length hf
        omega

theorem seekKeyframe_backward {rounds : Nat} {m : Int} (hm : -1 ≤ m) (hlen : m < entries.length)
    (hrounds : m + 1 < rounds) : ∃ r, seekKeyframe entries (-1) rounds m = some r ∧ -1 ≤ r ∧ r ≤ m ∧
      (∀ (i : Nat) e, entries[i]? = some e → r < i → i ≤ m → e.flags &&& avindexKeyframe = 0) ∧
      ∀ (i : Nat) e, entries[i]? = some e → r = i → e.flags &&& avindexKeyframe ≠ 0 := by
  induction rounds generalizing m with
  | zero => omega
  | succ rounds ih =>
      rw [seekKeyframe]
      by_cases hinside : 0 ≤ m
      · obtain ⟨i, e, rfl, hget, he⟩ := @entryAt_inside entries m hinside hlen
        rw [if_pos ⟨hinside, hlen⟩, he, Option.bind_eq_bind, Option.bind_some]
        by_cases hkey : e.flags &&& avindexKeyframe = 0
        · obtain ⟨r, hr, hbound, hle, hnone, hlast⟩ := ih (m := (i : Int) + -1) (by omega) (by omega)
            (by omega)
          rw [if_pos hkey]
          refine ⟨r, hr, hbound, by omega, ?_, hlast⟩
          intro j f hf hj hji
          obtain rfl | hless : j = i ∨ j < i := by omega
          · obtain rfl : e = f := Option.some.inj (hget.symm.trans hf)
            exact hkey
          · exact hnone j f hf hj (by omega)
        · rw [if_neg hkey]
          refine ⟨i, rfl, hm, Int.le_refl _, fun j f _ _ _ => by omega, ?_⟩
          intro j f hf hj
          obtain rfl : i = j := by omega
          obtain rfl : e = f := Option.some.inj (hget.symm.trans hf)
          exact hkey
      · rw [if_neg (by omega)]
        exact ⟨m, rfl, hm, Int.le_refl _, fun j f _ _ _ => by omega, fun j f _ _ => by omega⟩

theorem finds_backward {flags : UInt32} {a b r : Int} (h : Bracket (keys entries) wanted a b)
    (hclose : b ≤ a + 1) (hback : flags &&& avseekFlagBackward ≠ 0) (hr : -1 ≤ r) (hra : r ≤ a)
    (hlen : a < entries.length)
    (hnone : ∀ (i : Nat) e, entries[i]? = some e → r < i → i ≤ a → ¬Usable flags e)
    (hlast : ∀ (i : Nat) e, entries[i]? = some e → r = i → Usable flags e) :
    Finds entries wanted flags r := by
  have hasked : ∀ (i : Nat) e, entries[i]? = some e → Asked wanted flags e → (i : Int) ≤ r := by
    rintro i e he ⟨husable, hts⟩
    rw [if_pos hback] at hts
    have hbefore := (h.last hclose (getElem?_keys he)).mp hts
    by_contra hafter
    exact hnone i e he (by omega) hbefore husable
  by_cases hnothing : r = -1
  · subst hnothing
    refine .nothing fun e he hask => ?_
    obtain ⟨i, hi⟩ := List.mem_iff_getElem?.mp he
    have hle := hasked i e hi hask
    omega
  · obtain ⟨i, e, rfl, hget, _⟩ := @entryAt_inside entries r (by omega) (by omega)
    have hts := (h.last hclose (getElem?_keys hget)).mpr hra
    refine .entry hget ⟨hlast i e hget rfl, by rwa [if_pos hback]⟩ ?_
    intro j f hf hask
    rw [if_pos hback]
    have hle := hasked j f hf hask
    omega

theorem finds_forward {flags : UInt32} {a b r : Int} (h : Bracket (keys entries) wanted a b)
    (hclose : b ≤ a + 1) (hforward : ¬flags &&& avseekFlagBackward ≠ 0) (hb : 0 ≤ b) (hbr : b ≤ r)
    (hlen : r ≤ entries.length)
    (hnone : ∀ (i : Nat) e, entries[i]? = some e → b ≤ i → i < r → ¬Usable flags e)
    (hfirst : ∀ (i : Nat) e, entries[i]? = some e → r = i → Usable flags e) :
    Finds entries wanted flags (if r = entries.length then -1 else r) := by
  have hasked : ∀ (i : Nat) e, entries[i]? = some e → Asked wanted flags e → r ≤ (i : Int) := by
    rintro i e he ⟨husable, hts⟩
    rw [if_neg hforward] at hts
    have hafter := (h.first hclose (getElem?_keys he)).mp hts
    by_contra hbefore
    exact hnone i e he hafter (by omega) husable
  by_cases hnothing : r = entries.length
  · rw [if_pos hnothing]
    refine .nothing fun e he hask => ?_
    obtain ⟨i, hi⟩ := List.mem_iff_getElem?.mp he
    have hle := hasked i e hi hask
    have hlt := getElem?_length hi
    omega
  · obtain ⟨i, e, rfl, hget, _⟩ := @entryAt_inside entries r (by omega) (by omega)
    have hts := (h.first hclose (getElem?_keys hget)).mpr hbr
    rw [if_neg hnothing]
    refine .entry hget ⟨hfirst i e hget rfl, by rwa [if_neg hforward]⟩ ?_
    intro j f hf hask
    rw [if_neg hforward]
    have hle := hasked j f hf hask
    omega

theorem search_finds (hs : (keys entries).Pairwise (· < ·)) (wanted : Int) (flags : UInt32) :
    ∃ r, ffIndexSearchTimestamp entries wanted flags = some r ∧ Finds entries wanted flags r := by
  have hstart := @searchStart_bracket entries wanted hs
  have hleft := hstart.left
  obtain ⟨a, b, hbisect, h, hclose⟩ := @bisect_bracket entries wanted hs (entries.length + 2) _ _
    hstart (by omega)
  have hbracket := h.order
  have hlow := h.left
  have hright := h.right
  rw [length_keys] at hright
  have hmeet : a = b → a < entries.length := by
    intro hab
    obtain ⟨i, hi, hx⟩ := h.found hab
    have hlt := getElem?_length hx
    rw [length_keys] at hlt
    omega
  have hpos : 0 ≤ b := by
    by_contra hneg
    obtain ⟨i, hi, _⟩ := h.found (by omega)
    omega
  have hmode : ∀ e, Usable flags e ↔
      (flags &&& avseekFlagAny = 0 → e.flags &&& avindexKeyframe ≠ 0) := fun e => by
    rw [Usable, or_iff_not_imp_left, not_not]
  simp only [ffIndexSearchTimestamp, hbisect, Option.bind_eq_bind, Option.bind_some]
  by_cases hback : flags &&& avseekFlagBackward ≠ 0
  · simp only [if_pos hback]
    by_cases hany : flags &&& avseekFlagAny = 0
    · obtain ⟨r, hr, hbound, hle, hnone, hlast⟩ := @seekKeyframe_backward entries
        (entries.length + 1) a hlow (by omega) (by omega)
      rw [if_pos hany, hr, Option.bind_some, if_neg (by omega)]
      refine ⟨r, rfl, finds_backward h hclose hback hbound hle (by omega) ?_ ?_⟩
      · intro i e he hi hia husable
        exact (hmode e).mp husable hany (hnone i e he hi hia)
      · intro i e he hi
        exact (hmode e).mpr fun _ => hlast i e he hi
    · rw [if_neg hany, if_neg (by omega)]
      refine ⟨a, rfl, finds_backward h hclose hback hlow (Int.le_refl a) (by omega) ?_ ?_⟩
      · intro i e he hi hia
        omega
      · intro i e _ _
        exact .inl hany
  · simp only [if_neg hback]
    by_cases hany : flags &&& avseekFlagAny = 0
    · obtain ⟨r, hr, hle, hbound, hnone, hfirst⟩ := @seekKeyframe_forward entries
        (entries.length + 1) b hpos hright (by omega)
      rw [if_pos hany, hr, Option.bind_some]
      refine ⟨_, rfl, finds_forward h hclose hback hpos hle hbound ?_ ?_⟩
      · intro i e he hi hir husable
        exact (hmode e).mp husable hany (hnone i e he hi hir)
      · intro i e he hi
        exact (hmode e).mpr fun _ => hfirst i e he hi
    · rw [if_neg hany]
      refine ⟨_, rfl, finds_forward h hclose hback hpos (Int.le_refl b) hright ?_ ?_⟩
      · intro i e he hi hib
        omega
      · intro i e _ _
        exact .inl hany

end Search

def Increasing (entries : List AVIndexEntry) : Prop :=
  entries.Pairwise fun e f => e.timestamp < f.timestamp

/-- What a call of ff_add_index_entry does: nothing when it fails, and else there is
one new entry at the returned place, in place of the old one with its timestamp if
there was one. -/
inductive Adds (entries : List AVIndexEntry) (c : AddCall) : Int → List AVIndexEntry → Prop
  | fails {ret : Int} : ret < 0 → Adds entries c ret entries
  | entry {before replaced after : List AVIndexEntry} {e : AVIndexEntry} :
      entries = before ++ replaced ++ after → replaced.length ≤ 1 →
      (∀ f ∈ replaced, f.timestamp = c.stored) → (∀ f ∈ before, f.timestamp < c.stored) →
      (∀ f ∈ after, c.stored < f.timestamp) → e.timestamp = c.stored → e.pos = c.pos →
      Adds entries c before.length (before ++ e :: after)

section Runs

variable {entries : List AVIndexEntry}

theorem increasing_keys : (keys entries).Pairwise (· < ·) ↔ Increasing entries := List.pairwise_map

variable {e : AVIndexEntry} {i : Nat}

theorem split_at (h : entries[i]? = some e) : entries = entries.take i ++ [e] ++ entries.drop (i + 1) := by
  obtain ⟨hi, rfl⟩ := List.getElem?_eq_some_iff.mp h
  simp

theorem drop_split (h : entries[i]? = some e) : entries.drop i = e :: entries.drop (i + 1) := by
  obtain ⟨hi, rfl⟩ := List.getElem?_eq_some_iff.mp h
  exact List.drop_eq_getElem_cons hi

theorem insertIdx_split (e : AVIndexEntry) (h : i ≤ entries.length) :
    entries.insertIdx i e = entries.take i ++ e :: entries.drop i := by
  induction entries generalizing i with
  | nil =>
      obtain rfl : i = 0 := by simpa using h
      rfl
  | cons f rest ih =>
      cases i with
      | zero => rfl
      | succ i =>
          simp only [List.length_cons] at h
          rw [List.insertIdx_succ_cons, ih (by omega)]
          rfl

theorem before_lt {i : Nat} {wanted : Int}
    (h : ∀ (j : Nat) f, entries[j]? = some f → wanted ≤ f.timestamp → i ≤ j) :
    ∀ f ∈ entries.take i, f.timestamp < wanted := by
  intro f hf
  obtain ⟨j, hj⟩ := List.mem_iff_getElem?.mp hf
  rw [List.getElem?_take] at hj
  split at hj
  · by_contra hge
    have hle := h j f hj (by omega)
    omega
  · cases hj

theorem after_lt (hs : Increasing entries) (h : entries[i]? = some e) :
    ∀ f ∈ entries.drop (i + 1), e.timestamp < f.timestamp := by
  rw [split_at h] at hs
  intro f hf
  have hpair := (List.pairwise_append.mp hs).2.2
  exact hpair e (by simp) f hf

theorem add_adds (hs : Increasing entries) (c : AddCall) :
    ∃ ret after, ffAddIndexEntry entries c = some (ret, after) ∧ Adds entries c ret after := by
  rw [ffAddIndexEntry]
  split
  · exact ⟨_, _, rfl, .fails (by decide)⟩
  · split
    · exact ⟨_, _, rfl, .fails (by decide)⟩
    · split
      · exact ⟨_, _, rfl, .fails (by decide)⟩
      · split
        · exact ⟨_, _, rfl, .fails (by decide)⟩
        · obtain ⟨index, hsearch, hfinds⟩ :=
            search_finds (increasing_keys.mpr hs) c.stored avseekFlagAny
          have hany : avseekFlagAny &&& avseekFlagAny ≠ 0 := by decide
          have hforward : ¬avseekFlagAny &&& avseekFlagBackward ≠ 0 := by decide
          have hasked : ∀ e, Asked c.stored avseekFlagAny e ↔ c.stored ≤ e.timestamp := fun e => by
            rw [Asked, if_neg hforward]
            exact and_iff_right (.inl hany)
          rw [hsearch, Option.bind_eq_bind, Option.bind_some]
          cases hfinds with
          | nothing hnone =>
              have hbefore : ∀ f ∈ entries, f.timestamp < c.stored := by
                intro f hf
                exact not_le.mp fun hle => hnone f hf ((hasked f).mpr hle)
              have hlast : ∀ last ∈ entries.getLast?, last.timestamp < c.stored :=
                fun last hl => hbefore last (List.mem_of_getLast? hl)
              rw [if_pos (by decide), if_pos hlast]
              have hsplit : entries = entries ++ [] ++ [] := by simp
              exact ⟨_, _, rfl, .entry hsplit (by simp) (by simp) hbefore (by simp) rfl rfl⟩
          | @entry i e hget hask hfirst =>
              have hbefore := @before_lt entries i c.stored fun j f hf hle => by
                have hj := hfirst j f hf ((hasked f).mpr hle)
                rwa [if_neg hforward] at hj
              have hafter := after_lt hs hget
              have hlength : (entries.take i).length = i := by
                have hi := getElem?_length hget
                rw [List.length_take]
                omega
              have hle := (hasked e).mp hask
              rw [if_neg (by omega), entryAt_natCast, hget, Option.bind_eq_bind, Option.bind_some]
              by_cases hsame : e.timestamp = c.stored
              · rw [if_neg (by simpa using hsame), Int.toNat_natCast]
                dsimp only
                generalize (if e.pos = c.pos ∧ c.distance < e.minDistance then e.minDistance
                  else c.distance) = distance
                rw [List.set_eq_take_append_cons_drop, if_pos (getElem?_length hget)]
                have hadds := @Adds.entry entries c _ _ _ (c.entry distance) (split_at hget)
                  (by simp) (by simpa using hsame) hbefore (fun f hf => hsame ▸ hafter f hf) rfl rfl
                rw [hlength] at hadds
                exact ⟨_, _, rfl, hadds⟩
              · have hrest : ∀ f ∈ entries.drop i, c.stored < f.timestamp := by
                  intro f hf
                  rw [drop_split hget] at hf
                  obtain rfl | hf := List.mem_cons.mp hf
                  · omega
                  · have hlt := hafter f hf
                    omega
                rw [if_pos hsame, if_neg (by omega), Int.toNat_natCast,
                  insertIdx_split _ (getElem?_length hget).le]
                have hadds := @Adds.entry entries c _ [] _ (c.entry c.distance)
                  (by simp) (by simp) (by simp) hbefore hrest rfl rfl
                rw [hlength] at hadds
                exact ⟨_, _, rfl, hadds⟩

theorem everySecond_sublist (entries : List AVIndexEntry) : List.Sublist (everySecond entries) entries := by
  induction entries using everySecond.induct with
  | case1 => exact .slnil
  | case2 e => exact .refl _
  | case3 e f rest ih => exact .cons_cons e (ih.cons f)

theorem Adds.increasing {c : AddCall} {ret : Int} {after : List AVIndexEntry}
    (h : Adds entries c ret after) (hs : Increasing entries) : Increasing after := by
  cases h with
  | fails => exact hs
  | @entry before replaced rest e hsplit _ _ hbefore hafter hts _ =>
      subst hsplit
      have hsub : List.Sublist (before ++ rest) (before ++ replaced ++ rest) := by
        rw [List.append_assoc]
        exact (List.sublist_append_right replaced rest).append_left before
      obtain ⟨hleft, hright, hpair⟩ := List.pairwise_append.mp (hs.sublist hsub)
      refine List.pairwise_append.mpr ⟨hleft, List.pairwise_cons.mpr ⟨?_, hright⟩, ?_⟩
      · intro f hf
        exact hts ▸ hafter f hf
      · intro f hf g hg
        obtain rfl | hg := List.mem_cons.mp hg
        · exact hts ▸ hbefore f hf
        · exact hpair f hf g hg

theorem indexing_increasing (h : indexing.Reachable entries) : Increasing entries := by
  refine System.Reachable.invariant Increasing ?_ ?_ h
  · rintro s rfl
    exact .nil
  · intro s call t _ hs hnext
    cases call with
    | add c =>
        obtain ⟨ret, after, hadd, hadds⟩ := add_adds hs c
        simp only [indexing, hadd, Option.map_some, Option.some.injEq] at hnext
        exact hnext ▸ hadds.increasing hs
    | reduce maxIndexSize =>
        obtain rfl := Option.some.inj hnext
        rw [ffReduceIndex]
        split
        · exact hs.sublist (everySecond_sublist s)
        · exact hs

/-- The index is always in order, each call adds what it is given or changes nothing,
and every search ends and finds the entry asked for. -/
theorem seek_index (h : indexing.Reachable entries) :
    Increasing entries ∧
      (∀ c, ∃ ret after, ffAddIndexEntry entries c = some (ret, after) ∧ Adds entries c ret after) ∧
      ∀ wanted flags, ∃ r, ffIndexSearchTimestamp entries wanted flags = some r ∧
        Finds entries wanted flags r := by
  have hs := indexing_increasing h
  exact ⟨hs, add_adds hs, search_finds (increasing_keys.mpr hs)⟩

end Runs

def someCalls : List IndexCall :=
  [.add ⟨200, 20, 5, 0, 1, true⟩, .add ⟨100, 10, 5, 0, 2, true⟩, .add ⟨300, 20, 5, 0, 1, true⟩]

def someEntries : List AVIndexEntry := [⟨100, 10, 2, 5, 0⟩, ⟨300, 20, 1, 5, 0⟩]

theorem seek_index_some : Increasing someEntries ∧
    ∃ r, ffIndexSearchTimestamp someEntries 15 avseekFlagBackward = some r ∧
      Finds someEntries 15 avseekFlagBackward r := by
  have hrun : indexing.run someCalls [] = some someEntries := by decide +kernel
  have hreach : indexing.Reachable someEntries := .of_run rfl hrun
  have htheorem := seek_index hreach
  exact ⟨htheorem.1, htheorem.2.2 15 avseekFlagBackward⟩

/-- A relative timestamp is stored without its base. -/
theorem relative_timestamp_moved :
    ffAddIndexEntry [] ⟨0, int64Max, 0, 0, 1, true⟩ = some (0, [⟨0, 281474976710656, 1, 0, 0⟩]) ∧
      ¬∃ e ∈ [(⟨0, 281474976710656, 1, 0, 0⟩ : AVIndexEntry)], e.timestamp = int64Max := by
  decide +kernel

end P2PFFmpeg.Seek
