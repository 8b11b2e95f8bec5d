import P2PFFmpeg.Util.Error
import P2PFFmpeg.Util.Uuid
import Mathlib.Logic.Function.Basic

namespace P2PFFmpeg.Util

def map2 (c : UInt8) : Nat :=
  if c = 0 ∨ c = 61 then 0xfe
  else if c = 43 then 0x3e
  else if c = 47 then 0x3f
  else if 48 ≤ c ∧ c ≤ 57 then c.toNat - 48 + 0x34
  else if 65 ≤ c ∧ c ≤ 90 then c.toNat - 65
  else if 97 ≤ c ∧ c ≤ 122 then c.toNat - 97 + 0x1a
  else 0xff

def b64 (i : Nat) : UInt8 :=
  if i < 26 then 65 + UInt8.ofNat i
  else if i < 52 then 97 + UInt8.ofNat (i - 26)
  else if i < 62 then 48 + UInt8.ofNat (i - 52)
  else if i = 62 then 43
  else 47

/-- The memory at `out`, and the offsets that are written. -/
structure Output where
  bytes : Nat → UInt8
  written : List Nat

def Output.put (o : Output) (dst v : Nat) : Output where
  bytes := Function.update o.bytes dst (UInt8.ofNat v)
  written := dst :: o.written

/-- What the steps of a group leave: all four digits in `v`, or fewer and the bits of
the character that stopped them. -/
inductive Group
  | full (v : Nat)
  | stop (i v bits : Nat)

def readSteps : Nat → Nat → Nat → List UInt8 → Group
  | 0, _, v, _ => .full v
  | n + 1, i, v, input =>
      let bits := map2 (input.headD 0)
      if bits &&& 0x80 ≠ 0 then .stop i v bits else readSteps n (i + 1) (v * 64 + bits) input.tail

def readGroup (input : List UInt8) : Group := readSteps 4 0 0 input

structure Decoded where
  ret : Int
  out : Output

def leave (o : Output) (dst i v bits : Nat) : Decoded :=
  let result (o : Output) (dst : Nat) : Decoded := ⟨if bits &&& 1 ≠ 0 then averrorInvaliddata else dst, o⟩
  if i = 3 then result ((o.put dst (v >>> 10)).put (dst + 1) (v <<< 2 >>> 4)) (dst + 2)
  else if i = 2 then result (o.put dst (v >>> 4)) (dst + 1)
  else result o dst

def validityCheck : List UInt8 → Nat
  | [] => map2 0
  | c :: input => if map2 c &&& 0x80 ≠ 0 then map2 c else validityCheck input

def decodeTail (left dst : Nat) (o : Output) (input : List UInt8) : Decoded :=
  if left = 0 then leave o dst 0 0 (validityCheck input)
  else match readGroup input with
    | .stop i v bits => leave o dst i v bits
    | .full v =>
        let o := o.put dst (v >>> 16)
        if left = 1 then leave o (dst + 1) 0 0 (validityCheck (input.drop 4))
        else
          let o := o.put (dst + 1) (v >>> 8)
          if left = 2 then leave o (dst + 2) 0 0 (validityCheck (input.drop 4))
          else leave (o.put (dst + 2) v) (dst + 3) 0 0 (validityCheck (input.drop 4))

def decodeGroups : Nat → Nat → Output → List UInt8 → Decoded
  | left + 4, dst, o, input =>
      match readGroup input with
      | .stop i v bits => leave o dst i v bits
      | .full v =>
          decodeGroups (left + 1) (dst + 3)
            ((((o.put dst (v >>> 16)).put (dst + 1) (v >>> 8)).put (dst + 2) v).put (dst + 3) 0) (input.drop 4)
  | left, dst, o, input => decodeTail left dst o input

/-- Without an output the text is only checked. -/
def avBase64Decode (out : Option (Nat → UInt8)) (input : List UInt8) (outSize : Nat) : Decoded :=
  match out with
  | none => leave ⟨fun _ => 0, []⟩ 0 0 0 (validityCheck input)
  | some bytes => decodeGroups outSize 0 ⟨bytes, []⟩ input

def tailChars (iBits : Nat) : Nat → List UInt8
  | 0 => []
  | iShift + 6 => b64 ((iBits <<< 6 >>> (iShift + 6)) &&& 0x3f) :: tailChars iBits iShift
  | iShift => [b64 ((iBits <<< 6 >>> iShift) &&& 0x3f)]

def encodeChars : List UInt8 → List UInt8
  | a :: b :: c :: d :: rest =>
      let iBits := a.toNat * 16777216 + b.toNat * 65536 + c.toNat * 256 + d.toNat
      b64 (iBits >>> 26) :: b64 ((iBits >>> 20) &&& 0x3F) :: b64 ((iBits >>> 14) &&& 0x3F) ::
        b64 ((iBits >>> 8) &&& 0x3F) :: encodeChars (d :: rest)
  | rest => tailChars (rest.foldl (fun iBits c => iBits <<< 8 + c.toNat) 0) (8 * rest.length)

/-- The text before its NUL. -/
def avBase64Encode (outSize : Nat) (x : List UInt8) : Option (List UInt8) :=
  if x.length ≥ 1073741823 ∨ outSize < (x.length + 2) / 3 * 4 + 1 then none
  else
    let chars := encodeChars x
    some (chars ++ List.replicate ((4 - chars.length % 4) % 4) 61)

def digitsOf : List UInt8 → List Nat
  | [] => []
  | c :: input => if map2 c &&& 0x80 ≠ 0 then [] else map2 c :: digitsOf input

/-- The bytes that digits stand for. -/
def bytesOf : List Nat → List UInt8
  | a :: b :: c :: d :: rest =>
      UInt8.ofNat (a * 4 + b / 16) :: UInt8.ofNat (b * 16 + c / 4) :: UInt8.ofNat (c * 64 + d) :: bytesOf rest
  | [a, b, c] => [UInt8.ofNat (a * 4 + b / 16), UInt8.ofNat (b * 16 + c / 4)]
  | [a, b] => [UInt8.ofNat (a * 4 + b / 16)]
  | _ => []

/-- The last group of a text has two bytes, and there is room for one. -/
def Overruns (input : List UInt8) (outSize : Nat) : Prop :=
  ∃ k, outSize = 3 * k + 1 ∧ (digitsOf input).length = 4 * k + 3

section Groups

theorem map2_digit (c : UInt8) : map2 c &&& 0x80 ≠ 0 ↔ ¬map2 c < 64 :=
  @byte_cases (fun c => map2 c &&& 0x80 ≠ 0 ↔ ¬map2 c < 64) (by decide +kernel) c

theorem digitsOf_lt (input : List UInt8) : ∀ d ∈ digitsOf input, d < 64 := by
  induction input with
  | nil => exact fun d hd => by cases hd
  | cons c input ih =>
      intro d hd
      rw [digitsOf] at hd
      split at hd
      · cases hd
      · next hdigit =>
          rw [map2_digit, not_not] at hdigit
          obtain rfl | hrest := List.mem_cons.mp hd
          · exact hdigit
          · exact ih d hrest

theorem digitsOf_drop (input : List UInt8) {n : Nat} (h : n ≤ (digitsOf input).length) :
    digitsOf (input.drop n) = (digitsOf input).drop n ∧ validityCheck (input.drop n) = validityCheck input := by
  induction n generalizing input with
  | zero => exact ⟨rfl, rfl⟩
  | succ n ih =>
      cases input with
      | nil => exact absurd h (Nat.not_succ_le_zero n)
      | cons c input =>
          rw [digitsOf] at h ⊢
          rw [validityCheck]
          split at h
          · exact absurd h (Nat.not_succ_le_zero n)
          · next hdigit =>
              rw [if_neg hdigit, if_neg hdigit, List.drop_succ_cons, List.drop_succ_cons]
              exact ih input (Nat.succ_le_succ_iff.mp h)

theorem readSteps_eq (n i v : Nat) (input : List UInt8) : readSteps n i v input =
    if n ≤ (digitsOf input).length then .full (((digitsOf input).take n).foldl (fun v d => v * 64 + d) v)
    else .stop (i + (digitsOf input).length) ((digitsOf input).foldl (fun v d => v * 64 + d) v)
      (validityCheck input) := by
  induction n generalizing i v input with
  | zero => rw [if_pos (Nat.zero_le _)]; rfl
  | succ n ih =>
      cases input with
      | nil => rfl
      | cons c input =>
          rw [readSteps, digitsOf, validityCheck, List.headD_cons, List.tail_cons]
          by_cases hstop : map2 c &&& 0x80 ≠ 0
          · rw [if_pos hstop, if_pos hstop, if_pos hstop]
            rfl
          · have hshift : i + 1 + (digitsOf input).length = i + ((digitsOf input).length + 1) := by omega
            rw [if_neg hstop, if_neg hstop, if_neg hstop, ih, List.length_cons, List.take_succ_cons, List.foldl_cons,
              List.foldl_cons, hshift]
            simp only [Nat.add_le_add_iff_right]

theorem ofNat_congr {x y : Nat} (h : x % 256 = y % 256) : UInt8.ofNat x = UInt8.ofNat y := by
  apply UInt8.toNat_inj.mp
  rw [UInt8.toNat_ofNat', UInt8.toNat_ofNat']
  exact h

theorem length_bytesOf (ds : List Nat) : (bytesOf ds).length = ds.length * 3 / 4 := by
  induction ds using bytesOf.induct with
  | case1 a b c d rest ih =>
      rw [bytesOf]
      simp only [List.length_cons, ih]
      omega
  | case2 a b c => simp [bytesOf]
  | case3 a b => simp [bytesOf]
  | case4 ds hfour hthree htwo =>
      match ds with
      | [] => simp [bytesOf]
      | [_] => simp [bytesOf]
      | [a, b] => exact absurd rfl (htwo a b)
      | [a, b, c] => exact absurd rfl (hthree a b c)
      | a :: b :: c :: d :: rest => exact absurd rfl (hfour a b c d rest)

end Groups

section Decode

variable {o : Output} {dst left : Nat} {input : List UInt8}

theorem put_bytes (o : Output) (dst v i : Nat) :
    (o.put dst v).bytes i = if i = dst then UInt8.ofNat v else o.bytes i := by
  rw [Output.put]
  exact Function.update_apply o.bytes dst (UInt8.ofNat v) i

theorem mem_put (o : Output) (dst v j : Nat) : j ∈ (o.put dst v).written ↔ j = dst ∨ j ∈ o.written :=
  List.mem_cons

def Output.putAll (o : Output) (dst : Nat) : List Nat → Output
  | [] => o
  | v :: vs => (o.put dst v).putAll (dst + 1) vs

theorem putAll_before (vs : List Nat) (o : Output) (dst : Nat) {i : Nat} (hi : i < dst) :
    (o.putAll dst vs).bytes i = o.bytes i := by
  induction vs generalizing o dst with
  | nil => rfl
  | cons v vs ih => rw [Output.putAll, ih _ _ (by omega), put_bytes, if_neg hi.ne]

theorem putAll_bytes (vs : List Nat) (o : Output) (dst : Nat) {k : Nat} (hk : k < vs.length) :
    (o.putAll dst vs).bytes (dst + k) = UInt8.ofNat (vs.getD k 0) := by
  induction vs generalizing o dst k with
  | nil => cases hk
  | cons v vs ih =>
      rw [Output.putAll]
      cases k with
      | zero =>
          change ((o.put dst v).putAll (dst + 1) vs).bytes dst = UInt8.ofNat v
          rw [putAll_before vs _ _ (Nat.lt_add_one dst), put_bytes, if_pos rfl]
      | succ k =>
          have hrest := ih (o.put dst v) (dst + 1) (Nat.lt_of_succ_lt_succ hk)
          rwa [Nat.add_assoc, Nat.add_comm 1 k] at hrest

theorem mem_putAll (vs : List Nat) (o : Output) (dst j : Nat) :
    j ∈ (o.putAll dst vs).written ↔ j ∈ o.written ∨ dst ≤ j ∧ j < dst + vs.length := by
  induction vs generalizing o dst with
  | nil =>
      rw [Output.putAll, List.length_nil]
      exact ⟨.inl, fun h => h.elim id fun hempty => absurd hempty.2 (by omega)⟩
  | cons v vs ih =>
      rw [Output.putAll, ih, mem_put, List.length_cons]
      grind

/-- The bytes that a call keeps: all there are, or what there is room for; one more where
the last group overruns. -/
def kept (left digits : Nat) : Nat :=
  if left % 3 = 1 ∧ digits = left / 3 * 4 + 3 then left + 1 else min left (digits * 3 / 4)

theorem kept_succ {digits : Nat} : kept (left + 4) (digits + 4) = kept (left + 1) digits + 3 := by
  unfold kept
  split_ifs <;> omega

structure Leaves (o : Output) (dst left : Nat) (input : List UInt8) (r : Decoded) : Prop where
  ret : r.ret = if validityCheck input &&& 1 ≠ 0 then averrorInvaliddata
    else ((dst + kept left (digitsOf input).length : Nat) : Int)
  bytes : ∀ i < kept left (digitsOf input).length, r.out.bytes (dst + i) = (bytesOf (digitsOf input)).getD i 0
  before : ∀ i < dst, r.out.bytes i = o.bytes i
  written : ∀ j ∈ r.out.written, j ∈ o.written ∨ dst ≤ j ∧ j < dst + max left (kept left (digitsOf input).length)
  overrun : kept left (digitsOf input).length = left + 1 → dst + left ∈ r.out.written

theorem kept_zero (digits : Nat) : kept 0 digits = 0 := by
  rw [kept, if_neg (fun h => absurd h.1 (by decide)), Nat.zero_min]

theorem kept_short {digits : Nat} (hleft : 0 < left) (h : digits < 4) : kept left digits = digits * 3 / 4 := by
  unfold kept
  split
  · next hover =>
      omega
  · next hroom =>
      rw [Nat.min_eq_right]
      by_contra hlarge
      have hone : left = 1 := by omega
      exact hroom (by omega)

theorem kept_full {digits : Nat} (hleft : left ≤ 3) (h : 4 ≤ digits) : kept left digits = left := by
  unfold kept
  split_ifs <;> omega

theorem leave_none {i v : Nat} (hi : i < 2) (hkept : kept left (digitsOf input).length = 0) :
    Leaves o dst left input (leave o dst i v (validityCheck input)) := by
  have hleave : leave o dst i v (validityCheck input) =
      ⟨if validityCheck input &&& 1 ≠ 0 then averrorInvaliddata else dst, o⟩ := by
    rw [leave, if_neg (by omega), if_neg (by omega)]
  rw [hleave]
  refine ⟨by rw [hkept]; rfl, fun k hk => ?_, fun _ _ => rfl, fun j hj => .inl hj, fun hover => ?_⟩
  · rw [hkept] at hk
    cases hk
  · rw [hkept] at hover
    cases hover

theorem leave_short {ds : List Nat} (hds : digitsOf input = ds) (hleft : 0 < left) (hshort : ds.length < 4) :
    Leaves o dst left input
      (leave o dst ds.length (ds.foldl (fun v d => v * 64 + d) 0) (validityCheck input)) := by
  have hlt := digitsOf_lt input
  have hkept : kept left (digitsOf input).length = ds.length * 3 / 4 := by rw [hds, kept_short hleft hshort]
  rw [hds] at hlt
  match ds, hshort with
  | [], _ => exact leave_none Nat.zero_lt_two hkept
  | [a], _ => exact leave_none Nat.one_lt_two (hkept.trans (by simp))
  | [a, b], _ =>
      have hone : kept left (digitsOf input).length = 1 := hkept.trans (by simp)
      refine ⟨by rw [hone]; rfl, fun k hk => ?_, fun i hi => ?_, fun j hj => ?_, fun hover => ?_⟩
      · rw [hone] at hk
        rw [Nat.lt_one_iff.mp hk, hds, bytesOf, Nat.add_zero]
        refine (put_bytes o dst _ dst).trans ((if_pos rfl).trans (congrArg UInt8.ofNat ?_))
        change ((0 * 64 + a) * 64 + b) >>> 4 = a * 4 + b / 16
        rw [Nat.shiftRight_eq_div_pow]
        omega
      · exact (put_bytes o dst _ i).trans (if_neg hi.ne)
      · obtain hnew | hold := (mem_put o dst _ j).mp hj
        · exact .inr (by omega)
        · exact .inl hold
      · omega
  | [a, b, c], _ =>
      have htwo : kept left (digitsOf input).length = 2 := hkept.trans (by simp)
      have hb := hlt b (by simp)
      have hc := hlt c (by simp)
      refine ⟨by rw [htwo]; rfl, fun k hk => ?_, fun i hi => ?_, fun j hj => ?_, fun hover => ?_⟩
      · rw [htwo] at hk
        rw [hds, bytesOf]
        obtain rfl | rfl : k = 0 ∨ k = 1 := by omega
        · refine (put_bytes _ (dst + 1) _ dst).trans ((if_neg (by omega)).trans ?_)
          refine (put_bytes o dst _ dst).trans ((if_pos rfl).trans (congrArg UInt8.ofNat ?_))
          change (((0 * 64 + a) * 64 + b) * 64 + c) >>> 10 = a * 4 + b / 16
          rw [Nat.shiftRight_eq_div_pow]
          omega
        · refine (put_bytes _ (dst + 1) _ (dst + 1)).trans ((if_pos rfl).trans (ofNat_congr ?_))
          change (((0 * 64 + a) * 64 + b) * 64 + c) <<< 2 >>> 4 % 256 = (b * 16 + c / 4) % 256
          rw [Nat.shiftRight_eq_div_pow, Nat.shiftLeft_eq]
          omega
      · refine (put_bytes _ (dst + 1) _ i).trans ((if_neg (by omega)).trans ?_)
        exact (put_bytes o dst _ i).trans (if_neg hi.ne)
      · obtain hnew | hmem := (mem_put _ (dst + 1) _ j).mp hj
        · exact .inr (by omega)
        · obtain hnew | hold := (mem_put o dst _ j).mp hmem
          · exact .inr (by omega)
          · exact .inl hold
      · have hlast : left = 1 := by omega
        rw [hlast]
        exact (mem_put _ (dst + 1) _ _).mpr (.inl rfl)

theorem full_group {v : Nat} {ds : List Nat} (hlt : ∀ d ∈ ds, d < 64) (hfour : 4 ≤ ds.length)
    (hv : v = (ds.take 4).foldl (fun v d => v * 64 + d) 0) :
    bytesOf ds = UInt8.ofNat (v >>> 16) :: UInt8.ofNat (v >>> 8) :: UInt8.ofNat v :: bytesOf (ds.drop 4) := by
  match ds, hfour with
  | a :: b :: c :: d :: rest, _ =>
      have hc := hlt c (by simp)
      have hd := hlt d (by simp)
      have hvalue : v = (((0 * 64 + a) * 64 + b) * 64 + c) * 64 + d := hv
      have hfirst : v >>> 16 = a * 4 + b / 16 := by
        rw [Nat.shiftRight_eq_div_pow]
        omega
      rw [bytesOf, hfirst, ofNat_congr (show (b * 16 + c / 4) % 256 = v >>> 8 % 256 by
        rw [Nat.shiftRight_eq_div_pow]
        omega), ofNat_congr (show (c * 64 + d) % 256 = v % 256 by omega)]
      rfl

theorem group_byte {v k : Nat} {ds : List Nat} (hlt : ∀ d ∈ ds, d < 64) (hfour : 4 ≤ ds.length)
    (hv : v = (ds.take 4).foldl (fun v d => v * 64 + d) 0) (hk : k < 3) :
    UInt8.ofNat ([v >>> 16, v >>> 8, v].getD k 0) = (bytesOf ds).getD k 0 := by
  rw [full_group hlt hfour hv]
  match k, hk with
  | 0, _ => rfl
  | 1, _ => rfl
  | 2, _ => rfl

theorem tail_leaves (hleft : left ≤ 3) : Leaves o dst left input (decodeTail left dst o input) := by
  rw [decodeTail]
  by_cases hzero : left = 0
  · rw [if_pos hzero]
    exact leave_none Nat.zero_lt_two (by rw [hzero, kept_zero])
  · rw [if_neg hzero, readGroup, readSteps_eq]
    by_cases hfour : 4 ≤ (digitsOf input).length
    · rw [if_pos hfour]
      generalize hv : ((digitsOf input).take 4).foldl (fun v d => v * 64 + d) 0 = v
      have hkept := kept_full hleft hfour
      have hwritten : (if left = 1 then leave (o.put dst (v >>> 16)) (dst + 1) 0 0 (validityCheck (input.drop 4))
          else if left = 2 then
            leave ((o.put dst (v >>> 16)).put (dst + 1) (v >>> 8)) (dst + 2) 0 0 (validityCheck (input.drop 4))
          else leave (((o.put dst (v >>> 16)).put (dst + 1) (v >>> 8)).put (dst + 2) v) (dst + 3) 0 0
            (validityCheck (input.drop 4))) =
          ⟨if validityCheck input &&& 1 ≠ 0 then averrorInvaliddata else (dst + left : Nat),
            o.putAll dst ([v >>> 16, v >>> 8, v].take left)⟩ := by
        rw [(digitsOf_drop input hfour).2]
        obtain rfl | rfl | rfl : left = 1 ∨ left = 2 ∨ left = 3 := by omega
        all_goals rfl
      have hlength : ([v >>> 16, v >>> 8, v].take left).length = left := by
        rw [List.length_take]
        exact Nat.min_eq_left hleft
      simp only [hwritten]
      refine ⟨by rw [hkept], fun k hk => ?_, fun i hi => putAll_before _ _ _ hi, fun j hj => ?_, fun hover => ?_⟩
      · rw [hkept] at hk
        have hbyte := group_byte (digitsOf_lt input) hfour hv.symm (lt_of_lt_of_le hk hleft)
        rw [putAll_bytes _ _ _ (by rwa [hlength]), ← hbyte, List.getD_eq_getElem?_getD, List.getD_eq_getElem?_getD,
          List.getElem?_take_of_lt hk]
      · rw [mem_putAll, hlength] at hj
        exact hj.imp id fun h => ⟨h.1, by omega⟩
      · omega
    · rw [if_neg hfour, Nat.zero_add]
      exact leave_short rfl (Nat.pos_of_ne_zero hzero) (not_le.mp hfour)

theorem fast_leaves {v : Nat} (hfour : 4 ≤ (digitsOf input).length)
    (hv : v = ((digitsOf input).take 4).foldl (fun v d => v * 64 + d) 0) {r : Decoded}
    (h : Leaves (o.putAll dst [v >>> 16, v >>> 8, v, 0]) (dst + 3) (left + 1) (input.drop 4) r) :
    Leaves o dst (left + 4) input r := by
  obtain ⟨hdigits, hbits⟩ := digitsOf_drop input hfour
  have hgroup := full_group (digitsOf_lt input) hfour hv
  obtain ⟨ret, bytes, before, written, overrun⟩ := h
  obtain ⟨n, hn⟩ := Nat.exists_eq_add_of_le' hfour
  have hrest : (digitsOf (input.drop 4)).length = n := by
    rw [hdigits, List.length_drop, hn, Nat.add_sub_cancel]
  have hkept := @kept_succ left n
  rw [← hn, ← hrest] at hkept
  refine ⟨?_, fun k hk => ?_, fun i hi => ?_, fun j hj => ?_, fun hover => ?_⟩
  · rw [ret, hbits, hkept, Nat.add_assoc, Nat.add_comm 3]
  · by_cases hfirst : k < 3
    · have hbyte := group_byte (digitsOf_lt input) hfour hv hfirst
      have hfast : ([v >>> 16, v >>> 8, v, 0] : List Nat).getD k 0 = [v >>> 16, v >>> 8, v].getD k 0 := by
        match k, hfirst with
        | 0, _ => rfl
        | 1, _ => rfl
        | 2, _ => rfl
      rw [before _ (by omega), putAll_bytes _ _ _ (by simp only [List.length_cons]; omega), hfast, hbyte]
    · obtain ⟨m, rfl⟩ := Nat.exists_eq_add_of_le' (not_lt.mp hfirst)
      have hlater := bytes m (by omega)
      rw [hdigits] at hlater
      rw [hgroup, Nat.add_comm m 3, ← Nat.add_assoc, hlater, Nat.add_comm 3 m]
      rfl
  · rw [before i (by omega), putAll_before _ _ _ hi]
  · obtain hold | hnew := written j hj
    · obtain hold | hnew := (mem_putAll _ _ _ _).mp hold
      · exact .inl hold
      · simp only [List.length_cons, List.length_nil] at hnew
        exact .inr (by omega)
    · exact .inr (by omega)
  · have hmem := overrun (by omega)
    rwa [Nat.add_assoc, Nat.add_comm 3 (left + 1)] at hmem

theorem groups_leaves (left dst : Nat) (o : Output) (input : List UInt8) :
    Leaves o dst left input (decodeGroups left dst o input) := by
  induction left, dst, o, input using decodeGroups.induct with
  | case1 dst o input left i v bits hgroup =>
      rw [decodeGroups, hgroup]
      rw [readGroup, readSteps_eq] at hgroup
      split at hgroup
      · cases hgroup
      · next hshort =>
          cases hgroup
          rw [Nat.zero_add]
          exact leave_short rfl (by omega) (not_le.mp hshort)
  | case2 dst o input left v hgroup ih =>
      rw [decodeGroups, hgroup]
      rw [readGroup, readSteps_eq] at hgroup
      split at hgroup
      · next hfour =>
          cases hgroup
          exact fast_leaves hfour rfl ih
      · cases hgroup
  | case3 left dst o input hfew =>
      have hleft : left ≤ 3 := by
        by_contra hlarge
        obtain ⟨n, hn⟩ := Nat.exists_eq_add_of_le' (show 4 ≤ left by omega)
        exact hfew n hn
      rw [decodeGroups.eq_def]
      split
      · exact absurd rfl (hfew _)
      · exact tail_leaves hleft

end Decode

section Bounds

variable {buf : Nat → UInt8} {input : List UInt8} {outSize : Nat}

/-- A call writes inside its output, tells no more bytes than there is room for, and
gives a prefix of what it gives with enough room. -/
structure StaysInside (buf : Nat → UInt8) (input : List UInt8) (outSize : Nat) : Prop where
  writes : ∀ j ∈ (avBase64Decode (some buf) input outSize).out.written, j < outSize
  ret : (avBase64Decode (some buf) input outSize).ret ≤ outSize
  isPrefix : 0 ≤ (avBase64Decode (some buf) input outSize).ret → ∀ big, input.length ≤ big →
    (avBase64Decode (some buf) input outSize).ret ≤ (avBase64Decode (some buf) input big).ret ∧
      ∀ i : Nat, i < (avBase64Decode (some buf) input outSize).ret →
        (avBase64Decode (some buf) input outSize).out.bytes i = (avBase64Decode (some buf) input big).out.bytes i

theorem decode_leaves (buf : Nat → UInt8) (input : List UInt8) (outSize : Nat) :
    Leaves ⟨buf, []⟩ 0 outSize input (avBase64Decode (some buf) input outSize) :=
  groups_leaves outSize 0 ⟨buf, []⟩ input

theorem overruns_iff : Overruns input outSize ↔
    outSize % 3 = 1 ∧ (digitsOf input).length = outSize / 3 * 4 + 3 := by
  constructor
  · rintro ⟨k, hsize, hdigits⟩
    exact ⟨by omega, by omega⟩
  · rintro ⟨hsize, hdigits⟩
    exact ⟨outSize / 3, by omega, by omega⟩

theorem length_digitsOf_le (input : List UInt8) : (digitsOf input).length ≤ input.length := by
  induction input with
  | nil => exact Nat.le_refl 0
  | cons c input ih =>
      rw [digitsOf]
      split
      · exact Nat.zero_le _
      · exact Nat.succ_le_succ ih

theorem kept_enough (h : (digitsOf input).length ≤ outSize) :
    kept outSize (digitsOf input).length = (digitsOf input).length * 3 / 4 := by
  rw [kept, if_neg (by omega), Nat.min_eq_right (by omega)]

theorem staysInside_iff : StaysInside buf input outSize ↔ ¬Overruns input outSize := by
  have hleaves := decode_leaves buf input outSize
  rw [overruns_iff]
  constructor
  · intro h hover
    have hkept : kept outSize (digitsOf input).length = outSize + 1 := if_pos hover
    have hmem := hleaves.overrun hkept
    rw [Nat.zero_add] at hmem
    exact Nat.lt_irrefl _ (h.writes outSize hmem)
  · intro hroom
    have hkept : kept outSize (digitsOf input).length = min outSize ((digitsOf input).length * 3 / 4) := if_neg hroom
    have hle : kept outSize (digitsOf input).length ≤ outSize := hkept ▸ Nat.min_le_left _ _
    refine ⟨fun j hj => ?_, ?_, fun hret big hbig => ?_⟩
    · obtain hold | ⟨-, hlt⟩ := hleaves.written j hj
      · cases hold
      · omega
    · rw [hleaves.ret, averrorInvaliddata]
      split <;> omega
    · have hlarge := decode_leaves buf input big
      have hkeptlarge := @kept_enough input big ((length_digitsOf_le input).trans hbig)
      have hmore : kept outSize (digitsOf input).length ≤ kept big (digitsOf input).length := by
        rw [hkept, hkeptlarge]
        exact Nat.min_le_right _ _
      have hvalid : ¬validityCheck input &&& 1 ≠ 0 := by
        intro hbad
        rw [hleaves.ret, if_pos hbad] at hret
        exact absurd hret (by decide)
      rw [hleaves.ret, hlarge.ret, if_neg hvalid, if_neg hvalid]
      refine ⟨by omega, fun i hi => ?_⟩
      have hsmall := hleaves.bytes i (by omega)
      have hbytes := hlarge.bytes i (by omega)
      rw [Nat.zero_add] at hsmall hbytes
      rw [hsmall, hbytes]

end Bounds

section RoundTrip

theorem map2_b64 : ∀ i < 64, map2 (b64 i) = i := by decide

theorem digitsOf_chars {ds : List Nat} (hlt : ∀ d ∈ ds, d < 64) (pads : List UInt8) :
    digitsOf (ds.map b64 ++ pads) = ds ++ digitsOf pads ∧ validityCheck (ds.map b64 ++ pads) = validityCheck pads := by
  induction ds with
  | nil => exact ⟨rfl, rfl⟩
  | cons d ds ih =>
      have hd := hlt d List.mem_cons_self
      obtain ⟨hdigits, hbits⟩ := ih fun e he => hlt e (List.mem_cons_of_mem d he)
      have hdigit : ¬map2 (b64 d) &&& 0x80 ≠ 0 := by
        rw [map2_digit, map2_b64 d hd]
        exact not_not.mpr hd
      rw [List.map_cons, List.cons_append, digitsOf, validityCheck, if_neg hdigit, if_neg hdigit, map2_b64 d hd, hdigits,
        hbits]
      exact ⟨rfl, rfl⟩

theorem digitsOf_pads (n : Nat) :
    digitsOf (List.replicate n 61) = [] ∧ validityCheck (List.replicate n 61) = 0xfe := by
  cases n with
  | zero => exact ⟨rfl, rfl⟩
  | succ n => exact ⟨if_pos (by decide), if_pos (by decide)⟩

theorem six_bits (x : Nat) : x &&& 0x3f = x % 64 := Nat.and_two_pow_sub_one_eq_mod x 6

theorem ofNat_eq {x : Nat} {c : UInt8} (h : x % 256 = c.toNat) : UInt8.ofNat x = c := by
  apply UInt8.toNat_inj.mp
  rw [UInt8.toNat_ofNat']
  exact h

def digitsFor : List UInt8 → List Nat
  | a :: b :: c :: rest =>
      a.toNat / 4 :: (a.toNat * 16 + b.toNat / 16) % 64 :: (b.toNat * 4 + c.toNat / 64) % 64 :: c.toNat % 64 ::
        digitsFor rest
  | [a, b] => [a.toNat / 4, (a.toNat * 16 + b.toNat / 16) % 64, b.toNat * 4 % 64]
  | [a] => [a.toNat / 4, a.toNat * 16 % 64]
  | [] => []

theorem digitsFor_lt (x : List UInt8) : ∀ d ∈ digitsFor x, d < 64 := by
  induction x using digitsFor.induct with
  | case1 a b c rest ih =>
      have ha := a.toNat_lt
      intro d hd
      rw [digitsFor] at hd
      simp only [List.mem_cons] at hd
      obtain rfl | rfl | rfl | rfl | hrest := hd
      · omega
      · omega
      · omega
      · omega
      · exact ih d hrest
  | case2 a b =>
      have ha := a.toNat_lt
      intro d hd
      rw [digitsFor] at hd
      simp only [List.mem_cons, List.not_mem_nil, or_false] at hd
      omega
  | case3 a =>
      have ha := a.toNat_lt
      intro d hd
      rw [digitsFor] at hd
      simp only [List.mem_cons, List.not_mem_nil, or_false] at hd
      omega
  | case4 => exact fun d hd => by rw [digitsFor] at hd; cases hd

theorem bytesOf_digitsFor (x : List UInt8) : bytesOf (digitsFor x) = x := by
  induction x using digitsFor.induct with
  | case1 a b c rest ih =>
      have ha := a.toNat_lt
      have hb := b.toNat_lt
      have hc := c.toNat_lt
      rw [digitsFor, bytesOf, ih, @ofNat_eq _ a (by omega), @ofNat_eq _ b (by omega), @ofNat_eq _ c (by omega)]
  | case2 a b =>
      have ha := a.toNat_lt
      have hb := b.toNat_lt
      rw [digitsFor, bytesOf, @ofNat_eq _ a (by omega), @ofNat_eq _ b (by omega)]
  | case3 a =>
      have ha := a.toNat_lt
      rw [digitsFor, bytesOf, @ofNat_eq _ a (by omega)]
  | case4 => simp [digitsFor, bytesOf]

theorem encodeChars_eq (x : List UInt8) : encodeChars x = (digitsFor x).map b64 := by
  induction x using encodeChars.induct with
  | case1 a b c d rest ih =>
      have hb := b.toNat_lt
      have hc := c.toNat_lt
      have hd := d.toNat_lt
      generalize hbits : a.toNat * 16777216 + b.toNat * 65536 + c.toNat * 256 + d.toNat = iBits
      have hfirst : iBits / 2 ^ 26 = a.toNat / 4 := by omega
      have hsecond : iBits / 2 ^ 20 % 64 = (a.toNat * 16 + b.toNat / 16) % 64 := by omega
      have hthird : iBits / 2 ^ 14 % 64 = (b.toNat * 4 + c.toNat / 64) % 64 := by omega
      have hfourth : iBits / 2 ^ 8 % 64 = c.toNat % 64 := by omega
      rw [encodeChars, digitsFor, ih, hbits]
      simp only [six_bits, Nat.shiftRight_eq_div_pow, hfirst, hsecond, hthird, hfourth, List.map_cons]
  | case2 rest hshort =>
      match rest with
      | [] => simp [encodeChars, tailChars, digitsFor]
      | [a] =>
          have ha := a.toNat_lt
          have hfirst : a.toNat * 64 / 256 % 64 = a.toNat / 4 := by omega
          have hsecond : a.toNat * 64 / 4 % 64 = a.toNat * 16 % 64 := by omega
          simp [encodeChars, tailChars, digitsFor, six_bits, Nat.shiftRight_eq_div_pow, Nat.shiftLeft_eq, hfirst, hsecond]
      | [a, b] =>
          have ha := a.toNat_lt
          have hb := b.toNat_lt
          have hfirst : (a.toNat * 256 + b.toNat) * 64 / 65536 % 64 = a.toNat / 4 := by omega
          have hsecond : (a.toNat * 256 + b.toNat) * 64 / 1024 % 64 = (a.toNat * 16 + b.toNat / 16) % 64 := by
            omega
          have hthird : (a.toNat * 256 + b.toNat) * 64 / 16 % 64 = b.toNat * 4 % 64 := by omega
          simp [encodeChars, tailChars, digitsFor, six_bits, Nat.shiftRight_eq_div_pow, Nat.shiftLeft_eq, hfirst, hsecond,
            hthird]
      | [a, b, c] =>
          have ha := a.toNat_lt
          have hb := b.toNat_lt
          have hc := c.toNat_lt
          have hfirst : ((a.toNat * 256 + b.toNat) * 256 + c.toNat) * 64 / 16777216 % 64 = a.toNat / 4 := by omega
          have hsecond : ((a.toNat * 256 + b.toNat) * 256 + c.toNat) * 64 / 262144 % 64 =
              (a.toNat * 16 + b.toNat / 16) % 64 := by
            omega
          have hthird : ((a.toNat * 256 + b.toNat) * 256 + c.toNat) * 64 / 4096 % 64 =
              (b.toNat * 4 + c.toNat / 64) % 64 := by
            omega
          have hfourth : ((a.toNat * 256 + b.toNat) * 256 + c.toNat) % 64 = c.toNat % 64 := by omega
          simp [encodeChars, tailChars, digitsFor, six_bits, Nat.shiftRight_eq_div_pow, Nat.shiftLeft_eq, hfirst, hsecond,
            hthird, hfourth]
      | a :: b :: c :: d :: rest => exact absurd rfl (hshort a b c d rest)

theorem encode_digits {encSize : Nat} {x text : List UInt8} (h : avBase64Encode encSize x = some text) :
    digitsOf text = digitsFor x ∧ validityCheck text = 0xfe := by
  rw [avBase64Encode] at h
  split at h
  · cases h
  · obtain ⟨hdigits, hbits⟩ := digitsOf_chars (digitsFor_lt x)
      (List.replicate ((4 - (encodeChars x).length % 4) % 4) 61)
    rw [(digitsOf_pads _).1, List.append_nil] at hdigits
    rw [(digitsOf_pads _).2] at hbits
    rw [← Option.some.inj h, encodeChars_eq] at *
    exact ⟨hdigits, hbits⟩

theorem decode_encode {encSize outSize : Nat} {x text : List UInt8} (h : avBase64Encode encSize x = some text)
    (hsize : x.length ≤ outSize) (buf : Nat → UInt8) :
    (avBase64Decode (some buf) text outSize).ret = x.length ∧
      ∀ i < x.length, (avBase64Decode (some buf) text outSize).out.bytes i = x.getD i 0 := by
  obtain ⟨hdigits, hbits⟩ := encode_digits h
  have hleaves := decode_leaves buf text outSize
  have hlength := length_bytesOf (digitsFor x)
  rw [bytesOf_digitsFor] at hlength
  have hkept : kept outSize (digitsOf text).length = x.length := by
    rw [kept, hdigits, hlength]
    split
    · omega
    · exact Nat.min_eq_right (by omega)
  have hbytes := hleaves.bytes
  rw [hkept, hdigits, bytesOf_digitsFor] at hbytes
  refine ⟨by rw [hleaves.ret, hbits, hkept, Nat.zero_add]; rfl, fun i hi => ?_⟩
  have hbyte := hbytes i hi
  rwa [Nat.zero_add] at hbyte

/-- Bytes that are written as text are read back, and a text is read inside the output
unless its last group overruns. -/
theorem base64_right_iff (buf : Nat → UInt8) :
    (∀ x : List UInt8, x.length < 1073741823 → ∀ encSize, (x.length + 2) / 3 * 4 + 1 ≤ encSize →
      ∃ text, avBase64Encode encSize x = some text ∧ ∀ outSize, x.length ≤ outSize →
        (avBase64Decode (some buf) text outSize).ret = x.length ∧
          ∀ i < x.length, (avBase64Decode (some buf) text outSize).out.bytes i = x.getD i 0) ∧
      ∀ (text : List UInt8) (outSize : Nat), StaysInside buf text outSize ↔ ¬Overruns text outSize := by
  refine ⟨fun x hx encSize hsize => ?_, fun text outSize => staysInside_iff⟩
  obtain ⟨text, htext⟩ : ∃ text, avBase64Encode encSize x = some text := by
    rw [avBase64Encode, if_neg (by omega)]
    exact ⟨_, rfl⟩
  exact ⟨text, htext, fun outSize hout => decode_encode htext hout buf⟩

/-- "QUI=" has two bytes; with room for one, both are written. -/
theorem overrun_of_one : (avBase64Decode (some fun _ => 0) [81, 85, 73, 61] 1).ret = 2 ∧
    1 ∈ (avBase64Decode (some fun _ => 0) [81, 85, 73, 61] 1).out.written ∧
    ¬StaysInside (fun _ => 0) [81, 85, 73, 61] 1 :=
  ⟨by decide, by decide, fun h => absurd (h.writes 1 (by decide)) (by decide)⟩

end RoundTrip

end P2PFFmpeg.Util
