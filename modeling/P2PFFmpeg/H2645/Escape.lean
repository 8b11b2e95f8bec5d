import P2PFFmpeg.H2645.Parse

namespace P2PFFmpeg.H2645

open Library.Scan Payload Util

def Suspect (src : List UInt8) (length j : Nat) : Prop :=
  j + 2 < length ∧ byteAt src j = 0 ∧ byteAt src (j + 1) = 0 ∧ byteAt src (j + 2) ≤ 3

theorem borrow_testBit {w k x c : Nat} (hk : 8 * k + 8 ≤ w) (hc : c < 2 ^ w)
    (hzero : x % 2 ^ (8 * k + 8) < 2 ^ (8 * k)) (hlo : 2 ^ (8 * k) ≤ c % 2 ^ (8 * k + 8))
    (hhi : c % 2 ^ (8 * k + 8) ≤ 2 ^ (8 * k + 7)) : ((2 ^ w - c + x) % 2 ^ w).testBit (8 * k + 7) = true := by
  have hdvd : 2 ^ (8 * k + 8) ∣ 2 ^ w := Nat.pow_dvd_pow 2 hk
  have hdouble : 2 ^ (8 * k + 8) = 2 ^ (8 * k + 7) * 2 := Nat.pow_succ 2 (8 * k + 7)
  have hlow : (2 ^ w - c + x) % 2 ^ (8 * k + 8) =
      2 ^ (8 * k + 8) + x % 2 ^ (8 * k + 8) - c % 2 ^ (8 * k + 8) := by
    obtain ⟨q, hq⟩ := hdvd
    have hcsplit := Nat.div_add_mod c (2 ^ (8 * k + 8))
    have hxsplit := Nat.div_add_mod x (2 ^ (8 * k + 8))
    have hcq : c / 2 ^ (8 * k + 8) < q := by
      refine Nat.div_lt_of_lt_mul ?_
      rw [← hq]
      exact hc
    have hsum : 2 ^ w - c + x = 2 ^ (8 * k + 8) * (q - c / 2 ^ (8 * k + 8) - 1 + x / 2 ^ (8 * k + 8)) +
        (2 ^ (8 * k + 8) + x % 2 ^ (8 * k + 8) - c % 2 ^ (8 * k + 8)) := by
      obtain ⟨d, hd⟩ := Nat.exists_eq_add_of_lt hcq
      have hmod := Nat.mod_lt c (Nat.two_pow_pos (8 * k + 8))
      generalize c / 2 ^ (8 * k + 8) = cq at *
      generalize x / 2 ^ (8 * k + 8) = xq at *
      generalize c % 2 ^ (8 * k + 8) = cr at *
      generalize x % 2 ^ (8 * k + 8) = xr at *
      generalize 2 ^ (8 * k + 8) = m at *
      rw [hq, ← hcsplit, ← hxsplit, hd, show cq + d + 1 - cq - 1 + xq = d + xq by omega]
      simp only [Nat.mul_add, Nat.mul_one]
      omega
    rw [hsum, Nat.mul_add_mod, Nat.mod_eq_of_lt]
    omega
  have hbit : ((2 ^ w - c + x) % 2 ^ (8 * k + 8)).testBit (8 * k + 7) = true := by
    rw [hlow, Nat.testBit_eq_decide_div_mod_eq, decide_eq_true_eq]
    have hdiv : (2 ^ (8 * k + 8) + x % 2 ^ (8 * k + 8) - c % 2 ^ (8 * k + 8)) / 2 ^ (8 * k + 7) = 1 := by
      refine Nat.div_eq_of_lt_le ?_ ?_ <;> omega
    rw [hdiv]
  rw [Nat.testBit_mod_two_pow] at hbit ⊢
  simp only [Bool.and_eq_true, decide_eq_true_eq] at hbit ⊢
  exact ⟨by omega, hbit.2⟩

theorem zeroBytes_ne {n x ones mask k : Nat} (hk : k < n) (hx : x < 2 ^ (8 * n)) (hones : ones < 2 ^ (8 * n))
    (hmask : mask.testBit (8 * k + 7) = true) (hzero : x % 2 ^ (8 * k + 8) < 2 ^ (8 * k))
    (hlo : 2 ^ (8 * k) ≤ ones % 2 ^ (8 * k + 8)) (hhi : ones % 2 ^ (8 * k + 8) ≤ 2 ^ (8 * k + 7)) :
    zeroBytes n x ones mask ≠ 0 := by
  have hxbit : x.testBit (8 * k + 7) = false := by
    have hmod : (x % 2 ^ (8 * k + 8)).testBit (8 * k + 7) = false :=
      Nat.testBit_lt_two_pow (Nat.lt_of_lt_of_le hzero (Nat.pow_le_pow_right (by decide) (by omega)))
    rw [Nat.testBit_mod_two_pow] at hmod
    simpa using hmod
  have hset : (zeroBytes n x ones mask).getLsbD (8 * k + 7) = true := by
    have hin : 8 * k + 7 < 8 * n := by omega
    have hborrow := borrow_testBit (by omega) hones hzero hlo hhi
    simp only [zeroBytes, BitVec.getLsbD_and, BitVec.getLsbD_not, BitVec.getLsbD_ofNat, hxbit, hmask]
    rw [BitVec.getLsbD, BitVec.toNat_sub, BitVec.toNat_ofNat, BitVec.toNat_ofNat, Nat.mod_eq_of_lt hx,
      Nat.mod_eq_of_lt hones, hborrow]
    simp [hin]
  intro hnone
  rw [hnone] at hset
  simp at hset

theorem bigEndian_zero_byte {l : List UInt8} {k : Nat} (hk : k < l.length)
    (hzero : l.getD (l.length - 1 - k) 0 = 0) : bigEndian l % 2 ^ (8 * k + 8) < 2 ^ (8 * k) := by
  have hindex : l.length - 1 - k < l.length := by omega
  rw [List.getD_eq_getElem _ _ hindex] at hzero
  have hsplit : l = l.take (l.length - 1 - k) ++ (0 :: l.drop (l.length - k)) := by
    conv_lhs => rw [← List.take_append_drop (l.length - 1 - k) l, List.drop_eq_getElem_cons hindex, hzero]
    rw [show l.length - 1 - k + 1 = l.length - k by omega]
  have hlen : (l.drop (l.length - k)).length = k := by
    rw [List.length_drop]
    omega
  have hlt := bigEndian_lt (l.drop (l.length - k))
  have hpow : (2 : Nat) ^ (8 * k) = 256 ^ k := by rw [Nat.pow_mul]
  have hpow' : (2 : Nat) ^ (8 * k + 8) = 256 ^ (k + 1) := by
    rw [show 8 * k + 8 = 8 * (k + 1) by ring, Nat.pow_mul]
  have htail : bigEndian (0 :: l.drop (l.length - k)) = bigEndian (l.drop (l.length - k)) := rfl
  rw [hsplit, bigEndian_append, List.length_cons, hlen, hpow', Nat.mul_comm, Nat.mul_add_mod, htail, hpow]
  rw [hlen] at hlt
  rw [Nat.mod_eq_of_lt]
  · exact hlt
  · exact Nat.lt_of_lt_of_le hlt (Nat.pow_le_pow_right (by decide) (Nat.le_succ k))

theorem readWord_lt (be : Bool) (n : Nat) (src : List UInt8) (i : Nat) : readWord be n src i < 2 ^ (8 * n) := by
  rw [Nat.pow_mul]
  have hlt : ∀ l : List UInt8, l.length = n → bigEndian l < 256 ^ n := by
    rintro l rfl
    exact bigEndian_lt l
  refine hlt _ ?_
  cases be <;> simp

theorem readWord_zero {be : Bool} {n k : Nat} {src : List UInt8} {i : Nat} (hk : k < n)
    (hzero : byteAt src (i + if be then n - 1 - k else k) = 0) :
    readWord be n src i % 2 ^ (8 * k + 8) < 2 ^ (8 * k) := by
  cases be with
  | true =>
      refine bigEndian_zero_byte (by simpa using hk) ?_
      simp only [if_true, List.length_map, List.length_range, List.getD_eq_getElem?_getD] at hzero ⊢
      rw [List.getElem?_map, List.getElem?_range (by omega)]
      exact hzero
  | false =>
      refine bigEndian_zero_byte (by simpa using hk) ?_
      simp only [Bool.false_eq_true, if_false, List.length_reverse, List.length_map, List.length_range,
        List.getD_eq_getElem?_getD] at hzero ⊢
      rw [List.getElem?_reverse (by simp; omega), List.getElem?_map, List.length_map, List.length_range,
        List.getElem?_range (by omega), show n - 1 - (n - 1 - k) = k by omega]
      exact hzero

variable {src : List UInt8} {length : Nat}

def Searched (src : List UInt8) (length : Nat) (r : Option (Nat × Nat)) : Prop :=
  ∃ i len, r = some (i, len) ∧
    (length ≤ i + 1 ∧ len = length ∧ (∀ j, ¬ Suspect src length j) ∨
      Suspect src length i ∧ (∀ j < i, ¬ Suspect src length j) ∧
        len = if byteAt src (i + 2) ≠ 3 ∧ byteAt src (i + 2) ≠ 0 then i else length)

def SearchedBelow (src : List UInt8) (length i : Nat) : Prop :=
  ∀ j, j + 1 < i → ¬ Suspect src length j

theorem SearchedBelow.done {i : Nat} (h : SearchedBelow src length i) (hi : length ≤ i + 1) :
    Searched src length (some (i, length)) := by
  refine ⟨i, length, rfl, .inl ⟨hi, rfl, fun j hj => ?_⟩⟩
  have hj2 := hj.1
  exact h j (by omega) hj

/-- The first zero is looked at: the search ends there or goes on two bytes further. -/
theorem SearchedBelow.look {i : Nat} (hbefore : ∀ j < i, ¬ Suspect src length j)
    (hzero : i + 2 < length → byteAt src i = 0) :
    (∃ len, startcodeTest src length i = some len ∧ Searched src length (some (i, len))) ∨
    startcodeTest src length i = none ∧ SearchedBelow src length (i + 2) := by
  rw [startcodeTest]
  split
  · rename_i h
    exact .inl ⟨_, rfl, i, _, rfl, .inr ⟨⟨h.1, hzero h.1, h.2⟩, hbefore, rfl⟩⟩
  · rename_i h
    refine .inr ⟨rfl, fun j hj hsuspect => ?_⟩
    by_cases hji : j < i
    · exact hbefore j hji hsuspect
    · obtain rfl : j = i := by omega
      exact h ⟨hsuspect.1, hsuspect.2.2⟩

theorem scanBytes_searched (fuel i : Nat) (hfuel : length - i < fuel) (h : SearchedBelow src length i) :
    Searched src length (scanBytes src length fuel i) := by
  induction fuel generalizing i with
  | zero => exact absurd hfuel (Nat.not_lt_zero _)
  | succ fuel ih =>
      rw [scanBytes]
      by_cases hmore : i + 1 < length
      · rw [if_pos hmore]
        by_cases hzero : byteAt src i = 0
        · rw [if_neg (not_not.mpr hzero)]
          obtain ⟨z, hz, hle, hbefore, hzz⟩ : ∃ z, (if i > 0 ∧ byteAt src (i - 1) = 0 then i - 1 else i) = z ∧
              i ≤ z + 1 ∧ (∀ j < z, ¬ Suspect src length j) ∧ byteAt src z = 0 := by
            by_cases hprev : i > 0 ∧ byteAt src (i - 1) = 0
            · exact ⟨i - 1, if_pos hprev, by omega, fun j hj => h j (by omega), hprev.2⟩
            · refine ⟨i, if_neg hprev, Nat.le_succ i, fun j hj hsuspect => ?_, hzero⟩
              by_cases hji : j + 1 < i
              · exact h j hji hsuspect
              · obtain rfl : i = j + 1 := by omega
                exact hprev ⟨Nat.succ_pos j, hsuspect.2.1⟩
          simp only [hz]
          obtain ⟨len, htest, hsearched⟩ | ⟨htest, hbelow⟩ := SearchedBelow.look hbefore fun _ => hzz
          · rw [htest]
            exact hsearched
          · rw [htest]
            exact ih _ (by omega) hbelow
        · rw [if_pos hzero]
          refine ih _ (by omega) fun j hj hsuspect => ?_
          by_cases hji : j + 1 < i
          · exact h j hji hsuspect
          · obtain rfl | rfl : j = i ∨ i = j + 1 := by omega
            · exact hzero hsuspect.2.1
            · exact hzero hsuspect.2.2.1
      · rw [if_neg hmore]
        exact h.done (by omega)

/-- Among two zeros that begin in a word one is tested, and the first byte of a word is. -/
structure WordScan.Sound (p : WordScan) (be : Bool) : Prop where
  back : p.stride = p.back + 2
  first : ∀ src i, byteAt src i = 0 → zeroBytes p.size (readWord be p.size src i) p.ones p.mask ≠ 0
  pair : ∀ src i o, o + 1 < p.stride → byteAt src (i + o) = 0 → byteAt src (i + o + 1) = 0 →
    zeroBytes p.size (readWord be p.size src i) p.ones p.mask ≠ 0

theorem findFirstZero_spec {i : Nat} (hi : i ≤ src.length) (h : SearchedBelow src length i) :
    i ≤ findFirstZero src i + 1 ∧ (∀ j < findFirstZero src i, ¬ Suspect src length j) ∧
      byteAt src (findFirstZero src i) = 0 := by
  have hbefore : ∀ start, start ≤ src.length →
      (∀ j < first (fun k => decide (byteAt src k = 0)) start src.length, start ≤ j → byteAt src j ≠ 0) ∧
      byteAt src (first (fun k => decide (byteAt src k = 0)) start src.length) = 0 := by
    intro start hstart
    induction hstart using Nat.decreasingInduction with
    | self =>
        rw [first_of_le (Nat.le_refl _)]
        exact ⟨fun j hj hle => absurd hj (by omega), by simp [byteAt]⟩
    | of_succ start hlt ih =>
        by_cases hzero : byteAt src start = 0
        · rw [first_here hlt (decide_eq_true hzero)]
          exact ⟨fun j hj hle => absurd hj (by omega), hzero⟩
        · rw [first_next hlt (decide_eq_false hzero)]
          refine ⟨fun j hj hle => ?_, ih.2⟩
          obtain rfl | hgt : j = start ∨ start + 1 ≤ j := by omega
          · exact hzero
          · exact ih.1 j hj hgt
  rw [findFirstZero]
  by_cases hprev : i > 0 ∧ byteAt src i = 0
  · rw [if_pos hprev]
    obtain ⟨hnone, hzero⟩ := hbefore (i - 1) (by omega)
    have hle := @le_first (fun k => decide (byteAt src k = 0)) (i - 1) src.length (by omega)
    refine ⟨by omega, fun j hj hsuspect => ?_, hzero⟩
    by_cases hji : j + 1 < i
    · exact h j hji hsuspect
    · exact hnone j hj (by omega) hsuspect.2.1
  · rw [if_neg hprev]
    obtain ⟨hnone, hzero⟩ := hbefore i hi
    have hle := @le_first (fun k => decide (byteAt src k = 0)) i src.length hi
    refine ⟨by omega, fun j hj hsuspect => ?_, hzero⟩
    by_cases hji : j + 1 < i
    · exact h j hji hsuspect
    · obtain hge | rfl : i ≤ j ∨ i = j + 1 := by omega
      · exact hnone j hj hge hsuspect.2.1
      · exact hprev ⟨Nat.succ_pos j, hsuspect.2.2.1⟩

theorem scanWords_searched {p : WordScan} {be : Bool} (hp : p.Sound be) (hlength : length ≤ src.length)
    (fuel i : Nat) (hfuel : length - i < fuel) (h : SearchedBelow src length i) :
    Searched src length (scanWords p be src length fuel i) := by
  induction fuel generalizing i with
  | zero => exact absurd hfuel (Nat.not_lt_zero _)
  | succ fuel ih =>
      rw [scanWords]
      by_cases hmore : i + 1 < length
      · rw [if_pos hmore]
        by_cases hword : zeroBytes p.size (readWord be p.size src i) p.ones p.mask = 0
        · rw [if_pos hword]
          have hback := hp.back
          refine ih _ (by omega) fun j hj hsuspect => ?_
          by_cases hji : j + 1 < i
          · exact h j hji hsuspect
          · obtain rfl | ⟨o, rfl⟩ : i = j + 1 ∨ ∃ o, j = i + o := by
              by_cases hle : i ≤ j
              · exact .inr ⟨j - i, by omega⟩
              · exact .inl (by omega)
            · exact hp.first src _ hsuspect.2.2.1 hword
            · exact hp.pair src i o (by omega) hsuspect.2.1 hsuspect.2.2.1 hword
        · rw [if_neg hword]
          obtain ⟨hle, hbefore, hzero⟩ := findFirstZero_spec (by omega) h
          obtain ⟨len, htest, hsearched⟩ | ⟨htest, hbelow⟩ := SearchedBelow.look hbefore fun _ => hzero
          · simp only [htest]
            exact hsearched
          · simp only [htest]
            have hback := hp.back
            rw [show findFirstZero src i + p.stride - p.back = findFirstZero src i + 2 by omega]
            exact ih _ (by omega) hbelow
      · rw [if_neg hmore]
        exact h.done (by omega)

theorem scan64_sound (be : Bool) : scan64.Sound be := by
  have htest : ∀ src i k, k ∈ [0, 1, 3, 5, 7] → byteAt src (i + if be then 7 - k else k) = 0 →
      zeroBytes 8 (readWord be 8 src i) scan64.ones scan64.mask ≠ 0 := by
    intro src i k hk hzero
    have hfacts : ∀ k ∈ [0, 1, 3, 5, 7], k < 8 ∧ scan64.mask.testBit (8 * k + 7) = true ∧
        2 ^ (8 * k) ≤ scan64.ones % 2 ^ (8 * k + 8) ∧ scan64.ones % 2 ^ (8 * k + 8) ≤ 2 ^ (8 * k + 7) := by
      decide +kernel
    obtain ⟨hlt, hmask, hlo, hhi⟩ := hfacts k hk
    exact zeroBytes_ne hlt (readWord_lt be 8 src i) (by decide +kernel) hmask (readWord_zero hlt hzero) hlo hhi
  refine ⟨rfl, fun src i hzero => ?_, fun src i o ho h₀ h₁ => ?_⟩
  · cases be with
    | true => exact htest src i 7 (by decide) hzero
    | false => exact htest src i 0 (by decide) hzero
  · have ho' : o < 8 := Nat.lt_of_succ_lt_succ ho
    cases be with
    | true =>
        obtain rfl | rfl | rfl | rfl | rfl | rfl | rfl | rfl : o = 0 ∨ o = 1 ∨ o = 2 ∨ o = 3 ∨ o = 4 ∨
          o = 5 ∨ o = 6 ∨ o = 7 := by omega
        · exact htest src i 7 (by decide) h₀
        · exact htest src i 5 (by decide) h₁
        · exact htest src i 5 (by decide) h₀
        · exact htest src i 3 (by decide) h₁
        · exact htest src i 3 (by decide) h₀
        · exact htest src i 1 (by decide) h₁
        · exact htest src i 1 (by decide) h₀
        · exact htest src i 0 (by decide) h₀
    | false =>
        obtain rfl | rfl | rfl | rfl | rfl | rfl | rfl | rfl : o = 0 ∨ o = 1 ∨ o = 2 ∨ o = 3 ∨ o = 4 ∨
          o = 5 ∨ o = 6 ∨ o = 7 := by omega
        · exact htest src i 0 (by decide) h₀
        · exact htest src i 1 (by decide) h₀
        · exact htest src i 3 (by decide) h₁
        · exact htest src i 3 (by decide) h₀
        · exact htest src i 5 (by decide) h₁
        · exact htest src i 5 (by decide) h₀
        · exact htest src i 7 (by decide) h₁
        · exact htest src i 7 (by decide) h₀

theorem scan32_sound (be : Bool) : scan32.Sound be := by
  have htest : ∀ src i k, k ∈ [0, 1, 3] → byteAt src (i + if be then 3 - k else k) = 0 →
      zeroBytes 4 (readWord be 4 src i) scan32.ones scan32.mask ≠ 0 := by
    intro src i k hk hzero
    have hfacts : ∀ k ∈ [0, 1, 3], k < 4 ∧ scan32.mask.testBit (8 * k + 7) = true ∧
        2 ^ (8 * k) ≤ scan32.ones % 2 ^ (8 * k + 8) ∧ scan32.ones % 2 ^ (8 * k + 8) ≤ 2 ^ (8 * k + 7) := by
      decide +kernel
    obtain ⟨hlt, hmask, hlo, hhi⟩ := hfacts k hk
    exact zeroBytes_ne hlt (readWord_lt be 4 src i) (by decide +kernel) hmask (readWord_zero hlt hzero) hlo hhi
  refine ⟨rfl, fun src i hzero => ?_, fun src i o ho h₀ h₁ => ?_⟩
  · cases be with
    | true => exact htest src i 3 (by decide) hzero
    | false => exact htest src i 0 (by decide) hzero
  · have ho' : o < 4 := Nat.lt_of_succ_lt_succ ho
    cases be with
    | true =>
        obtain rfl | rfl | rfl | rfl : o = 0 ∨ o = 1 ∨ o = 2 ∨ o = 3 := by omega
        · exact htest src i 3 (by decide) h₀
        · exact htest src i 1 (by decide) h₁
        · exact htest src i 1 (by decide) h₀
        · exact htest src i 0 (by decide) h₀
    | false =>
        obtain rfl | rfl | rfl | rfl : o = 0 ∨ o = 1 ∨ o = 2 ∨ o = 3 := by omega
        · exact htest src i 0 (by decide) h₀
        · exact htest src i 1 (by decide) h₀
        · exact htest src i 3 (by decide) h₁
        · exact htest src i 3 (by decide) h₀

theorem scan_searched (b : ScanBuild) (hlength : length ≤ src.length) :
    Searched src length (scan b src length) := by
  have hstart : SearchedBelow src length 0 := fun j hj => absurd hj (Nat.not_lt_zero _)
  cases b with
  | bytes => exact scanBytes_searched _ _ (by omega) hstart
  | words32 be => exact scanWords_searched (scan32_sound be) hlength _ _ (by omega) hstart
  | words64 be => exact scanWords_searched (scan64_sound be) hlength _ _ (by omega) hstart

end P2PFFmpeg.H2645
