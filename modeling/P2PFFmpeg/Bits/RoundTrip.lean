import P2PFFmpeg.Bits.Golomb

namespace P2PFFmpeg.Bits

open Library.BitField Payload Util

inductive Write
  | putBits (n value : Nat)
  | putBits32 (value : Nat)
  | putBits64 (n value : Nat)
  | setUeGolomb (i : Nat)
  | setUeGolombLong (i : Nat)
  | setSeGolomb (i : Int)
  | cbsWriteUeGolomb (value rangeMin rangeMax : Nat)
  | cbsWriteSeGolomb (value rangeMin rangeMax : Int)
  | ffCbsWriteUnsigned (width value rangeMin rangeMax : Nat)

/-- The result is 0 where the function has none. -/
def Write.run (w : BitBuf) (s : PutBitContext) : Write → Option (Int × PutBitContext)
  | putBits n value => some (0, Bits.putBits w n value s)
  | putBits32 value => some (0, Bits.putBits32 w value s)
  | putBits64 n value => some (0, Bits.putBits64 w n value s)
  | setUeGolomb i => some (0, Bits.setUeGolomb w i s)
  | setUeGolombLong i => some (0, Bits.setUeGolombLong w i s)
  | setSeGolomb i => some (0, Bits.setSeGolomb w i s)
  | cbsWriteUeGolomb value rangeMin rangeMax => Bits.cbsWriteUeGolomb w value rangeMin rangeMax s
  | cbsWriteSeGolomb value rangeMin rangeMax => Bits.cbsWriteSeGolomb w value rangeMin rangeMax s
  | ffCbsWriteUnsigned width value rangeMin rangeMax =>
      Bits.ffCbsWriteUnsigned w width value rangeMin rangeMax s

def Write.Admissible : Write → Prop
  | putBits n value => n ≤ 31 ∧ value < 2 ^ n
  | putBits32 value => value < 2 ^ 32
  | putBits64 n value => n ≤ 64 ∧ value < 2 ^ n
  | setUeGolomb i => i ≤ 0xfffe
  | setUeGolombLong i => i < uint32Max
  | setSeGolomb i => -32767 ≤ i ∧ i ≤ 32767
  | cbsWriteUeGolomb value rangeMin rangeMax => rangeMin ≤ value ∧ value ≤ rangeMax ∧ value < uint32Max
  | cbsWriteSeGolomb value rangeMin rangeMax =>
      rangeMin ≤ value ∧ value ≤ rangeMax ∧ -2147483648 < value ∧ value < 2147483648
  | ffCbsWriteUnsigned width value rangeMin rangeMax =>
      0 < width ∧ width ≤ 32 ∧ value < 2 ^ width ∧ rangeMin ≤ value ∧ value ≤ rangeMax

def Write.IsCbs : Write → Prop
  | cbsWriteUeGolomb .. | cbsWriteSeGolomb .. | ffCbsWriteUnsigned .. => True
  | _ => False

def Write.code : Write → Nat
  | putBits _ value | putBits32 value | putBits64 _ value | ffCbsWriteUnsigned _ value _ _ => value
  | setUeGolomb i | setUeGolombLong i | cbsWriteUeGolomb i _ _ => i + 1
  | setSeGolomb i | cbsWriteSeGolomb i _ _ => signedCode i

def Write.bits : Write → Nat
  | putBits n _ | putBits64 n _ | ffCbsWriteUnsigned n _ _ _ => n
  | putBits32 _ => 32
  | setUeGolomb i | setUeGolombLong i | cbsWriteUeGolomb i _ _ => golombLength (i + 1)
  | setSeGolomb i | cbsWriteSeGolomb i _ _ => golombLength (signedCode i)

def Write.value : Write → Int
  | putBits _ value | putBits32 value | putBits64 _ value | ffCbsWriteUnsigned _ value _ _ => value
  | setUeGolomb i | setUeGolombLong i | cbsWriteUeGolomb i _ _ => i
  | setSeGolomb i | cbsWriteSeGolomb i _ _ => i

inductive Read
  | getBitsLong (n : Nat)
  | getBits64 (n : Nat)
  | getUeGolomb
  | getUeGolombLong
  | getSeGolombLong
  | cbsReadUeGolomb (rangeMin rangeMax : Nat)
  | cbsReadSeGolomb (rangeMin rangeMax : Int)
  | ffCbsReadUnsigned (width rangeMin rangeMax : Nat)

/-- `none` is an error or a failed assertion. -/
def Read.run (b : ReaderBuild) (s : GetBitContext) : Read → Option (Int × GetBitContext)
  | getBitsLong n => some (Prod.map Nat.cast id (Bits.getBitsLong b n s))
  | getBits64 n => some (Prod.map Nat.cast id (Bits.getBits64 b n s))
  | getUeGolomb => some (Bits.getUeGolomb b s)
  | getUeGolombLong => some (Prod.map Nat.cast id (Bits.getUeGolombLong b s))
  | getSeGolombLong => some (Bits.getSeGolombLong b s)
  | cbsReadUeGolomb rangeMin rangeMax =>
      (Bits.cbsReadUeGolomb b rangeMin rangeMax s).toOption.map (Prod.map Nat.cast id)
  | cbsReadSeGolomb rangeMin rangeMax => (Bits.cbsReadSeGolomb b rangeMin rangeMax s).toOption
  | ffCbsReadUnsigned width rangeMin rangeMax =>
      (Bits.ffCbsReadUnsigned b width rangeMin rangeMax s).bind fun r =>
        r.toOption.map (Prod.map Nat.cast id)

/-- The readers of what a call writes. A range in which the value is read is any that
holds it. -/
def Write.ReadBy : Write → Read → Prop
  | putBits n _, .getBitsLong m | putBits n _, .getBits64 m | putBits64 n _, .getBits64 m => m = n
  | putBits32 _, .getBitsLong m | putBits32 _, .getBits64 m => m = 32
  | putBits64 n _, .getBitsLong m => m = n ∧ n ≤ 32
  | setUeGolomb i, .getUeGolomb | setUeGolombLong i, .getUeGolomb => i ≤ 8190
  | setUeGolomb _, .getUeGolombLong | setUeGolombLong _, .getUeGolombLong => True
  | setSeGolomb _, .getSeGolombLong => True
  | cbsWriteUeGolomb value _ _, .cbsReadUeGolomb rangeMin rangeMax => rangeMin ≤ value ∧ value ≤ rangeMax
  | cbsWriteSeGolomb value _ _, .cbsReadSeGolomb rangeMin rangeMax => rangeMin ≤ value ∧ value ≤ rangeMax
  | ffCbsWriteUnsigned width value _ _, .ffCbsReadUnsigned m rangeMin rangeMax =>
      m = width ∧ rangeMin ≤ value ∧ value ≤ rangeMax
  | _, _ => False

def writeAll (w : BitBuf) : List Write → PutBitContext → Option PutBitContext
  | [], s => some s
  | op :: ops, s => (op.run w s).bind fun (ret, s) => if ret = 0 then writeAll w ops s else none

def readAll (b : ReaderBuild) : List Read → GetBitContext → Option (List Int × GetBitContext)
  | [], s => some ([], s)
  | op :: ops, s => (op.run b s).bind fun (value, s) =>
      (readAll b ops s).map fun (values, s) => (value :: values, s)

def bitsOf : List Write → Nat
  | [] => 0
  | op :: ops => op.bits + bitsOf ops

def codeOf : List Write → Nat
  | [] => 0
  | op :: ops => op.code * 2 ^ bitsOf ops + codeOf ops

variable {w : BitBuf} {b : ReaderBuild} {size count value : Nat} {s : PutBitContext} {g : GetBitContext}

theorem signedCode_pos (i : Int) : 0 < signedCode i := by
  rw [signedCode]
  split <;> omega

theorem signedCode_le {i : Int} (hlo : -2147483648 < i) (hhi : i < 2147483648) : signedCode i ≤ uint32Max := by
  rw [signedCode, uint32Max]
  split <;> omega

theorem Write.code_lt {op : Write} (h : op.Admissible) : op.code < 2 ^ op.bits := by
  cases op with
  | putBits n v => exact h.2
  | putBits32 v => exact h
  | putBits64 n v => exact h.2
  | setUeGolomb i => exact lt_golomb _
  | setUeGolombLong i => exact lt_golomb _
  | setSeGolomb i => exact lt_golomb _
  | cbsWriteUeGolomb v lo hi => exact lt_golomb _
  | cbsWriteSeGolomb v lo hi => exact lt_golomb _
  | ffCbsWriteUnsigned n v lo hi => exact h.2.2.1

theorem cbsWriteUeGolomb_eq {v lo hi : Nat} (h : (Write.cbsWriteUeGolomb v lo hi).Admissible) :
    (Write.cbsWriteUeGolomb v lo hi).run w s = some (cbsPutGolomb w (v + 1) s) := by
  obtain ⟨hlo, hhi, hmax⟩ := h
  rw [Write.run, cbsWriteUeGolomb, if_neg (by omega), if_neg (Nat.ne_of_lt hmax)]

theorem cbsWriteSeGolomb_eq {v lo hi : Int} (h : (Write.cbsWriteSeGolomb v lo hi).Admissible) :
    (Write.cbsWriteSeGolomb v lo hi).run w s = some (cbsPutGolomb w (signedCode v) s) := by
  obtain ⟨hlo, hhi, hmin, -⟩ := h
  have hcode : (if v = 0 then 0 else if v > 0 then 2 * v.toNat - 1 else 2 * (-v).toNat) + 1 = signedCode v := by
    rw [signedCode]
    split
    · rename_i hzero
      rw [hzero]
      rfl
    · split <;> omega
  rw [Write.run, cbsWriteSeGolomb, if_neg (by omega), if_neg (by omega)]
  simp only [hcode]

theorem ffCbsWriteUnsigned_eq {n v lo hi : Nat} (h : (Write.ffCbsWriteUnsigned n v lo hi).Admissible) :
    (Write.ffCbsWriteUnsigned n v lo hi).run w s =
      if putBitsLeft w s < n then some (averrorEnospc, s)
      else some (0, if n < 32 then putBits w n v s else putBits32 w v s) := by
  obtain ⟨hpos, hle, -, hlo, hhi⟩ := h
  rw [Write.run, ffCbsWriteUnsigned, if_neg (not_not.mpr ⟨hpos, hle⟩), if_neg (by omega)]

theorem Write.run_written {op : Write} (h : Written w size s count value) (hop : op.Admissible)
    (hroom : count + op.bits ≤ 8 * size) :
    ∃ t, op.run w s = some (0, t) ∧ Written w size t (count + op.bits) (value * 2 ^ op.bits + op.code) := by
  cases op with
  | putBits n v => exact ⟨_, rfl, putBits_written h hop.1 hop.2 hroom⟩
  | putBits32 v => exact ⟨_, rfl, putBits32_written h hop hroom⟩
  | putBits64 n v => exact ⟨_, rfl, putBits64_written h hop.1 hop.2 hroom⟩
  | setUeGolomb i => exact ⟨_, rfl, setUeGolomb_written h hop hroom⟩
  | setUeGolombLong i => exact ⟨_, rfl, setUeGolombLong_written h hop hroom⟩
  | setSeGolomb i =>
      obtain ⟨hlo, hhi⟩ := hop
      have hcode : signedCode i - 1 + 1 = signedCode i := Nat.sub_add_cancel (signedCode_pos i)
      have hsmall : signedCode i - 1 ≤ 0xfffe := by
        rw [signedCode]
        split <;> omega
      have hput := @setUeGolomb_written w size count value _ s h hsmall (by rw [hcode]; exact hroom)
      rw [hcode, ← setSeGolomb_eq] at hput
      exact ⟨_, rfl, hput⟩
  | cbsWriteUeGolomb v lo hi =>
      obtain ⟨t, hput, ht⟩ := cbsPutGolomb_written h (Nat.succ_pos v) hop.2.2 hroom
      exact ⟨t, (cbsWriteUeGolomb_eq hop).trans (congrArg some hput), ht⟩
  | cbsWriteSeGolomb v lo hi =>
      obtain ⟨t, hput, ht⟩ := cbsPutGolomb_written h (signedCode_pos v)
        (signedCode_le hop.2.2.1 hop.2.2.2) hroom
      exact ⟨t, (cbsWriteSeGolomb_eq hop).trans (congrArg some hput), ht⟩
  | ffCbsWriteUnsigned n v lo hi =>
      have hleft : ¬ putBitsLeft w s < n := by
        rw [h.putBitsLeft]
        simp only [Write.bits] at hroom
        omega
      rw [ffCbsWriteUnsigned_eq hop, if_neg hleft]
      refine ⟨_, rfl, ?_⟩
      by_cases hshort : n < 32
      · rw [if_pos hshort]
        exact putBits_written h (Nat.le_of_lt_succ hshort) hop.2.2.1 hroom
      · obtain rfl : n = 32 := by
          have hle := hop.2.1
          omega
        rw [if_neg hshort]
        exact putBits32_written h hop.2.2.1 hroom

theorem Write.run_full {op : Write} (h : Written w size s count value) (hop : op.Admissible)
    (hcbs : op.IsCbs) (hroom : ¬ count + op.bits ≤ 8 * size) : op.run w s = some (averrorEnospc, s) := by
  cases op with
  | cbsWriteUeGolomb v lo hi => exact (cbsWriteUeGolomb_eq hop).trans (congrArg some (cbsPutGolomb_full h hroom))
  | cbsWriteSeGolomb v lo hi => exact (cbsWriteSeGolomb_eq hop).trans (congrArg some (cbsPutGolomb_full h hroom))
  | ffCbsWriteUnsigned n v lo hi =>
      rw [ffCbsWriteUnsigned_eq hop, if_pos]
      rw [h.putBitsLeft]
      simp only [Write.bits] at hroom
      omega
  | _ => exact absurd hcbs id

theorem Read.getBitsLong_run {n v : Nat} (hn : n ≤ 32) (hreading : Reading g n) (hahead : g.ahead n = v) :
    (Read.getBitsLong n).run b g = some ((v : Int), { g with index := g.index + n }) := by
  rw [Read.run, getBitsLong_eq hreading hn, ← hahead]
  rfl

theorem Read.getBits64_run {n v : Nat} (hn : n ≤ 64) (hreading : Reading g n) (hahead : g.ahead n = v) :
    (Read.getBits64 n).run b g = some ((v : Int), { g with index := g.index + n }) := by
  rw [Read.run, getBits64_eq hreading hn, ← hahead]
  rfl

theorem Write.readBy_reads {op : Write} {rd : Read} (hop : op.Admissible) (hread : op.ReadBy rd)
    (hreading : Reading g op.bits) (hahead : g.ahead op.bits = op.code) :
    rd.run b g = some (op.value, { g with index := g.index + op.bits }) := by
  cases op with
  | putBits n v =>
      cases rd with
      | getBitsLong m =>
          cases hread
          exact Read.getBitsLong_run (Nat.le_succ_of_le hop.1) hreading hahead
      | getBits64 m =>
          cases hread
          exact Read.getBits64_run (Nat.le_trans hop.1 (by decide)) hreading hahead
      | _ => exact absurd hread id
  | putBits32 v =>
      cases rd with
      | getBitsLong m =>
          cases hread
          exact Read.getBitsLong_run (Nat.le_refl _) hreading hahead
      | getBits64 m =>
          cases hread
          exact Read.getBits64_run (by decide) hreading hahead
      | _ => exact absurd hread id
  | putBits64 n v =>
      cases rd with
      | getBitsLong m =>
          obtain ⟨rfl, hshort⟩ := hread
          exact Read.getBitsLong_run hshort hreading hahead
      | getBits64 m =>
          cases hread
          exact Read.getBits64_run hop.1 hreading hahead
      | _ => exact absurd hread id
  | setUeGolomb i =>
      have hfacing : Facing (i + 1) g := .mk' (Nat.succ_pos i) hreading hahead
      cases rd with
      | getUeGolomb => exact congrArg some (getUeGolomb_eq hfacing hread)
      | getUeGolombLong =>
          have hmax : i < uint32Max := Nat.lt_of_le_of_lt hop (by decide)
          rw [Read.run, getUeGolombLong_eq hfacing hmax]
          rfl
      | _ => exact absurd hread id
  | setUeGolombLong i =>
      have hfacing : Facing (i + 1) g := .mk' (Nat.succ_pos i) hreading hahead
      cases rd with
      | getUeGolomb => exact congrArg some (getUeGolomb_eq hfacing hread)
      | getUeGolombLong =>
          rw [Read.run, getUeGolombLong_eq hfacing hop]
          rfl
      | _ => exact absurd hread id
  | setSeGolomb i =>
      have hfacing : Facing (signedCode i) g := .mk' (signedCode_pos i) hreading hahead
      cases rd with
      | getSeGolombLong => exact congrArg some (getSeGolombLong_eq hop.1 hop.2 hfacing)
      | _ => exact absurd hread id
  | cbsWriteUeGolomb v lo hi =>
      have hfacing : Facing (v + 1) g := .mk' (Nat.succ_pos v) hreading hahead
      cases rd with
      | cbsReadUeGolomb rangeMin rangeMax =>
          have hmax : v + 1 ≤ uint32Max := hop.2.2
          obtain ⟨hmin, hmax'⟩ := hread
          have hvalue : uint32Pred (v + 1) = v := rfl
          rw [Read.run, cbsReadUeGolomb, cbsGetGolomb_eq hfacing (Nat.succ_pos v) hmax]
          simp only [Except.bind]
          rw [if_neg (by rw [hvalue]; omega), hvalue]
          rfl
      | _ => exact absurd hread id
  | cbsWriteSeGolomb v lo hi =>
      have hfacing : Facing (signedCode v) g := .mk' (signedCode_pos v) hreading hahead
      cases rd with
      | cbsReadSeGolomb rangeMin rangeMax =>
          obtain ⟨hmin, hmax⟩ := hread
          have hvalue : (if signedCode v % 2 = 1 then -((signedCode v / 2 : Nat) : Int)
              else ((signedCode v / 2 : Nat) : Int)) = v := by
            rw [signedCode]
            split <;> split <;> omega
          rw [Read.run, cbsReadSeGolomb, cbsGetGolomb_eq hfacing (signedCode_pos v)
            (signedCode_le hop.2.2.1 hop.2.2.2)]
          simp only [Except.bind, hvalue]
          rw [if_neg (by omega)]
          rfl
      | _ => exact absurd hread id
  | ffCbsWriteUnsigned n v lo hi =>
      cases rd with
      | ffCbsReadUnsigned m rangeMin rangeMax =>
          obtain ⟨rfl, hmin, hmax⟩ := hread
          have hleft : ¬ getBitsLeft g < m := by
            have hwithin := hreading.within
            simp only [Write.bits] at hwithin
            rw [getBitsLeft]
            omega
          have hfield : getBitsLong b m g = (v, { g with index := g.index + m }) :=
            (getBitsLong_eq hreading hop.2.1).trans (congrArg (·, _) hahead)
          rw [Read.run, ffCbsReadUnsigned, if_neg (not_not.mpr ⟨hop.1, hop.2.1⟩), if_neg hleft, hfield]
          simp only
          rw [if_neg (by omega)]
          rfl
      | _ => exact absurd hread id

theorem codeOf_lt {ops : List Write} (h : ∀ op ∈ ops, op.Admissible) : codeOf ops < 2 ^ bitsOf ops := by
  induction ops with
  | nil => exact Nat.one_pos
  | cons op ops ih =>
      have hop := Write.code_lt (h op (by simp))
      have hops := ih fun op' hop' => h op' (by simp [hop'])
      calc codeOf (op :: ops) = op.code * 2 ^ bitsOf ops + codeOf ops := rfl
        _ < op.code * 2 ^ bitsOf ops + 2 ^ bitsOf ops := Nat.add_lt_add_left hops _
        _ = (op.code + 1) * 2 ^ bitsOf ops := (Nat.succ_mul _ _).symm
        _ ≤ 2 ^ op.bits * 2 ^ bitsOf ops := Nat.mul_le_mul_right _ hop
        _ = 2 ^ bitsOf (op :: ops) := (Nat.pow_add _ _ _).symm

theorem writeAll_written {ops : List Write} (h : Written w size s count value)
    (hops : ∀ op ∈ ops, op.Admissible) (hroom : count + bitsOf ops ≤ 8 * size) :
    ∃ t, writeAll w ops s = some t ∧
      Written w size t (count + bitsOf ops) (value * 2 ^ bitsOf ops + codeOf ops) := by
  induction ops generalizing s count value with
  | nil => exact ⟨s, rfl, by simpa [bitsOf, codeOf] using h⟩
  | cons op ops ih =>
      rw [bitsOf] at hroom
      obtain ⟨t, hrun, ht⟩ := Write.run_written h (hops op (by simp)) (by omega)
      obtain ⟨u, hall, hu⟩ := ih ht (fun op' hop' => hops op' (by simp [hop'])) (by omega)
      refine ⟨u, ?_, ?_⟩
      · rw [writeAll, hrun]
        exact hall
      · have hvalue : (value * 2 ^ op.bits + op.code) * 2 ^ bitsOf ops + codeOf ops =
            value * 2 ^ (op.bits + bitsOf ops) + (op.code * 2 ^ bitsOf ops + codeOf ops) := by
          rw [Nat.pow_add]
          ring
        rw [hvalue, Nat.add_assoc] at hu
        exact hu

theorem readAll_reads {calls : List (Write × Read)} (h : ∀ c ∈ calls, c.1.Admissible ∧ c.1.ReadBy c.2)
    (hreading : Reading g (bitsOf (calls.map Prod.fst)))
    (hahead : g.ahead (bitsOf (calls.map Prod.fst)) = codeOf (calls.map Prod.fst)) :
    readAll b (calls.map Prod.snd) g = some (calls.map fun c => c.1.value,
      { g with index := g.index + bitsOf (calls.map Prod.fst) }) := by
  induction calls generalizing g with
  | nil => rfl
  | cons c calls ih =>
      have hc := h c (by simp)
      have hrest : ∀ c' ∈ calls, c'.1.Admissible ∧ c'.1.ReadBy c'.2 := fun c' hc' => h c' (by simp [hc'])
      simp only [List.map_cons, bitsOf, codeOf] at hreading hahead ⊢
      have hlow : codeOf (calls.map Prod.fst) < 2 ^ bitsOf (calls.map Prod.fst) := by
        refine codeOf_lt fun op hop => ?_
        obtain ⟨c', hc', rfl⟩ := List.mem_map.mp hop
        exact (hrest c' hc').1
      obtain ⟨hfirst, hothers⟩ := window_of_append hlow hahead
      have hrun := @Write.readBy_reads b g c.1 c.2 hc.1 hc.2 (hreading.mono (Nat.le_add_right _ _)) hfirst
      rw [readAll, hrun]
      simp only [Option.bind_some]
      rw [ih hrest hreading.skip hothers]
      simp only [Option.map_some, Nat.add_assoc]

theorem window_take (buf : List UInt8) (k : Nat) (hk : k ≤ buf.length) :
    window (bitAt buf) 0 (8 * k) = bigEndian (buf.take k) := by
  induction k with
  | zero => rfl
  | succ k ih =>
      have hbyte : byteAt buf k = buf[k] := by
        rw [byteAt, List.getD_eq_getElem _ _ hk]
      rw [Nat.mul_succ, window_add, ih (Nat.le_of_succ_le hk), Nat.zero_add, window_byte, hbyte,
        List.take_succ_eq_append_getElem hk, bigEndian_append]
      change _ = _ * 256 ^ 1 + bigEndian [buf[k]]
      rw [show bigEndian [buf[k]] = (buf[k]).toNat from Nat.zero_add _]
      simp only [Nat.reducePow]

theorem flushed_window {padding : List UInt8} {t : PutBitContext} (hwritten : Written w size s count value)
    (hflush : flushPutBits w s = some t) :
    t.buf.length = size ∧ window (bitAt (t.buf ++ padding)) 0 count = value := by
  obtain ⟨u, hu, hlen, hptr, hbytes⟩ := flushPutBits_spec hwritten
  rw [hflush] at hu
  cases hu
  refine ⟨hlen, ?_⟩
  have hroom := hwritten.room
  have hle : t.bufPtr ≤ t.buf.length := by omega
  have hall := window_take (t.buf ++ padding) t.bufPtr (by rw [List.length_append]; omega)
  rw [List.take_append_of_le_length hle, hbytes, hptr] at hall
  have hdiv := window_div (bitAt (t.buf ++ padding)) 0 count (8 * ((count + 7) / 8) - count)
  rw [show count + (8 * ((count + 7) / 8) - count) = 8 * ((count + 7) / 8) by omega, hall,
    Nat.mul_div_cancel _ (Nat.two_pow_pos _)] at hdiv
  exact hdiv.symm

/-- What is written with enough room is read back by the matching calls, up to the position
that the writer reports; and a writer of coded bitstreams fails where the code does not fit
into the bits that are left, with nothing written. -/
theorem bits_round_trip (w : BitBuf) (b : ReaderBuild) (buffer padding : List UInt8)
    (calls : List (Write × Read)) (bitSize : Nat)
    (hcalls : ∀ c ∈ calls, c.1.Admissible ∧ c.1.ReadBy c.2)
    (hroom : bitsOf (calls.map Prod.fst) ≤ 8 * buffer.length) (hsmall : 8 * buffer.length ≤ intMax)
    (hwritten : bitsOf (calls.map Prod.fst) ≤ bitSize) (hinit : bitSize < intMax - 512) :
    ∃ s t g, writeAll w (calls.map Prod.fst) (initPutBits w buffer) = some s ∧
      flushPutBits w s = some t ∧ t.buf.length = buffer.length ∧
      (initGetBits (t.buf ++ padding) bitSize).1 = 0 ∧
      readAll b (calls.map Prod.snd) (initGetBits (t.buf ++ padding) bitSize).2 =
        some (calls.map fun c => c.1.value, g) ∧
      (g.index : Int) = putBitsCount w s ∧
      ∀ op : Write, op.Admissible → op.IsCbs → ∃ ret u, op.run w s = some (ret, u) ∧
        (putBitsLeft w s < op.bits → ret = averrorEnospc ∧ u = s) ∧
        (op.bits ≤ putBitsLeft w s → ret = 0 ∧ u.buf.length = buffer.length ∧
          putBitsCount w u = putBitsCount w s + op.bits) := by
  have hops : ∀ op ∈ calls.map Prod.fst, op.Admissible := by
    intro op hop
    obtain ⟨c, hc, rfl⟩ := List.mem_map.mp hop
    exact (hcalls c hc).1
  obtain ⟨s, hall, hs⟩ := writeAll_written (initPutBits_written w hsmall) hops (by omega)
  rw [Nat.zero_add, Nat.zero_mul, Nat.zero_add] at hs
  obtain ⟨t, hflush, -⟩ := flushPutBits_spec hs
  obtain ⟨hlen, hwindow⟩ := @flushed_window w _ _ _ s padding t hs hflush
  have hstart : initGetBits (t.buf ++ padding) bitSize = (0, ⟨t.buf ++ padding, 0, bitSize, bitSize + 8⟩) :=
    if_neg (Nat.not_le.mpr hinit)
  have hread := @readAll_reads b ⟨t.buf ++ padding, 0, bitSize, bitSize + 8⟩ calls hcalls
    ⟨rfl, by simpa using hwritten⟩ hwindow
  refine ⟨s, t, _, hall, hflush, hlen, congrArg Prod.fst hstart, by rw [hstart]; exact hread, ?_, ?_⟩
  · rw [hs.putBitsCount]
    simp only [Nat.zero_add]
  · intro op hop hcbs
    by_cases hfits : bitsOf (calls.map Prod.fst) + op.bits ≤ 8 * buffer.length
    · obtain ⟨u, hrun, hu⟩ := Write.run_written hs hop hfits
      refine ⟨0, u, hrun, fun hleft => ?_, fun _ => ⟨rfl, hu.sizeEq, ?_⟩⟩
      · rw [hs.putBitsLeft] at hleft
        omega
      · rw [hu.putBitsCount, hs.putBitsCount, Nat.cast_add]
    · refine ⟨averrorEnospc, s, Write.run_full hs hop hcbs hfits, fun _ => ⟨rfl, rfl⟩, fun hleft => ?_⟩
      rw [hs.putBitsLeft] at hleft
      omega

theorem bits_round_trip_mixed : ∃ s t g,
    writeAll .uint64 [.putBits 5 19, .setUeGolombLong 4294967294, .cbsWriteSeGolomb (-3) (-10) 10]
      (initPutBits .uint64 (List.replicate 16 0)) = some s ∧ flushPutBits .uint64 s = some t ∧
    readAll ⟨true, false⟩ [.getBitsLong 5, .getUeGolombLong, .cbsReadSeGolomb (-10) 10]
      (initGetBits (t.buf ++ List.replicate 64 0) 73).2 = some ([19, 4294967294, -3], g) := by
  obtain ⟨s, t, g, hwrite, hflush, -, -, hread, -⟩ := bits_round_trip .uint64 ⟨true, false⟩
    (List.replicate 16 0) (List.replicate 64 0)
    [(.putBits 5 19, .getBitsLong 5), (.setUeGolombLong 4294967294, .getUeGolombLong),
      (.cbsWriteSeGolomb (-3) (-10) 10, .cbsReadSeGolomb (-10) 10)] 73
    (by simp [Write.Admissible, Write.ReadBy, uint32Max]) (by decide +kernel) (by decide)
    (by decide +kernel) (by decide)
  exact ⟨s, t, g, hwrite, hflush, hread⟩

end P2PFFmpeg.Bits
