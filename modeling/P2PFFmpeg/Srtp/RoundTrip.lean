import P2PFFmpeg.Library.Serial
import P2PFFmpeg.Library.Transition
import P2PFFmpeg.Srtp.Context

/-!
A sender and a receiver with the same keys. The packets that the sender has protected
may reach the receiver in any order, several times or not at all.
-/

namespace P2PFFmpeg.Srtp

open Util Library.Transition Library.Rollover Library.Keystream

open Payload (beBytes)

structure Sent where
  plain : List UInt8
  sealed : List UInt8

/-- `start` is the sequence number of the first RTP packet, and `largest` the number of
the last RTP packet, in the order of sending, among those delivered. -/
structure Link where
  sender : SRTPContext
  receiver : SRTPContext
  start : Nat
  rtp : List Sent
  rtcp : List Sent
  largest : Option Nat

inductive Delivery
  | rtp (k : Nat)
  | rtcp (k : Nat)
deriving DecidableEq, Repr

def Delivery.packet (s : Link) : Delivery → Option Sent
  | .rtp k => s.rtp[k]?
  | .rtcp k => s.rtcp[k]?

/-- The first RTP packet comes first, and the others less than 2^15 places from the
largest one. -/
def Delivery.Near (s : Link) : Delivery → Prop
  | .rtp k => match s.largest with
    | none => k = 0
    | some m => k < m + 32768 ∧ m < k + 32768
  | .rtcp _ => True

instance (s : Link) (d : Delivery) : Decidable (d.Near s) := by
  cases d with
  | rtp k =>
      unfold Delivery.Near
      cases s.largest <;> infer_instance
  | rtcp k => exact isTrue trivial

def Delivery.reached (s : Link) : Delivery → Option Nat
  | .rtp k => some (max k (s.largest.getD k))
  | .rtcp _ => s.largest

inductive Label
  | send (packet : List UInt8) (outlen : Nat)
  | deliver (d : Delivery)

/-- A packet that `ff_srtp_encrypt` takes, with the next sequence number if it is one
of RTP. -/
def Link.send (c : Crypto) (s : Link) (packet : List UInt8) (outlen : Nat) : Option Link :=
  let (ret, out, sender) := ffSrtpEncrypt c s.sender packet outlen
  if ret ≤ 0 then none
  else if rtpPtIsRtcp (byteAt packet 1) then
    some { s with sender := sender, rtcp := s.rtcp ++ [⟨packet, out⟩] }
  else if (avRb16 packet 2).toNat = (s.start + s.rtp.length) % 65536 then
    some { s with sender := sender, rtp := s.rtp ++ [⟨packet, out⟩] }
  else none

def Link.deliver (c : Crypto) (s : Link) (d : Delivery) : Option Link :=
  (d.packet s).bind fun packet =>
    if d.Near s then
      some { s with
        receiver := (ffSrtpDecrypt c s.receiver packet.sealed).2.2
        largest := d.reached s }
    else none

def link (c : Crypto) (keys : Keys) : System Link Label where
  init s := s.start < 65536 ∧ s.sender = fresh keys ∧ s.receiver = fresh keys ∧ s.rtp = [] ∧
    s.rtcp = [] ∧ s.largest = none
  next s
    | .send packet outlen => s.send c packet outlen
    | .deliver d => s.deliver c d

def Link.roc (s : Link) (k : Nat) : UInt32 := UInt32.ofNat ((s.start + k) / 65536)

section Encrypt

variable {c : Crypto} {s t : SRTPContext} {plain out : List UInt8} {outlen : Nat} {ret : Int}

theorem ffSrtpEncrypt_rtp (h : ffSrtpEncrypt c s plain outlen = (ret, out, t)) (hret : 0 < ret)
    (hrtp : rtpPtIsRtcp (byteAt plain 1) = false) :
    ∃ start, payloadStart plain = some start ∧
      t = { s with
        roc := if (avRb16 plain 2).toNat < s.seqLargest then s.roc + 1 else s.roc
        seqLargest := (avRb16 plain 2).toNat } ∧
      out = rtpBody c s.toKeys t.roc start plain ++
        rtpTag c s.toKeys t.roc (rtpBody c s.toKeys t.roc start plain) := by
  have hinvalid : ¬0 < averrorInvaliddata := by decide
  simp only [ffSrtpEncrypt, hrtp, Bool.false_eq_true, if_false] at h
  split at h
  · cases h
    exact absurd hret hinvalid
  · split at h
    · cases h
      exact absurd hret (by decide)
    · split at h
      · cases h
        exact absurd hret hinvalid
      · cases hstart : payloadStart plain with
        | none =>
            rw [hstart] at h
            cases h
            exact absurd hret hinvalid
        | some start =>
            rw [hstart] at h
            cases h
            exact ⟨start, rfl, rfl, rfl⟩

theorem ffSrtpEncrypt_rtcp (h : ffSrtpEncrypt c s plain outlen = (ret, out, t)) (hret : 0 < ret)
    (hrtcp : rtpPtIsRtcp (byteAt plain 1) = true) :
    8 ≤ plain.length ∧ t = { s with rtcpIndex := s.rtcpIndex + 1 } ∧
      out = rtcpBody c s.toKeys s.rtcpIndex plain ++
        rtcpTag c s.toKeys (rtcpBody c s.toKeys s.rtcpIndex plain) := by
  have hinvalid : ¬0 < averrorInvaliddata := by decide
  simp only [ffSrtpEncrypt, hrtcp, if_true] at h
  split at h
  · cases h
    exact absurd hret hinvalid
  · next hlen =>
      split at h
      · cases h
        exact absurd hret (by decide)
      · cases h
        exact ⟨Nat.not_lt.mp hlen, rfl, rfl⟩

end Encrypt

section Guess

theorem guessRoc_eq (q largest seq : Nat) (h : q = 0 → blocksAhead 32768 largest seq ≠ -1) :
    guessRoc (UInt32.ofNat q) largest seq =
      UInt32.ofNat (q + blocksAhead 32768 largest seq).toNat := by
  unfold guessRoc
  unfold blocksAhead at h ⊢
  by_cases hlow : largest < 32768
  · rw [if_pos hlow] at h ⊢
    rw [if_pos (by omega)]
    by_cases hlate : largest + 32768 < seq
    · have hq : 1 ≤ q := by
        refine Nat.pos_of_ne_zero fun hzero => h hzero ?_
        rw [if_pos hlate]
      have hpred : ((q : Int) + -1).toNat = q - 1 := by omega
      rw [if_pos hlate, if_pos (by omega), hpred, UInt32.ofNat_sub hq]
      rfl
    · rw [if_neg hlate, if_neg (by omega), Int.add_zero, Int.toNat_natCast]
  · rw [if_neg hlow, if_neg (by omega)]
    by_cases hnext : seq + 32768 < largest
    · rw [if_pos hnext, if_pos (by omega), ← Int.natCast_one, ← Int.natCast_add, Int.toNat_natCast,
        UInt32.ofNat_add]
      rfl
    · rw [if_neg hnext, if_neg (by omega), Int.add_zero, Int.toNat_natCast]

end Guess

open Payload (beBytes byteAt_append_left)

structure Received (keys : Keys) (start : Nat) (largest : Option Nat) (r : SRTPContext) : Prop where
  keys : r.toKeys = keys
  none : largest = none → r.seqInitialized = false ∧ r.roc = 0
  some : ∀ m, largest = some m → r.seqInitialized = true ∧ r.seqLargest = (start + m) % 65536 ∧
    r.roc = UInt32.ofNat ((start + m) / 65536)

structure Sending (keys : Keys) (start rtp rtcp : Nat) (s : SRTPContext) : Prop where
  keys : s.toKeys = keys
  first : rtp = 0 → s.seqLargest = 0 ∧ s.roc = 0
  later : ∀ n, rtp = n + 1 → s.seqLargest = (start + n) % 65536 ∧
    s.roc = UInt32.ofNat ((start + n) / 65536)
  rtcpIndex : s.rtcpIndex = UInt32.ofNat rtcp

def SealedRtp (c : Crypto) (keys : Keys) (start k : Nat) (p : Sent) : Prop :=
  rtpPtIsRtcp (byteAt p.plain 1) = false ∧ (avRb16 p.plain 2).toNat = (start + k) % 65536 ∧
    ∃ n, payloadStart p.plain = some n ∧
      p.sealed = rtpBody c keys (UInt32.ofNat ((start + k) / 65536)) n p.plain ++
        rtpTag c keys (UInt32.ofNat ((start + k) / 65536))
          (rtpBody c keys (UInt32.ofNat ((start + k) / 65536)) n p.plain)

def SealedRtcp (c : Crypto) (keys : Keys) (k : Nat) (p : Sent) : Prop :=
  rtpPtIsRtcp (byteAt p.plain 1) = true ∧ 8 ≤ p.plain.length ∧
    p.sealed = rtcpBody c keys (UInt32.ofNat k) p.plain ++
      rtcpTag c keys (rtcpBody c keys (UInt32.ofNat k) p.plain)

theorem add_one_ne (x : UInt32) : x + 1 ≠ x := by
  intro h
  have hnat := congrArg UInt32.toNat h
  simp only [UInt32.toNat_add, UInt32.reduceToNat] at hnat
  omega

theorem add_two_ne (x : UInt32) : x + 1 + 1 ≠ x := by
  intro h
  have hnat := congrArg UInt32.toNat h
  simp only [UInt32.toNat_add, UInt32.reduceToNat] at hnat
  omega

theorem ofNat_succ (n : Nat) : UInt32.ofNat (n + 1) = UInt32.ofNat n + 1 := UInt32.ofNat_add n 1

section Receiver

variable {keys : Keys} {start m k : Nat} {r : SRTPContext}

theorem blocksAhead_near (hk : k < m + 32768) (hm : m < k + 32768) :
    blocksAhead 32768 ((start + m) % 65536) ((start + k) % 65536) =
      ((start + k) / 65536 : Nat) - ((start + m) / 65536 : Nat) :=
  @blocksAhead_eq 32768 (start + m) (start + k) (by omega) (by omega)

theorem packetRoc_near (h : Received keys start (some m) r) (hk : k < m + 32768) (hm : m < k + 32768) :
    packetRoc r ((start + k) % 65536) = UInt32.ofNat ((start + k) / 65536) := by
  obtain ⟨hinit, hlargest, hroc⟩ := h.some m rfl
  have hblocks := @blocksAhead_near start m k hk hm
  rw [packetRoc, hinit, if_pos rfl, hlargest, hroc, guessRoc_eq _ _ _ (by rw [hblocks]; omega), hblocks]
  congr 1
  omega

theorem advance_near (h : Received keys start (some m) r) (hk : k < m + 32768) (hm : m < k + 32768) :
    advance r ((start + k) % 65536) =
      ((start + max k m) % 65536, UInt32.ofNat ((start + max k m) / 65536)) := by
  obtain ⟨hinit, hlargest, hroc⟩ := h.some m rfl
  have hcases : (start + k) / 65536 = (start + m) / 65536 ∨
      (start + k) / 65536 = (start + m) / 65536 + 1 ∨
        (start + m) / 65536 = (start + k) / 65536 + 1 := by omega
  unfold advance
  dsimp only
  rw [packetRoc_near h hk hm, hinit, if_pos rfl, hlargest, hroc]
  rcases hcases with hsame | hnext | hlate
  · rw [hsame, if_pos rfl]
    refine Prod.ext ?_ (congrArg UInt32.ofNat ?_)
    · dsimp only
      omega
    · omega
  · have hmax : max k m = k := by omega
    rw [hnext, ofNat_succ, if_neg (add_one_ne _), if_pos rfl, hmax, hnext, ofNat_succ]
  · have hmax : max k m = m := by omega
    rw [hlate, ofNat_succ, if_neg (add_one_ne _).symm, if_neg (add_two_ne _).symm, hmax, hlate,
      ofNat_succ]

theorem packetRoc_first (h : Received keys start none r) (hstart : start < 65536) :
    packetRoc r (start % 65536) = UInt32.ofNat (start / 65536) := by
  obtain ⟨hinit, hroc⟩ := h.none rfl
  rw [packetRoc, hinit, hroc, Nat.div_eq_of_lt hstart, guessRoc]
  simp only [Bool.false_eq_true, if_false]
  split
  · rw [if_neg (by omega)]
    rfl
  · rw [if_neg (by omega)]
    rfl

theorem advance_first (h : Received keys start none r) (hstart : start < 65536) :
    advance r (start % 65536) = (start % 65536, UInt32.ofNat (start / 65536)) := by
  obtain ⟨hinit, hroc⟩ := h.none rfl
  unfold advance
  dsimp only
  have hzero : UInt32.ofNat 0 = 0 := rfl
  rw [packetRoc_first h hstart, hinit, hroc, Nat.div_eq_of_lt hstart, hzero, if_pos rfl]
  simp

end Receiver

theorem guess_near {keys : Keys} {s : Link} {k : Nat} (h : Received keys s.start s.largest s.receiver)
    (hstart : s.start < 65536) (hnear : (Delivery.rtp k).Near s) :
    packetRoc s.receiver ((s.start + k) % 65536) = s.roc k ∧
      advance s.receiver ((s.start + k) % 65536) =
        ((s.start + max k (s.largest.getD k)) % 65536, s.roc (max k (s.largest.getD k))) := by
  unfold Delivery.Near at hnear
  cases hlargest : s.largest with
  | none =>
      rw [hlargest] at h hnear
      dsimp only at hnear
      subst hnear
      exact ⟨packetRoc_first h hstart, by simpa [Link.roc] using advance_first h hstart⟩
  | some m =>
      rw [hlargest] at h hnear
      exact ⟨packetRoc_near h hnear.1 hnear.2, advance_near h hnear.1 hnear.2⟩

structure Tracked (c : Crypto) (keys : Keys) (s : Link) : Prop where
  start : s.start < 65536
  sending : Sending keys s.start s.rtp.length s.rtcp.length s.sender
  received : Received keys s.start s.largest s.receiver
  rtp : ∀ k p, s.rtp[k]? = some p → SealedRtp c keys s.start k p
  rtcp : ∀ k p, s.rtcp[k]? = some p → SealedRtcp c keys k p

section Steps

variable {c : Crypto} {keys : Keys} {s t : Link}

theorem forall_getElem?_append {α : Type} {P : Nat → α → Prop} {xs : List α} {x : α}
    (h : ∀ k p, xs[k]? = some p → P k p) (hx : P xs.length x) : ∀ k p, (xs ++ [x])[k]? = some p → P k p := by
  intro k p hk
  rcases Nat.lt_trichotomy k xs.length with hlt | heq | hgt
  · rw [List.getElem?_append_left hlt] at hk
    exact h k p hk
  · subst heq
    rw [List.getElem?_concat_length] at hk
    cases hk
    exact hx
  · rw [List.getElem?_eq_none (by rw [List.length_append, List.length_singleton]; omega)] at hk
    cases hk

theorem Tracked.send {packet : List UInt8} {outlen : Nat} (h : Tracked c keys s)
    (hnext : s.send c packet outlen = some t) : Tracked c keys t := by
  unfold Link.send at hnext
  generalize hout : ffSrtpEncrypt c s.sender packet outlen = result at hnext
  obtain ⟨ret, out, sender⟩ := result
  dsimp only at hnext
  split at hnext
  · cases hnext
  · next hret =>
      have hret := Int.not_le.mp hret
      by_cases hrtcp : rtpPtIsRtcp (byteAt packet 1) = true
      · rw [if_pos hrtcp] at hnext
        cases hnext
        obtain ⟨hlen, rfl, rfl⟩ := ffSrtpEncrypt_rtcp hout hret hrtcp
        refine ⟨h.start, ⟨h.sending.keys, h.sending.first, h.sending.later, ?_⟩, h.received, h.rtp,
          forall_getElem?_append h.rtcp ⟨hrtcp, hlen, ?_⟩⟩
        · rw [List.length_append, List.length_singleton, ofNat_succ, ← h.sending.rtcpIndex]
        · rw [h.sending.rtcpIndex, h.sending.keys]
      · rw [if_neg hrtcp] at hnext
        split at hnext
        · next hseq =>
            cases hnext
            have hrtp := Bool.eq_false_iff.mpr hrtcp
            obtain ⟨start, hstart, rfl, rfl⟩ := ffSrtpEncrypt_rtp hout hret hrtp
            have hroc : (if (avRb16 packet 2).toNat < s.sender.seqLargest then s.sender.roc + 1
                else s.sender.roc) = UInt32.ofNat ((s.start + s.rtp.length) / 65536) := by
              cases hn : s.rtp.length with
              | zero =>
                  obtain ⟨hlargest, hroc⟩ := h.sending.first hn
                  rw [hlargest, hroc, if_neg (Nat.not_lt_zero _), Nat.add_zero,
                    Nat.div_eq_of_lt h.start]
                  rfl
              | succ n =>
                  obtain ⟨hlargest, hroc⟩ := h.sending.later n hn
                  rw [hlargest, hroc, hseq, hn, ← ofNat_succ]
                  split
                  · congr 1
                    omega
                  · congr 1
                    omega
            refine ⟨h.start, ⟨h.sending.keys, ?_, ?_, h.sending.rtcpIndex⟩, h.received,
              forall_getElem?_append h.rtp ⟨hrtp, hseq, start, hstart, ?_⟩, h.rtcp⟩
            · simp
            · intro n hn
              rw [List.length_append, List.length_singleton, Nat.add_right_cancel_iff] at hn
              subst hn
              exact ⟨hseq, hroc⟩
            · rw [← hroc, ← h.sending.keys]
        · cases hnext

theorem Tracked.decrypt_rtp {k : Nat} {p : Sent} (h : Tracked c keys s) (hp : s.rtp[k]? = some p)
    (hnear : (Delivery.rtp k).Near s) :
    ∃ n, payloadStart p.plain = some n ∧
      let body := rtpBody c keys (s.roc k) n p.plain
      let top := max k (s.largest.getD k)
      ffSrtpDecrypt c s.receiver p.sealed =
        if rtpTag c keys (s.roc top) body = rtpTag c keys (s.roc k) body then
          (0, p.plain, { s.receiver with
            seqInitialized := true
            seqLargest := (s.start + top) % 65536
            roc := s.roc top })
        else (averrorInvaliddata, p.sealed, s.receiver) := by
  obtain ⟨hrtp, hseq, n, hstart, hsealed⟩ := h.rtp k p hp
  obtain ⟨hguess, hadvance⟩ := guess_near h.received h.start hnear
  rw [← hseq] at hguess hadvance
  have hkeys := h.received.keys
  have hbounds := payloadStart_bounds hstart
  have hbody := @decryptRtp_body c s.receiver p.plain (s.roc k) n
    (rtpTag c keys (s.roc k) (rtpBody c keys (s.roc k) n p.plain)) hstart hguess
  rw [hadvance] at hbody
  dsimp only at hbody
  rw [hkeys] at hbody
  have htype : rtpPtIsRtcp (byteAt (rtpBody c keys (s.roc k) n p.plain) 1) = false := by
    rw [byteAt_rtpBody hstart _ (by omega)]
    exact hrtp
  have hsealed : p.sealed = rtpBody c keys (s.roc k) n p.plain ++
    rtpTag c keys (s.roc k) (rtpBody c keys (s.roc k) n p.plain) := hsealed
  refine ⟨n, hstart, ?_⟩
  dsimp only
  rw [hsealed, ffSrtpDecrypt_append (by rw [length_rtpBody]; omega)
    (by rw [htype, length_rtpTag, ← hkeys]; rfl), htype, if_neg (by simp), hbody, hkeys]

theorem Tracked.decrypt_rtcp {k : Nat} {p : Sent} (h : Tracked c keys s) (hp : s.rtcp[k]? = some p) :
    8 ≤ p.plain.length ∧ ffSrtpDecrypt c s.receiver p.sealed =
      (0, p.plain.take 8 ++ encryptCounter c keys.rtcpKey
        (createIv keys.rtcpSalt (UInt32.ofNat k &&& 0x7FFFFFFF).toUInt64 (avRb32 p.plain 4))
        (encryptCounter c keys.rtcpKey
          (createIv keys.rtcpSalt (UInt32.ofNat k).toUInt64 (avRb32 p.plain 4)) (p.plain.drop 8)),
        s.receiver) := by
  obtain ⟨hrtcp, hlen, hsealed⟩ := h.rtcp k p hp
  have hkeys := h.received.keys
  have hbody := @decryptRtcp_body c s.receiver p.plain (UInt32.ofNat k)
    (rtcpTag c keys (rtcpBody c keys (UInt32.ofNat k) p.plain)) hlen
  dsimp only at hbody
  rw [hkeys] at hbody
  have htype : rtpPtIsRtcp (byteAt (rtcpBody c keys (UInt32.ofNat k) p.plain) 1) = true := by
    rw [byteAt_rtcpBody hlen _ (by omega)]
    exact hrtcp
  refine ⟨hlen, ?_⟩
  rw [hsealed, ffSrtpDecrypt_append (by rw [length_rtcpBody _ hlen]; omega)
    (by rw [htype, length_rtcpTag, ← hkeys]; rfl), htype, if_pos rfl, hbody]

theorem Tracked.deliver {d : Delivery} (h : Tracked c keys s) (hnext : s.deliver c d = some t) :
    Tracked c keys t := by
  obtain ⟨p, hp, hnext⟩ := Option.bind_eq_some_iff.mp hnext
  split at hnext
  · next hnear =>
      cases hnext
      refine ⟨h.start, h.sending, ?_, h.rtp, h.rtcp⟩
      cases d with
      | rtcp k =>
          rw [(h.decrypt_rtcp hp).2]
          exact h.received
      | rtp k =>
          obtain ⟨n, _, hdecrypt⟩ := h.decrypt_rtp hp hnear
          dsimp only at hdecrypt
          rw [hdecrypt]
          by_cases htag : rtpTag c keys (s.roc (max k (s.largest.getD k)))
              (rtpBody c keys (s.roc k) n p.plain) =
                rtpTag c keys (s.roc k) (rtpBody c keys (s.roc k) n p.plain)
          · rw [if_pos htag]
            refine ⟨h.received.keys, by simp [Delivery.reached], fun m hm => ?_⟩
            cases hm
            exact ⟨rfl, rfl, rfl⟩
          · -- the packet is refused, so it is not the largest one
            rw [if_neg htag]
            have hreached : (Delivery.rtp k).reached s = s.largest := by
              cases hlargest : s.largest with
              | none =>
                  rw [hlargest, Option.getD_none, Nat.max_self] at htag
                  exact absurd rfl htag
              | some m =>
                  rw [hlargest, Option.getD_some] at htag
                  have hmax : max k m = m := by
                    by_contra hne
                    have hk : max k m = k := by omega
                    rw [hk] at htag
                    exact htag rfl
                  rw [Delivery.reached, hlargest, Option.getD_some, hmax]
            rw [hreached]
            exact h.received
  · cases hnext

theorem tracked (h : (link c keys).Reachable s) : Tracked c keys s := by
  refine System.Reachable.invariant (Tracked c keys) ?_ ?_ h
  · rintro s ⟨hstart, hsender, hreceiver, hrtp, hrtcp, hlargest⟩
    refine ⟨hstart, ?_, ?_, by simp [hrtp], by simp [hrtcp]⟩
    · rw [hsender, hrtp, hrtcp]
      exact ⟨rfl, fun _ => ⟨rfl, rfl⟩, by simp, rfl⟩
    · rw [hreceiver, hlargest]
      exact ⟨rfl, fun _ => ⟨rfl, rfl⟩, by simp⟩
  · intro s l t _ hs hnext
    cases l with
    | send packet outlen => exact hs.send hnext
    | deliver d => exact hs.deliver hnext

end Steps

/-- A packet comes back. For RTP, no packet of a later block has come before it, or the
rollover counters of both blocks give the same tag. For RTCP, the highest bit of its
index is not set, or the key stream does not depend on it. -/
def Delivery.Recoverable (c : Crypto) (keys : Keys) (s : Link) (plain : List UInt8) : Delivery → Prop
  | .rtp k =>
      let top := max k (s.largest.getD k)
      (s.start + top) / 65536 = (s.start + k) / 65536 ∨
        ∀ n, payloadStart plain = some n →
          rtpTag c keys (s.roc top) (rtpBody c keys (s.roc k) n plain) =
            rtpTag c keys (s.roc k) (rtpBody c keys (s.roc k) n plain)
  | .rtcp k =>
      k % 4294967296 < 2147483648 ∨ ∀ i < plain.length - 8,
        keystream c keys.rtcpKey
            (createIv keys.rtcpSalt (UInt32.ofNat k).toUInt64 (avRb32 plain 4)) i =
          keystream c keys.rtcpKey
            (createIv keys.rtcpSalt (UInt32.ofNat k &&& 0x7FFFFFFF).toUInt64 (avRb32 plain 4)) i

/-- In every state a delivery that is near gives the original bytes exactly if the
packet can come back. -/
theorem srtp_round_trip {c : Crypto} {keys : Keys} {s : Link} (hs : (link c keys).Reachable s)
    {d : Delivery} {p : Sent} (hp : d.packet s = some p) (hnear : d.Near s) :
    (∃ receiver, ffSrtpDecrypt c s.receiver p.sealed = (0, p.plain, receiver)) ↔
      d.Recoverable c keys s p.plain := by
  have htracked := tracked hs
  cases d with
  | rtp k =>
      obtain ⟨n, hn, hdecrypt⟩ := htracked.decrypt_rtp hp hnear
      dsimp only at hdecrypt
      rw [hdecrypt]
      constructor
      · rintro ⟨receiver, h⟩
        refine Or.inr fun n' hn' => ?_
        rw [hn] at hn'
        cases hn'
        by_contra htag
        rw [if_neg htag] at h
        cases h
      · intro h
        have htag : rtpTag c keys (s.roc (max k (s.largest.getD k))) (rtpBody c keys (s.roc k) n p.plain) =
            rtpTag c keys (s.roc k) (rtpBody c keys (s.roc k) n p.plain) := by
          rcases h with hblock | htags
          · rw [Link.roc, hblock]
            rfl
          · exact htags n hn
        rw [if_pos htag]
        exact ⟨_, rfl⟩
  | rtcp k =>
      obtain ⟨hlen, hdecrypt⟩ := htracked.decrypt_rtcp hp
      rw [hdecrypt]
      have hsplit := List.take_append_drop 8 p.plain
      have hmask := mask_mask_iff _ xor_cancel
        (keystream c keys.rtcpKey
          (createIv keys.rtcpSalt (UInt32.ofNat k).toUInt64 (avRb32 p.plain 4)))
        (keystream c keys.rtcpKey
          (createIv keys.rtcpSalt (UInt32.ofNat k &&& 0x7FFFFFFF).toUInt64 (avRb32 p.plain 4)))
        (p.plain.drop 8)
      rw [List.length_drop] at hmask
      constructor
      · rintro ⟨receiver, h⟩
        refine Or.inr (hmask.mp ?_)
        have hplain := (Prod.ext_iff.mp (Prod.ext_iff.mp h).2).1
        dsimp only at hplain
        exact List.append_cancel_left (hplain.trans hsplit.symm)
      · intro h
        have hsame : ∀ i < p.plain.length - 8, keystream c keys.rtcpKey
            (createIv keys.rtcpSalt (UInt32.ofNat k).toUInt64 (avRb32 p.plain 4)) i =
              keystream c keys.rtcpKey
                (createIv keys.rtcpSalt (UInt32.ofNat k &&& 0x7FFFFFFF).toUInt64
                  (avRb32 p.plain 4)) i := by
          rcases h with hsmall | hsame
          · rw [small_index (by rw [UInt32.toNat_ofNat']; exact hsmall)]
            exact fun _ _ => rfl
          · exact hsame
        have hback : encryptCounter c keys.rtcpKey _ (encryptCounter c keys.rtcpKey _ _) = _ :=
          hmask.mpr hsame
        rw [hback, hsplit]
        exact ⟨_, rfl⟩

def toyCrypto : Crypto where
  aes key block := (key ++ block).take 16
  hmac _ data := data.reverse.take 20 ++ List.replicate (20 - data.length) 0
  hmac_length _ data := by
    rw [List.length_append, List.length_take, List.length_reverse, List.length_replicate]
    omega

def toyKeys : Keys where
  rtpHmacSize := 10
  rtcpHmacSize := 10
  rtpKey := []
  rtcpKey := []
  rtpSalt := [1, 2, 3]
  rtcpSalt := [4, 5, 6]
  rtpAuth := [7]
  rtcpAuth := [8]
  rtp_le := by decide
  rtcp_le := by decide

def toyPacket (high low : UInt8) : List UInt8 := [0x80, 96, high, low, 0, 0, 0, 0, 1, 2, 3, 4, 42]

def toyLink : Link where
  sender := fresh toyKeys
  receiver := fresh toyKeys
  start := 65534
  rtp := []
  rtcp := []
  largest := none

theorem toyLink_init : (link toyCrypto toyKeys).init toyLink := ⟨by decide, rfl, rfl, rfl, rfl, rfl⟩

/-- The first two packets are sent and the first one is delivered. -/
theorem srtp_round_trip_second :
    ∃ s p, (link toyCrypto toyKeys).Reachable s ∧ (Delivery.rtp 1).packet s = some p ∧
      p.plain = toyPacket 255 255 ∧
      ∃ receiver, ffSrtpDecrypt toyCrypto s.receiver p.sealed = (0, p.plain, receiver) := by
  have hrun : ((link toyCrypto toyKeys).run [.send (toyPacket 255 254) 100,
      .send (toyPacket 255 255) 100, .deliver (.rtp 0)] toyLink).map (fun s =>
        (s.start, s.largest, ((Delivery.rtp 1).packet s).map Sent.plain)) =
      some (65534, some 0, some (toyPacket 255 255)) := by decide +kernel
  obtain ⟨s, hs, hview⟩ := Option.map_eq_some_iff.mp hrun
  simp only [Prod.mk.injEq] at hview
  obtain ⟨hstart, hlargest, hpacket⟩ := hview
  obtain ⟨p, hp, hplain⟩ := Option.map_eq_some_iff.mp hpacket
  have hreach := System.Reachable.of_run toyLink_init hs
  refine ⟨s, p, hreach, hp, hplain, (srtp_round_trip hreach hp ?_).mpr (Or.inl ?_)⟩
  · rw [Delivery.Near, hlargest]
    exact ⟨by decide, by decide⟩
  · rw [hstart, hlargest]
    rfl

/-- The third packet overtakes the second one, which is then refused. -/
theorem late_packet_refused :
    ∃ s p, (link toyCrypto toyKeys).Reachable s ∧ (Delivery.rtp 1).packet s = some p ∧
      (Delivery.rtp 1).Near s ∧
      ¬∃ receiver, ffSrtpDecrypt toyCrypto s.receiver p.sealed = (0, p.plain, receiver) := by
  have hrun : ((link toyCrypto toyKeys).run [.send (toyPacket 255 254) 100,
      .send (toyPacket 255 255) 100, .send (toyPacket 0 0) 100, .deliver (.rtp 0),
      .deliver (.rtp 2)] toyLink).map (fun s => (s.largest, ((Delivery.rtp 1).packet s).map fun p =>
        (ffSrtpDecrypt toyCrypto s.receiver p.sealed).1)) =
      some (some 2, some averrorInvaliddata) := by decide +kernel
  obtain ⟨s, hs, hview⟩ := Option.map_eq_some_iff.mp hrun
  simp only [Prod.mk.injEq] at hview
  obtain ⟨hlargest, hpacket⟩ := hview
  obtain ⟨p, hp, hret⟩ := Option.map_eq_some_iff.mp hpacket
  refine ⟨s, p, .of_run toyLink_init hs, hp, ?_, ?_⟩
  · rw [Delivery.Near, hlargest]
    exact ⟨by decide, by decide⟩
  · rintro ⟨receiver, h⟩
    rw [h] at hret
    cases hret

end P2PFFmpeg.Srtp
