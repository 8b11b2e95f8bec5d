import P2PFFmpeg.Srtp.RoundTrip

namespace P2PFFmpeg.Srtp

open Util
open Payload (beBytes length_beBytes)

structure Counters where
  roc : UInt32
  seqLargest : Nat
  seqInitialized : Bool
  rtcpIndex : UInt32
deriving DecidableEq

def SRTPContext.counters (s : SRTPContext) : Counters :=
  ⟨s.roc, s.seqLargest, s.seqInitialized, s.rtcpIndex⟩

def Authentic (c : Crypto) (s : SRTPContext) (buf : List UInt8) : Prop :=
  let rtcp := rtpPtIsRtcp (byteAt buf 1)
  let hmacSize := if rtcp then s.rtcpHmacSize else s.rtpHmacSize
  let body := buf.take (buf.length - hmacSize)
  let digest :=
    if rtcp then c.hmac s.rtcpAuth body
    else c.hmac s.rtpAuth (body ++ beBytes 4 (advance s (avRb16 buf 2).toNat).2.toNat)
  2 ≤ buf.length ∧ hmacSize ≤ buf.length ∧
    digest.take hmacSize = buf.drop (buf.length - hmacSize)

/-- The sources or the extension of the header do not fit into the packet. -/
def HeaderOverruns (buf : List UInt8) : Prop :=
  let start := 12 + 4 * (byteAt buf 0 &&& 0x0F).toNat
  buf.length < start ∨ byteAt buf 0 &&& 0x10 ≠ 0 ∧
    (buf.length < start + 4 ∨ buf.length < start + ((avRb16 buf (start + 2)).toNat + 1) * 4)

/-- An RTP packet that gets past the checks of its length and fails in its header. -/
structure FailsLate (s : SRTPContext) (buf : List UInt8) (outlen : Nat) : Prop where
  rtp : rtpPtIsRtcp (byteAt buf 1) = false
  length : 12 ≤ buf.length
  room : buf.length + s.rtpHmacSize ≤ outlen
  header : HeaderOverruns buf

theorem payloadStart_none (buf : List UInt8) : payloadStart buf = none ↔ HeaderOverruns buf := by
  simp only [payloadStart, HeaderOverruns]
  split
  · next hstart => exact ⟨fun _ => .inl hstart, fun _ => rfl⟩
  · next hstart =>
      split
      · next hext =>
          split
          · exact ⟨fun _ => .inr ⟨hext, .inl (by omega)⟩, fun _ => rfl⟩
          · split
            · exact ⟨fun _ => .inr ⟨hext, .inr (by omega)⟩, fun _ => rfl⟩
            · simp only [reduceCtorEq, false_iff]
              omega
      · next hext =>
          simp only [reduceCtorEq, false_iff]
          rintro (h | ⟨h, _⟩)
          · exact hstart h
          · exact hext h

section Calls

variable {c : Crypto} {s : SRTPContext}

variable {buf : List UInt8}

theorem ffSrtpDecrypt_unauthentic (h : ¬Authentic c s buf) : (ffSrtpDecrypt c s buf).2.2 = s := by
  simp only [Authentic, not_and] at h
  simp only [ffSrtpDecrypt]
  by_cases hlen : buf.length < 2
  · rw [if_pos hlen]
  · rw [if_neg hlen]
    cases hrtcp : rtpPtIsRtcp (byteAt buf 1) with
    | false =>
        simp only [hrtcp, Bool.false_eq_true, if_false] at h ⊢
        by_cases hsize : buf.length < s.rtpHmacSize
        · rw [if_pos hsize]
        · have htag := h (by omega) (by omega)
          rw [if_neg hsize]
          simp only [decryptRtp, ne_eq, htag, not_false_eq_true, if_true]
    | true =>
        simp only [hrtcp, if_true] at h ⊢
        by_cases hsize : buf.length < s.rtcpHmacSize
        · rw [if_pos hsize]
        · have htag := h (by omega) (by omega)
          rw [if_neg hsize]
          simp only [decryptRtcp, ne_eq, htag, not_false_eq_true, if_true]

theorem ffSrtpEncrypt_late {outlen : Nat} (h : FailsLate s buf outlen) :
    ffSrtpEncrypt c s buf outlen = (averrorInvaliddata, buf, { s with
      roc := if (avRb16 buf 2).toNat < s.seqLargest then s.roc + 1 else s.roc
      seqLargest := (avRb16 buf 2).toNat }) := by
  obtain ⟨hrtp, hlength, hroom, hheader⟩ := h
  simp only [ffSrtpEncrypt, hrtp, Bool.false_eq_true, if_false]
  rw [if_neg (by omega), if_neg (by omega), if_neg (by omega), (payloadStart_none buf).mpr hheader]

theorem ffSrtpEncrypt_early {outlen : Nat} (h : ¬FailsLate s buf outlen)
    (hret : (ffSrtpEncrypt c s buf outlen).1 ≤ 0) : (ffSrtpEncrypt c s buf outlen).2.2 = s := by
  by_cases hshort : buf.length < 8
  · simp only [ffSrtpEncrypt, if_pos hshort]
  · cases hrtcp : rtpPtIsRtcp (byteAt buf 1) with
    | true =>
        simp only [ffSrtpEncrypt, if_neg hshort, hrtcp, if_true] at hret ⊢
        by_cases hroom : buf.length + (s.rtcpHmacSize + 4) > outlen
        · rw [if_pos hroom]
        · rw [if_neg hroom] at hret
          -- what is sent holds the index
          simp only [List.length_append, length_beBytes] at hret
          omega
    | false =>
        simp only [ffSrtpEncrypt, if_neg hshort, hrtcp, Bool.false_eq_true, if_false] at hret ⊢
        by_cases hroom : buf.length + s.rtpHmacSize > outlen
        · rw [if_pos hroom]
        · by_cases hlength : buf.length < 12
          · rw [if_neg hroom, if_pos hlength]
          · rw [if_neg hroom, if_neg hlength] at hret
            cases hstart : payloadStart buf with
            | none =>
                have hheader := (payloadStart_none buf).mp hstart
                exact absurd ⟨hrtcp, by omega, by omega, hheader⟩ h
            | some start =>
                have hbounds := payloadStart_bounds hstart
                rw [hstart] at hret
                simp only [List.length_append, List.length_take] at hret
                omega

theorem counted_same (seq : Nat) : ({ s with
    roc := if seq < s.seqLargest then s.roc + 1 else s.roc
    seqLargest := seq } : SRTPContext).counters = s.counters ↔ seq = s.seqLargest := by
  constructor
  · intro h
    exact congrArg Counters.seqLargest h
  · intro h
    simp only [SRTPContext.counters, h, lt_irrefl, if_false]

end Calls

/-- A failed call counts nothing, except that ff_srtp_encrypt counts an RTP packet
before it looks at the rest of its header. -/
theorem failed_calls_count_nothing (c : Crypto) (s : SRTPContext) (buf packet : List UInt8)
    (outlen : Nat) :
    (((ffSrtpEncrypt c s buf outlen).1 ≤ 0 →
        (ffSrtpEncrypt c s buf outlen).2.2.counters = s.counters) ∧
      (¬Authentic c s packet → (ffSrtpDecrypt c s packet).2.2.counters = s.counters)) ↔
    ¬(FailsLate s buf outlen ∧ (avRb16 buf 2).toNat ≠ s.seqLargest) := by
  constructor
  · rintro ⟨hencrypt, _⟩ ⟨hlate, hseq⟩
    rw [ffSrtpEncrypt_late hlate] at hencrypt
    have hret : averrorInvaliddata ≤ 0 := by decide
    exact hseq ((counted_same _).mp (hencrypt hret))
  · intro h
    refine ⟨fun hret => ?_, fun hauth => congrArg _ (ffSrtpDecrypt_unauthentic hauth)⟩
    by_cases hlate : FailsLate s buf outlen
    · rw [ffSrtpEncrypt_late hlate]
      exact (counted_same _).mpr (not_not.mp fun hseq => h ⟨hlate, hseq⟩)
    · exact congrArg _ (ffSrtpEncrypt_early hlate hret)

/-- A packet of 12 bytes that announces a contributing source. -/
def shortOfSources : List UInt8 := [0x81, 96, 0, 7, 0, 0, 0, 0, 1, 2, 3, 4]

/-- The call fails, and the sequence number of the packet is the largest one now. -/
theorem short_of_sources_counted :
    (ffSrtpEncrypt toyCrypto (fresh toyKeys) shortOfSources 100).1 = averrorInvaliddata ∧
      (ffSrtpEncrypt toyCrypto (fresh toyKeys) shortOfSources 100).2.2.counters =
        ⟨0, 7, false, 0⟩ ∧
      (ffSrtpEncrypt toyCrypto (fresh toyKeys) shortOfSources 100).2.2.counters ≠
        (fresh toyKeys).counters := by
  decide +kernel

end P2PFFmpeg.Srtp
