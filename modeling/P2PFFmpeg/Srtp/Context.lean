import P2PFFmpeg.Library.Keystream
import P2PFFmpeg.Payload.AccessUnit
import P2PFFmpeg.Rtp.Context

namespace P2PFFmpeg.Srtp

open Util Library.Keystream

open Payload (beBytes avRb32_length)

/-- `av_aes_crypt` on a block with a key that `av_aes_init` has expanded, and the
digest that `av_hmac_final` gives. -/
structure Crypto where
  aes : List UInt8 → List UInt8 → List UInt8
  hmac : List UInt8 → List UInt8 → List UInt8
  hmac_length : ∀ key data, (hmac key data).length = 20

/-- What `ff_srtp_set_crypto` sets up. A tag is a part of a digest. -/
structure Keys where
  rtpHmacSize : Nat
  rtcpHmacSize : Nat
  rtpKey : List UInt8
  rtcpKey : List UInt8
  rtpSalt : List UInt8
  rtcpSalt : List UInt8
  rtpAuth : List UInt8
  rtcpAuth : List UInt8
  rtp_le : rtpHmacSize ≤ 20
  rtcp_le : rtcpHmacSize ≤ 20

structure SRTPContext extends Keys where
  seqLargest : Nat
  seqInitialized : Bool
  roc : UInt32
  rtcpIndex : UInt32

/-- The context after `ff_srtp_set_crypto` on zeroed memory. -/
def fresh (keys : Keys) : SRTPContext where
  toKeys := keys
  seqLargest := 0
  seqInitialized := false
  roc := 0
  rtcpIndex := 0

/-- `RTP_PT_IS_RTCP` -/
def rtpPtIsRtcp (x : UInt8) : Bool := (192 ≤ x && x ≤ 195) || (200 ≤ x && x ≤ 210)

def keystream (c : Crypto) (key iv : List UInt8) (outpos : Nat) : UInt8 :=
  byteAt (c.aes key (iv.take 14 ++ beBytes 2 (outpos / 16))) (outpos % 16)

def encryptCounter (c : Crypto) (key iv outbuf : List UInt8) : List UInt8 :=
  mask (· ^^^ ·) (keystream c key iv) outbuf

def createIv (salt : List UInt8) (index : UInt64) (ssrc : UInt32) : List UInt8 :=
  (List.range 16).map fun i =>
    (if 4 ≤ i ∧ i < 8 then byteAt (beBytes 4 ssrc.toNat) (i - 4) else 0) ^^^
    (if 6 ≤ i ∧ i < 14 then byteAt (beBytes 8 index.toNat) (i - 6) else 0) ^^^
    (if i < 14 then byteAt salt i else 0)

/-- The start of the payload, behind the sources and the extension of the header. -/
def payloadStart (buf : List UInt8) : Option Nat :=
  let csrc := (byteAt buf 0 &&& 0x0F).toNat
  let start := 12 + 4 * csrc
  if buf.length < start then none
  else if byteAt buf 0 &&& 0x10 ≠ 0 then
    if buf.length - start < 4 then none
    else
      let ext := ((avRb16 buf (start + 2)).toNat + 1) * 4
      if buf.length - start < ext then none else some (start + ext)
  else some start

def guessRoc (roc : UInt32) (seqLargest seq : Int) : UInt32 :=
  if seqLargest < 32768 then if seq - seqLargest > 32768 then roc - 1 else roc
  else if seqLargest - 32768 > seq then roc + 1 else roc

def rocIndex (seq : Nat) (roc : UInt32) : UInt64 := UInt64.ofNat seq + roc.toUInt64 <<< 16

/-- The guess for a packet; the first one stands for itself. -/
def packetRoc (s : SRTPContext) (seq : Nat) : UInt32 :=
  guessRoc s.roc (if s.seqInitialized then s.seqLargest else seq : Nat) seq

def advance (s : SRTPContext) (seq : Nat) : Nat × UInt32 :=
  let seqLargest := if s.seqInitialized then s.seqLargest else seq
  let v := packetRoc s seq
  if v = s.roc then (max seqLargest seq, s.roc)
  else if v = s.roc + 1 then (seq, v)
  else (seqLargest, s.roc)

def decryptRtp (c : Crypto) (s : SRTPContext) (buf body tag : List UInt8) :
    Int × List UInt8 × SRTPContext :=
  let seq := (avRb16 buf 2).toNat
  let largest := advance s seq
  let index := rocIndex seq (packetRoc s seq)
  if (c.hmac s.rtpAuth (body ++ beBytes 4 largest.2.toNat)).take s.rtpHmacSize ≠ tag then
    (averrorInvaliddata, buf, s)
  else if body.length < 12 then (averrorInvaliddata, body, s)
  else
    let s := { s with seqInitialized := true, seqLargest := largest.1, roc := largest.2 }
    match payloadStart body with
    | none => (averrorInvaliddata, body, s)
    | some start =>
        let iv := createIv s.rtpSalt index (avRb32 body 8)
        (0, body.take start ++ encryptCounter c s.rtpKey iv (body.drop start), s)

def decryptRtcp (c : Crypto) (s : SRTPContext) (buf body tag : List UInt8) :
    Int × List UInt8 × SRTPContext :=
  if (c.hmac s.rtcpAuth body).take s.rtcpHmacSize ≠ tag then (averrorInvaliddata, buf, s)
  else if body.length < 12 then (averrorInvaliddata, body, s)
  else
    let srtcpIndex := avRb32 body (body.length - 4)
    let data := body.take (body.length - 4)
    let index := (srtcpIndex &&& 0x7FFFFFFF).toUInt64
    if srtcpIndex &&& 0x80000000 = 0 then (0, data, s)
    else
      let iv := createIv s.rtcpSalt index (avRb32 data 4)
      (0, data.take 8 ++ encryptCounter c s.rtcpKey iv (data.drop 8), s)

/-- Gives the result, the buffer up to `*lenptr` and the context. -/
def ffSrtpDecrypt (c : Crypto) (s : SRTPContext) (buf : List UInt8) :
    Int × List UInt8 × SRTPContext :=
  if buf.length < 2 then (averrorInvaliddata, buf, s)
  else
    let rtcp := rtpPtIsRtcp (byteAt buf 1)
    let hmacSize := if rtcp then s.rtcpHmacSize else s.rtpHmacSize
    if buf.length < hmacSize then (averrorInvaliddata, buf, s)
    else
      let body := buf.take (buf.length - hmacSize)
      let tag := buf.drop (buf.length - hmacSize)
      if rtcp then decryptRtcp c s buf body tag else decryptRtp c s buf body tag

/-- Gives the length of the result or an error, the output and the context. -/
def ffSrtpEncrypt (c : Crypto) (s : SRTPContext) (buf : List UInt8) (outlen : Nat) :
    Int × List UInt8 × SRTPContext :=
  if buf.length < 8 then (averrorInvaliddata, [], s)
  else
    let rtcp := rtpPtIsRtcp (byteAt buf 1)
    let hmacSize := if rtcp then s.rtcpHmacSize else s.rtpHmacSize
    let padding := if rtcp then hmacSize + 4 else hmacSize
    if buf.length + padding > outlen then (0, [], s)
    else if rtcp then
      let index := s.rtcpIndex
      let s := { s with rtcpIndex := s.rtcpIndex + 1 }
      let iv := createIv s.rtcpSalt index.toUInt64 (avRb32 buf 4)
      let body := buf.take 8 ++ encryptCounter c s.rtcpKey iv (buf.drop 8) ++
        beBytes 4 (0x80000000 ||| index).toNat
      let out := body ++ (c.hmac s.rtcpAuth body).take hmacSize
      (out.length, out, s)
    else if buf.length < 12 then (averrorInvaliddata, buf, s)
    else
      let seq := (avRb16 buf 2).toNat
      let s := { s with
        roc := if seq < s.seqLargest then s.roc + 1 else s.roc
        seqLargest := seq }
      match payloadStart buf with
      | none => (averrorInvaliddata, buf, s)
      | some start =>
          let iv := createIv s.rtpSalt (rocIndex seq s.roc) (avRb32 buf 8)
          let body := buf.take start ++ encryptCounter c s.rtpKey iv (buf.drop start)
          let out := body ++ (c.hmac s.rtpAuth (body ++ beBytes 4 s.roc.toNat)).take hmacSize
          (out.length, out, s)

open Payload (beBytes length_beBytes byteAt_append_left byteAt_append_right)

theorem xor_cancel (a k k' : UInt8) : (a ^^^ k) ^^^ k' = a ↔ k = k' := by
  calc (a ^^^ k) ^^^ k' = a ↔ a ^^^ (k ^^^ k') = a ^^^ 0 := by rw [UInt8.xor_assoc, UInt8.xor_zero]
    _ ↔ k ^^^ k' = 0 := UInt8.xor_right_inj a
    _ ↔ k = k' := UInt8.xor_eq_zero_iff

@[simp] theorem length_encryptCounter (c : Crypto) (key iv buf : List UInt8) :
    (encryptCounter c key iv buf).length = buf.length := length_mask _ _ _

@[simp] theorem encryptCounter_twice (c : Crypto) (key iv buf : List UInt8) :
    encryptCounter c key iv (encryptCounter c key iv buf) = buf :=
  mask_mask _ xor_cancel _ _

theorem payloadStart_bounds {buf : List UInt8} {start : Nat} (h : payloadStart buf = some start) :
    12 ≤ start ∧ start ≤ buf.length := by
  unfold payloadStart at h
  dsimp only at h
  split at h
  · cases h
  · split at h
    · split at h
      · cases h
      · split at h
        · cases h
        · cases h
          omega
    · cases h
      omega

variable {buf buf' : List UInt8}

theorem avRb16_congr {i : Nat} (h : byteAt buf' i = byteAt buf i)
    (h' : byteAt buf' (i + 1) = byteAt buf (i + 1)) : avRb16 buf' i = avRb16 buf i := by
  rw [avRb16, avRb16, h, h']

theorem avRb32_congr {i : Nat} (h : ∀ j < 4, byteAt buf' (i + j) = byteAt buf (i + j)) :
    avRb32 buf' i = avRb32 buf i := by
  have hlow : avRb16 buf' i = avRb16 buf i := avRb16_congr (h 0 (by decide)) (h 1 (by decide))
  have hhigh : avRb16 buf' (i + 2) = avRb16 buf (i + 2) :=
    avRb16_congr (h 2 (by decide)) (h 3 (by decide))
  rw [avRb32, avRb32, hlow, hhigh]

theorem payloadStart_congr {start : Nat} (h : payloadStart buf = some start)
    (hlen : buf'.length = buf.length) (hbytes : ∀ i < start, byteAt buf' i = byteAt buf i) :
    payloadStart buf' = some start := by
  have hbounds := payloadStart_bounds h
  rw [← h]
  unfold payloadStart at h ⊢
  rw [hlen, hbytes 0 (by omega)]
  dsimp only at h ⊢
  split
  · rfl
  · next hstart =>
      rw [if_neg hstart] at h
      split
      · next hext =>
          rw [if_pos hext] at h
          split
          · rfl
          · next hroom =>
              rw [if_neg hroom] at h
              have hle : 12 + 4 * (byteAt buf 0 &&& 0x0F).toNat + 4 ≤ start := by
                split at h
                · cases h
                · cases h
                  omega
              rw [avRb16_congr (hbytes _ (by omega)) (hbytes _ (by omega))]
      · rfl

def rtpBody (c : Crypto) (keys : Keys) (roc : UInt32) (start : Nat) (plain : List UInt8) : List UInt8 :=
  plain.take start ++ encryptCounter c keys.rtpKey
    (createIv keys.rtpSalt (rocIndex (avRb16 plain 2).toNat roc) (avRb32 plain 8)) (plain.drop start)

def rtpTag (c : Crypto) (keys : Keys) (roc : UInt32) (body : List UInt8) : List UInt8 :=
  (c.hmac keys.rtpAuth (body ++ beBytes 4 roc.toNat)).take keys.rtpHmacSize

def rtcpBody (c : Crypto) (keys : Keys) (index : UInt32) (plain : List UInt8) : List UInt8 :=
  plain.take 8 ++ encryptCounter c keys.rtcpKey
    (createIv keys.rtcpSalt index.toUInt64 (avRb32 plain 4)) (plain.drop 8) ++
      beBytes 4 (0x80000000 ||| index).toNat

def rtcpTag (c : Crypto) (keys : Keys) (body : List UInt8) : List UInt8 :=
  (c.hmac keys.rtcpAuth body).take keys.rtcpHmacSize

section Bodies

variable {c : Crypto} {keys : Keys} {plain : List UInt8}

@[simp] theorem length_rtpTag (roc : UInt32) (body : List UInt8) :
    (rtpTag c keys roc body).length = keys.rtpHmacSize := by
  rw [rtpTag, List.length_take, c.hmac_length]
  exact Nat.min_eq_left keys.rtp_le

@[simp] theorem length_rtcpTag (body : List UInt8) : (rtcpTag c keys body).length = keys.rtcpHmacSize := by
  rw [rtcpTag, List.length_take, c.hmac_length]
  exact Nat.min_eq_left keys.rtcp_le

theorem byteAt_take_append {n i : Nat} (hn : n ≤ plain.length) (hi : i < n) (rest : List UInt8) :
    byteAt (plain.take n ++ rest) i = byteAt plain i := by
  rw [byteAt_append_left (by rw [List.length_take]; omega)]
  simp only [byteAt, List.getD_eq_getElem?_getD, List.getElem?_take, if_pos hi]

@[simp] theorem length_rtpBody (roc : UInt32) (start : Nat) :
    (rtpBody c keys roc start plain).length = plain.length := by
  simp only [rtpBody, List.length_append, length_encryptCounter, List.length_take, List.length_drop]
  omega

theorem byteAt_rtpBody {start i : Nat} (h : payloadStart plain = some start) (roc : UInt32)
    (hi : i < start) : byteAt (rtpBody c keys roc start plain) i = byteAt plain i :=
  byteAt_take_append (payloadStart_bounds h).2 hi _

theorem payloadStart_rtpBody {start : Nat} (h : payloadStart plain = some start) (roc : UInt32) :
    payloadStart (rtpBody c keys roc start plain) = some start :=
  payloadStart_congr h (length_rtpBody roc start) fun _ hi => byteAt_rtpBody h roc hi

@[simp] theorem length_rtcpBody (index : UInt32) (h : 8 ≤ plain.length) :
    (rtcpBody c keys index plain).length = plain.length + 4 := by
  simp only [rtcpBody, List.length_append, length_encryptCounter, List.length_take, List.length_drop,
    length_beBytes]
  omega

theorem byteAt_rtcpBody {i : Nat} (h : 8 ≤ plain.length) (index : UInt32) (hi : i < 8) :
    byteAt (rtcpBody c keys index plain) i = byteAt plain i := by
  rw [rtcpBody, List.append_assoc]
  exact byteAt_take_append h hi _

theorem avRb32_beBytes (xs : List UInt8) (v : UInt32) : avRb32 (xs ++ beBytes 4 v.toNat) xs.length = v := by
  have hread := avRb32_length xs [] v.toNat_lt
  rwa [List.append_nil, UInt32.ofNat_toNat] at hread

theorem or_and (a b m : UInt32) : (a ||| b) &&& m = a &&& m ||| b &&& m :=
  UInt32.toBitVec_inj.mp BitVec.and_or_distrib_right

theorem encrypted_flag (index : UInt32) : (0x80000000 ||| index) &&& 0x80000000 ≠ 0 := by
  rw [or_and, ne_eq, UInt32.or_eq_zero_iff]
  exact fun h => absurd h.1 (by decide)

theorem encrypted_index (index : UInt32) : (0x80000000 ||| index) &&& 0x7FFFFFFF = index &&& 0x7FFFFFFF := by
  have hflag : (0x80000000 : UInt32) &&& 0x7FFFFFFF = 0 := by decide
  rw [or_and, hflag, UInt32.zero_or]

theorem small_index {index : UInt32} (h : index.toNat < 2147483648) : index &&& 0x7FFFFFFF = index := by
  apply UInt32.toNat_inj.mp
  rw [UInt32.toNat_and]
  exact @Nat.and_two_pow_sub_one_of_lt_two_pow 31 index.toNat h

end Bodies

section Decrypt

variable {c : Crypto} {s : SRTPContext} {plain : List UInt8}

theorem ffSrtpDecrypt_append {body tag : List UInt8} (hlen : 2 ≤ body.length)
    (htag : tag.length = if rtpPtIsRtcp (byteAt body 1) then s.rtcpHmacSize else s.rtpHmacSize) :
    ffSrtpDecrypt c s (body ++ tag) =
      if rtpPtIsRtcp (byteAt body 1) then decryptRtcp c s (body ++ tag) body tag
      else decryptRtp c s (body ++ tag) body tag := by
  have hbyte : byteAt (body ++ tag) 1 = byteAt body 1 := byteAt_append_left (by omega)
  have hcut : (body ++ tag).length - tag.length = body.length := by
    rw [List.length_append]
    omega
  unfold ffSrtpDecrypt
  dsimp only
  rw [hbyte, ← htag, hcut, List.take_left, List.drop_left, if_neg (by rw [List.length_append]; omega),
    if_neg (by rw [List.length_append]; omega)]

/-- A packet whose rollover counter is guessed right is accepted if the tags for the
counter of the sender and for that of the receiver agree. -/
theorem decryptRtp_body {roc : UInt32} {start : Nat} {rest : List UInt8}
    (hstart : payloadStart plain = some start) (hguess : packetRoc s (avRb16 plain 2).toNat = roc) :
    let body := rtpBody c s.toKeys roc start plain
    let largest := advance s (avRb16 plain 2).toNat
    decryptRtp c s (body ++ rest) body (rtpTag c s.toKeys roc body) =
      if rtpTag c s.toKeys largest.2 body = rtpTag c s.toKeys roc body then
        (0, plain, { s with seqInitialized := true, seqLargest := largest.1, roc := largest.2 })
      else (averrorInvaliddata, body ++ rest, s) := by
  have hbounds := payloadStart_bounds hstart
  have hlen := @length_rtpBody c s.toKeys plain roc start
  have hbyte : ∀ i < start, byteAt (rtpBody c s.toKeys roc start plain ++ rest) i = byteAt plain i := by
    intro i hi
    rw [byteAt_append_left (by omega), byteAt_rtpBody hstart roc hi]
  have hseq : avRb16 (rtpBody c s.toKeys roc start plain ++ rest) 2 = avRb16 plain 2 :=
    avRb16_congr (hbyte 2 (by omega)) (hbyte 3 (by omega))
  have hssrc : avRb32 (rtpBody c s.toKeys roc start plain) 8 = avRb32 plain 8 :=
    avRb32_congr fun j hj => byteAt_rtpBody hstart roc (by omega)
  have hplain : (rtpBody c s.toKeys roc start plain).take start ++ encryptCounter c s.rtpKey
      (createIv s.rtpSalt (rocIndex (avRb16 plain 2).toNat roc) (avRb32 plain 8))
      ((rtpBody c s.toKeys roc start plain).drop start) = plain := by
    have htake : (plain.take start).length = start := by
      rw [List.length_take]
      omega
    rw [rtpBody, List.take_left' htake, List.drop_left' htake, encryptCounter_twice,
      List.take_append_drop]
  have hbody := @payloadStart_rtpBody c s.toKeys plain start hstart roc
  dsimp only
  generalize rtpBody c s.toKeys roc start plain = body at *
  have htag : ∀ r, (c.hmac s.rtpAuth (body ++ beBytes 4 r.toNat)).take s.rtpHmacSize =
      rtpTag c s.toKeys r body := fun _ => rfl
  unfold decryptRtp
  dsimp only
  rw [hseq, hguess, hbody, hssrc, htag, if_neg (show ¬body.length < 12 by omega)]
  dsimp only
  rw [hplain]
  by_cases hagree : rtpTag c s.toKeys (advance s (avRb16 plain 2).toNat).2 body =
      rtpTag c s.toKeys roc body
  · rw [if_pos hagree, if_neg (not_not.mpr hagree)]
  · rw [if_neg hagree, if_pos hagree]

theorem decryptRtcp_body {index : UInt32} {rest : List UInt8} (hlen : 8 ≤ plain.length) :
    let body := rtcpBody c s.toKeys index plain
    decryptRtcp c s (body ++ rest) body (rtcpTag c s.toKeys body) =
      (0, plain.take 8 ++ encryptCounter c s.rtcpKey
        (createIv s.rtcpSalt (index &&& 0x7FFFFFFF).toUInt64 (avRb32 plain 4))
        (encryptCounter c s.rtcpKey (createIv s.rtcpSalt index.toUInt64 (avRb32 plain 4))
          (plain.drop 8)), s) := by
  have hdata : rtcpBody c s.toKeys index plain =
      plain.take 8 ++ encryptCounter c s.rtcpKey
        (createIv s.rtcpSalt index.toUInt64 (avRb32 plain 4)) (plain.drop 8) ++
          beBytes 4 (0x80000000 ||| index).toNat := rfl
  have htake : (plain.take 8).length = 8 := by
    rw [List.length_take]
    omega
  have hssrc : avRb32 (plain.take 8 ++ encryptCounter c s.rtcpKey
      (createIv s.rtcpSalt index.toUInt64 (avRb32 plain 4)) (plain.drop 8)) 4 = avRb32 plain 4 :=
    avRb32_congr fun j hj => byteAt_take_append hlen (by omega) _
  have hbody := @length_rtcpBody c s.toKeys plain index hlen
  dsimp only
  rw [hdata] at hbody ⊢
  generalize hmasked : encryptCounter c s.rtcpKey
    (createIv s.rtcpSalt index.toUInt64 (avRb32 plain 4)) (plain.drop 8) = masked at *
  have hcut : (plain.take 8 ++ masked ++ beBytes 4 (0x80000000 ||| index).toNat).length - 4 =
      (plain.take 8 ++ masked).length := by
    rw [@List.length_append _ (plain.take 8 ++ masked), length_beBytes]
    omega
  unfold decryptRtcp
  dsimp only
  rw [rtcpTag, if_neg (not_not.mpr rfl), if_neg (by omega), hcut, avRb32_beBytes, if_neg (encrypted_flag index),
    encrypted_index, List.take_left, hssrc, List.take_left' htake, List.drop_left' htake]

end Decrypt

end P2PFFmpeg.Srtp
