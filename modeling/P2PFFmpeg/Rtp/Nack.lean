import P2PFFmpeg.Payload.AccessUnit
import P2PFFmpeg.Rtp.JitterBuffer

namespace P2PFFmpeg.Rtp

open Util Library.Serial Library.Transition
open P2PFFmpeg.Payload (beBytes length_beBytes byteAt_append_right avRb16_beBytes)

variable {σ : Type} {s : RTPDemuxContext σ}

/-- The loop of find_missing_packets over the turns that are left: `queue` is where
its cursor stands. -/
def missingMask (nextSeq : UInt16) : List Nat → List RTPPacket → UInt16 → UInt16
  | [], _, mask => mask
  | i :: turns, queue, mask =>
      let missingSeq := nextSeq + UInt16.ofNat i
      match queue.dropWhile fun pkt => signed16 (pkt.seq - missingSeq) < 0 with
      | [] => mask
      | pkt :: rest =>
          missingMask nextSeq turns (pkt :: rest)
            (if pkt.seq = missingSeq then mask else mask ||| 1 <<< UInt16.ofNat (i - 1))

/-- The first missing number and the mask, where the function returns 1. -/
def findMissingPackets (s : RTPDemuxContext σ) : Option (UInt16 × UInt16) :=
  let nextSeq := s.seq + 1
  match s.queue with
  | [] => none
  | pkt :: rest =>
      if pkt.seq = nextSeq then none
      else some (nextSeq, missingMask nextSeq (List.range' 1 16) (pkt :: rest) 0)

def minFeedbackInterval : Int := 200000

def rtcpRtpfb : UInt8 := 205

def rtcpPsfb : UInt8 := 206

/-- The message sent, and the time of the last feedback afterwards. -/
def ffRtpSendRtcpFeedback (s : RTPDemuxContext σ) (needKeyframe : Bool) (now lastFeedbackTime : Int) :
    List UInt8 × Int :=
  let missing := findMissingPackets s
  if ¬needKeyframe ∧ missing.isNone then ([], lastFeedbackTime)
  else if lastFeedbackTime ≠ 0 ∧ now - lastFeedbackTime < minFeedbackInterval then ([], lastFeedbackTime)
  else
    let pli := if needKeyframe then
      [0x81, rtcpPsfb] ++ beBytes 2 2 ++ beBytes 4 (s.ssrc + 1).toNat ++ beBytes 4 s.ssrc.toNat else []
    let nack := match missing with
      | none => []
      | some (firstMissing, mask) =>
          [0x81, rtcpRtpfb] ++ beBytes 2 3 ++ beBytes 4 (s.ssrc + 1).toNat ++ beBytes 4 s.ssrc.toNat ++
            (beBytes 2 firstMissing.toNat ++ beBytes 2 mask.toNat)
    (pli ++ nack, now)

def Names (firstMissing mask x : UInt16) : Prop :=
  x = firstMissing ∨ ∃ i, 1 ≤ i ∧ i ≤ 16 ∧ mask.toNat.testBit (i - 1) ∧ x = firstMissing + UInt16.ofNat i

def InWindow (s : RTPDemuxContext σ) (x : UInt16) : Prop :=
  (∃ k, 1 ≤ k ∧ k ≤ 17 ∧ x = s.seq + UInt16.ofNat k) ∧ ∃ last ∈ s.queue.getLast?, Precedes x last.seq

def IsQueued (s : RTPDemuxContext σ) (x : UInt16) : Prop := ∃ packet ∈ s.queue, packet.seq = x

/-- What is asked for is what the window lacks. -/
structure NacksRight (s : RTPDemuxContext σ) : Prop where
  asks : (findMissingPackets s).isSome ↔ ¬IsQueued s (s.seq + 1) ∧ s.queue ≠ []
  names : ∀ firstMissing mask, findMissingPackets s = some (firstMissing, mask) →
    ∀ x, Names firstMissing mask x ↔ InWindow s x ∧ ¬IsQueued s x
  sent : ∀ needKeyframe now lastFeedbackTime firstMissing mask, findMissingPackets s = some (firstMissing, mask) →
    let message := (ffRtpSendRtcpFeedback s needKeyframe now lastFeedbackTime).1
    message ≠ [] → avRb16 message (message.length - 4) = firstMissing ∧
      avRb16 message (message.length - 2) = mask

section Mask

structure Lost (s : RTPDemuxContext σ) (x : UInt16) : Prop where
  passed : ∃ packet ∈ s.queue, ahead s.seq x < ahead s.seq packet.seq
  absent : ¬IsQueued s x

theorem setBit {mask : UInt16} {i j : Nat} (hi : i < 16) :
    (mask ||| 1 <<< UInt16.ofNat i).toNat.testBit j ↔ mask.toNat.testBit j ∨ j = i := by
  have hshift : (UInt16.ofNat i).toNat % 16 = i := by
    rw [UInt16.toNat_ofNat_of_lt' (by omega : i < 65536), Nat.mod_eq_of_lt hi]
  have hone : ((1 : UInt16) <<< UInt16.ofNat i).toNat = 2 ^ i := by
    rw [UInt16.toNat_shiftLeft, hshift, show (1 : UInt16).toNat = 1 from rfl, Nat.one_shiftLeft]
    exact Nat.mod_eq_of_lt (Nat.pow_lt_pow_right (by decide) hi)
  rw [UInt16.toNat_or, hone, Nat.testBit_or, Nat.testBit_two_pow, Bool.or_eq_true, decide_eq_true_eq]
  exact or_congr_right eq_comm

theorem next_add (s : RTPDemuxContext σ) (i : Nat) : s.seq + 1 + UInt16.ofNat i = s.seq + UInt16.ofNat (i + 1) := by
  rw [UInt16.ofNat_add, UInt16.add_assoc, UInt16.add_comm 1]
  rfl

theorem window_ahead (s : RTPDemuxContext σ) {i : Nat} (hi : i ≤ 16) :
    ahead s.seq (s.seq + 1 + UInt16.ofNat i) = i + 1 := by
  rw [next_add, ahead_add_ofNat _ (by omega)]

theorem head_lost {pkt : RTPPacket} {rest : List RTPPacket} {target : UInt16}
    (hspread : Spread RTPPacket.seq s.seq (pkt :: rest))
    (hmem : ∀ a, a ∈ pkt :: rest ↔ a ∈ s.queue ∧ ahead s.seq target ≤ ahead s.seq a.seq) :
    pkt.seq ≠ target ↔ Lost s target := by
  obtain ⟨hpkt, hreached⟩ := (hmem pkt).mp (by simp)
  constructor
  · intro hne
    have hfar : ahead s.seq pkt.seq ≠ ahead s.seq target := fun heq => hne (ahead_inj heq)
    refine ⟨⟨pkt, hpkt, by omega⟩, ?_⟩
    rintro ⟨p, hp, rfl⟩
    rcases List.mem_cons.mp ((hmem p).mpr ⟨hp, le_refl _⟩) with rfl | hrest
    · exact hne rfl
    · have hhead := (List.pairwise_cons.mp hspread.sorted).1 p hrest
      omega
  · intro hlost heq
    exact hlost.absent ⟨pkt, hpkt, heq⟩

theorem missingMask_testBit {n i : Nat} (hi : 1 ≤ i) (hn : i + n = 17) {queue : List RTPPacket}
    (hspread : Spread RTPPacket.seq s.seq queue)
    (hqueue : ∀ a, i + 1 ≤ ahead s.seq a.seq → (a ∈ queue ↔ a ∈ s.queue)) {mask : UInt16} {j : Nat} (hj : j < 16) :
    (missingMask (s.seq + 1) (List.range' i n) queue mask).toNat.testBit j ↔
      mask.toNat.testBit j ∨ (i ≤ j + 1 ∧ Lost s (s.seq + 1 + UInt16.ofNat (j + 1))) := by
  induction n generalizing i queue mask with
  | zero =>
      have hlast : ¬i ≤ j + 1 := by omega
      simp [missingMask, hlast]
  | succ n ih =>
      have htarget := window_ahead s (show i ≤ 16 by omega)
      have hleft : ∀ a, a ∈ queue.dropWhile (fun pkt => signed16 (pkt.seq - (s.seq + 1 + UInt16.ofNat i)) < 0) ↔
          a ∈ s.queue ∧ ahead s.seq (s.seq + 1 + UInt16.ofNat i) ≤ ahead s.seq a.seq := by
        intro a
        rw [hspread.mem_dropWhile (by omega), htarget]
        exact and_congr_left fun hfar => hqueue a hfar
      have hrest := hspread.sublist (queue.dropWhile_sublist
        (fun pkt => signed16 (pkt.seq - (s.seq + 1 + UInt16.ofNat i)) < 0))
      rw [List.range'_succ, missingMask]
      split
      · next hnil =>
          -- the cursor has run off the queue: no later number is before a queued one
          rw [hnil] at hleft
          have hnone : ¬(i ≤ j + 1 ∧ Lost s (s.seq + 1 + UInt16.ofNat (j + 1))) := by
            rintro ⟨hle, ⟨packet, hpacket, hlt⟩, _⟩
            rw [window_ahead s (by omega)] at hlt
            exact nomatch (hleft packet).mpr ⟨hpacket, by omega⟩
          simp only [hnone, or_false]
      · next pkt rest hcons =>
          rw [hcons] at hleft hrest
          have hhead := head_lost hrest hleft
          rw [ih (by omega) (by omega) hrest (fun a ha => by
            rw [hleft a, htarget]
            exact and_iff_left (by omega))]
          split
          · next heq =>
              have hkept : ¬Lost s (s.seq + 1 + UInt16.ofNat i) := fun hlost => hhead.mpr hlost heq
              refine or_congr_right (and_congr_left fun hlost => ?_)
              have hother : j + 1 ≠ i := fun hsame => hkept (hsame ▸ hlost)
              omega
          · next hne =>
              have hlost := hhead.mp hne
              rw [setBit (by omega), or_assoc]
              refine or_congr_right ?_
              constructor
              · rintro (rfl | ⟨hle, hl⟩)
                · rw [Nat.sub_add_cancel hi]
                  exact ⟨le_refl _, hlost⟩
                · exact ⟨by omega, hl⟩
              · rintro ⟨hle, hl⟩
                rcases Nat.eq_or_lt_of_le hle with heq | hlt
                · exact .inl (by omega)
                · exact .inr ⟨hlt, hl⟩

theorem toNat_testBit_zero (j : Nat) : (0 : UInt16).toNat.testBit j = false := Nat.zero_testBit j

theorem findMissingPackets_some (h : Spread RTPPacket.seq s.seq s.queue) {firstMissing mask : UInt16}
    (hfind : findMissingPackets s = some (firstMissing, mask)) :
    firstMissing = s.seq + 1 ∧ Lost s (s.seq + 1) ∧ ∀ j, j < 16 →
      (mask.toNat.testBit j ↔ Lost s (s.seq + 1 + UInt16.ofNat (j + 1))) := by
  unfold findMissingPackets at hfind
  dsimp only at hfind
  split at hfind
  · cases hfind
  · next pkt rest hq =>
      split at hfind
      · cases hfind
      · next hne =>
          cases hfind
          refine ⟨rfl, ?_, fun j hj => ?_⟩
          · refine (head_lost (hq ▸ h) fun a => ?_).mp hne
            rw [← hq]
            refine (and_iff_left_of_imp fun ha => ?_).symm
            have hnear := precedes_iff.mp (h.near a ha)
            have hone : ahead s.seq (s.seq + 1) = 1 := ahead_add_ofNat s.seq (by decide : 1 < 65536)
            omega
          · rw [missingMask_testBit (le_refl 1) rfl (hq ▸ h) (fun a _ => by rw [hq]) hj, toNat_testBit_zero]
            simp

theorem findMissingPackets_asks (h : Spread RTPPacket.seq s.seq s.queue) :
    (findMissingPackets s).isSome ↔ ¬IsQueued s (s.seq + 1) ∧ s.queue ≠ [] := by
  constructor
  · intro hsome
    obtain ⟨⟨firstMissing, mask⟩, hfind⟩ := Option.isSome_iff_exists.mp hsome
    obtain ⟨_, hlost, _⟩ := findMissingPackets_some h hfind
    refine ⟨hlost.absent, ?_⟩
    obtain ⟨packet, hpacket, _⟩ := hlost.passed
    exact List.ne_nil_of_mem hpacket
  · rintro ⟨habsent, hne⟩
    obtain ⟨pkt, rest, hq⟩ := List.exists_cons_of_ne_nil hne
    have hother : pkt.seq ≠ s.seq + 1 := fun heq => habsent ⟨pkt, by simp [hq], heq⟩
    unfold findMissingPackets
    rw [hq]
    simp [hother]

theorem lost_iff (h : Spread RTPPacket.seq s.seq s.queue) {k : Nat} (hk : 1 ≤ k) (hle : k ≤ 17) :
    Lost s (s.seq + UInt16.ofNat k) ↔
      InWindow s (s.seq + UInt16.ofNat k) ∧ ¬IsQueued s (s.seq + UInt16.ofNat k) := by
  have hahead := ahead_add_ofNat s.seq (by omega : k < 65536)
  have hlast := @Spread.precedes_last _ _ _ _ (s.seq + UInt16.ofNat k) h (by omega)
  constructor
  · intro hlost
    exact ⟨⟨⟨k, hk, hle, rfl⟩, hlast.mpr hlost.passed⟩, hlost.absent⟩
  · rintro ⟨⟨_, hpassed⟩, habsent⟩
    exact ⟨hlast.mp hpassed, habsent⟩

theorem names_iff (h : Spread RTPPacket.seq s.seq s.queue) {firstMissing mask : UInt16}
    (hfind : findMissingPackets s = some (firstMissing, mask)) (x : UInt16) :
    Names firstMissing mask x ↔ InWindow s x ∧ ¬IsQueued s x := by
  obtain ⟨rfl, hfirst, hbits⟩ := findMissingPackets_some h hfind
  constructor
  · rintro (rfl | ⟨i, hi, hle, hbit, rfl⟩)
    · exact (@lost_iff _ _ h 1 (le_refl 1) (by decide)).mp hfirst
    · have hlost := (hbits (i - 1) (by omega)).mp hbit
      rw [Nat.sub_add_cancel hi, next_add] at hlost
      rw [next_add]
      exact (lost_iff h (by omega) (by omega)).mp hlost
  · rintro ⟨hwindow, habsent⟩
    obtain ⟨k, hk, hle, rfl⟩ := hwindow.1
    have hlost := (lost_iff h hk hle).mpr ⟨hwindow, habsent⟩
    rcases Nat.eq_or_lt_of_le hk with rfl | hlt
    · exact .inl rfl
    · refine .inr ⟨k - 1, by omega, by omega, (hbits _ (by omega)).mpr ?_, ?_⟩
      · rw [next_add, show k - 1 - 1 + 1 + 1 = k by omega]
        exact hlost
      · rw [next_add, Nat.sub_add_cancel hk]

end Mask

section Feedback

theorem avRb16_append (xs ys : List UInt8) {i : Nat} (hi : xs.length ≤ i) :
    avRb16 (xs ++ ys) i = avRb16 ys (i - xs.length) := by
  unfold avRb16
  rw [byteAt_append_right hi, byteAt_append_right (by omega), show i + 1 - xs.length = i - xs.length + 1 by omega]

theorem tail_reads (xs : List UInt8) (firstMissing mask : UInt16) :
    let message := xs ++ (beBytes 2 firstMissing.toNat ++ beBytes 2 mask.toNat)
    avRb16 message (message.length - 4) = firstMissing ∧ avRb16 message (message.length - 2) = mask := by
  intro message
  have hlen : message.length = xs.length + 4 := by
    simp [message, length_beBytes]
  rw [hlen]
  constructor
  · rw [avRb16_append _ _ (by omega), ← UInt16.toNat_inj, show xs.length + 4 - 4 - xs.length = 0 by omega]
    exact avRb16_beBytes firstMissing.toNat_lt _
  · rw [avRb16_append _ _ (by omega), avRb16_append _ _ (by rw [length_beBytes]; omega), length_beBytes,
      ← UInt16.toNat_inj, show xs.length + 4 - 2 - xs.length - 2 = 0 by omega, ← List.append_nil (beBytes 2 mask.toNat)]
    exact avRb16_beBytes mask.toNat_lt _

theorem feedback_sent {firstMissing mask : UInt16} (hfind : findMissingPackets s = some (firstMissing, mask))
    (needKeyframe : Bool) (now lastFeedbackTime : Int) :
    let message := (ffRtpSendRtcpFeedback s needKeyframe now lastFeedbackTime).1
    message ≠ [] → avRb16 message (message.length - 4) = firstMissing ∧
      avRb16 message (message.length - 2) = mask := by
  intro message hsent
  unfold message ffRtpSendRtcpFeedback at hsent ⊢
  simp only [hfind, Option.isNone_some, Bool.false_eq_true, and_false, if_false] at hsent ⊢
  split at hsent
  · exact absurd rfl hsent
  · next hdue =>
      rw [if_neg hdue]
      dsimp only
      rw [← List.append_assoc]
      exact tail_reads _ firstMissing mask

end Feedback

/-- In every run without repeated packets feedback asks for what the queue lacks. -/
theorem nacks_right {d : Decoder σ} (h : ((decoder σ).restrict Unrepeated).Reachable d) : NacksRight d.ctx := by
  have hspread := (buffered_of_reachable h).filed.spread
  exact
    { asks := findMissingPackets_asks hspread
      names := fun _ _ hfind x => names_iff hspread hfind x
      sent := fun needKeyframe now lastFeedbackTime _ _ hfind => feedback_sent hfind needKeyframe now lastFeedbackTime }

section Examples

def unrepeatedCheck (d : Decoder σ) (l : RtpLabel) : Bool :=
  (packetOf d l).all fun buf => !carriesRtp buf.data || d.ctx.queue.all fun packet => packet.seq ≠ seqOf buf.data

theorem unrepeated_of_check (d : Decoder σ) (l : RtpLabel) (h : unrepeatedCheck d l = true) : Unrepeated d l := by
  intro buf hbuf hrtp packet hpacket
  rw [unrepeatedCheck, Option.mem_def.mp hbuf, Option.all_some, hrtp, Bool.not_true, Bool.false_or,
    List.all_eq_true] at h
  exact of_decide_eq_true (h packet hpacket)

/-- The packets 65534, 1 and 3 leave 65535, 0 and 2 to be asked for. -/
theorem nacks_right_gaps : ∃ d : Decoder Unit, ((decoder Unit).restrict Unrepeated).Reachable d ∧
    findMissingPackets d.ctx = some (65535, 5) ∧ NacksRight d.ctx := by
  have hview : (((decoder Unit).guard unrepeatedCheck).run [arrives 1 65534, arrives 2 3, arrives 3 1]
      reordererStart).map (fun d => findMissingPackets d.ctx) = some (some (65535, 5)) := by
    decide +kernel
  obtain ⟨d, hrun, hd⟩ := Option.map_eq_some_iff.mp hview
  have hreach := @System.Reachable.of_guard _ _ (decoder Unit) _ _ unrepeated_of_check _ _ _
    reordererStart_init.1 hrun
  exact ⟨d, hreach, hd, nacks_right hreach⟩

/-- Packet 5 comes twice while 4 is missing; once 4 and one of the two are parsed, the
other one makes feedback ask for 6, which no packet is ahead of. -/
theorem repeated_packet_asks_ahead : ¬∀ d : Decoder Unit, (decoder Unit).Reachable d → NacksRight d.ctx := by
  intro hall
  have hview : ((decoder Unit).run
      [arrives 1 3, arrives 2 5, arrives 3 5, arrives 4 4, .parsePacket plainEnv .blank none]
      reordererStart).map (fun d => (findMissingPackets d.ctx, d.ctx.queue.map RTPPacket.seq)) =
        some (some (6, 0), [5]) := by
    decide +kernel
  obtain ⟨d, hrun, hd⟩ := Option.map_eq_some_iff.mp hview
  obtain ⟨hfind, hqueue⟩ := Prod.mk.inj hd
  have hright := hall d (.of_run reordererStart_init.1 hrun)
  obtain ⟨⟨_, last, hlast, hprecedes⟩, _⟩ := (hright.names 6 0 hfind 6).mp (.inl rfl)
  have hmem : last.seq ∈ d.ctx.queue.map RTPPacket.seq :=
    List.mem_map_of_mem (List.mem_of_getLast? hlast)
  rw [hqueue, List.mem_singleton] at hmem
  rw [hmem] at hprecedes
  exact absurd hprecedes (by decide)

end Examples

end P2PFFmpeg.Rtp
