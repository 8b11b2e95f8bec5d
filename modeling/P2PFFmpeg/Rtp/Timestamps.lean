import P2PFFmpeg.Rtp.Context

namespace P2PFFmpeg.Rtp

open Util

variable {σ : Type}

structure Unstarted (s : RTPDemuxContext σ) : Prop where
  rtcp : s.lastRtcpNtpTime = none
  timestamp : s.timestamp = 0
  base : s.baseTimestamp = 0
  unwrapped : s.unwrappedTimestamp = 0

/-- A packet that the depacketizer has given no time, with its RTP timestamp. -/
structure Untimed where
  pkt : AVPacket
  timestamp : UInt32
  noPts : pkt.pts = none
  noDts : pkt.dts = none

def finalizePackets (s : RTPDemuxContext σ) : List Untimed → List AVPacket
  | [] => []
  | u :: us =>
      let r := finalizePacket s u.pkt u.timestamp
      r.1 :: finalizePackets r.2 us

def differences : List UInt32 → List Int
  | t :: t' :: ts => signed32 (t' - t) :: differences (t' :: ts)
  | _ => []

/-- A start, and the start with the differences added up. -/
def expectedPts (start : Int) : List UInt32 → List Int
  | [] => []
  | t :: ts => (differences (t :: ts)).scanl (· + ·) start

/-- Every packet gets the start with the differences up to it. -/
def Continuous (s : RTPDemuxContext σ) (us : List Untimed) : Prop :=
  (finalizePackets s us).map AVPacket.pts = (expectedPts s.rangeStartOffset (us.map Untimed.timestamp)).map some

/-- No timestamp is the one that stands for none, and either all are zero, or the
first is not and behind every zero the next is below 2^31. -/
structure Unwraps (times : List UInt32) : Prop where
  set : ∀ t ∈ times, t ≠ rtpNotsValue
  zeros : (∀ t ∈ times, t = 0) ∨
    times.head? ≠ some 0 ∧ times.IsChain fun t t' => t = 0 → t'.toNat < 2147483648

section Steps

variable {s : RTPDemuxContext σ} {t : UInt32} {u : Untimed} {us : List Untimed}

theorem expectedPts_cons (start : Int) (t t' : UInt32) (ts : List UInt32) :
    expectedPts start (t :: t' :: ts) = start :: expectedPts (start + signed32 (t' - t)) (t' :: ts) := by
  rw [expectedPts, differences, List.scanl_cons]
  rfl

theorem signed32_eq_iff : signed32 t = t.toNat ↔ t.toNat < 2147483648 := by
  have hcond := BitVec.toInt_eq_toNat_cond t.toBitVec
  rw [UInt32.toNat_toBitVec] at hcond
  unfold signed32
  split at hcond <;> omega

theorem signed32_eq_zero_iff : signed32 t = 0 ↔ t = 0 := by
  have hcond := BitVec.toInt_eq_toNat_cond t.toBitVec
  have hlt := t.toNat_lt
  rw [UInt32.toNat_toBitVec] at hcond
  rw [← UInt32.toNat_inj]
  unfold signed32
  split at hcond <;> (change _ ↔ t.toNat = 0; omega)

theorem finalizePacket_notSet (h : u.timestamp = rtpNotsValue) : finalizePacket s u.pkt u.timestamp = (u.pkt, s) := by
  rw [finalizePacket, if_neg (by simp [u.noPts, u.noDts]), if_pos h]

theorem finalizePacket_unwrap (hrtcp : s.lastRtcpNtpTime = none) (h : u.timestamp ≠ rtpNotsValue) :
    finalizePacket s u.pkt u.timestamp = finalizePacket.unwrap s u.pkt u.timestamp := by
  rw [finalizePacket, if_neg (by simp [u.noPts, u.noDts]), if_neg h, hrtcp]

def lastPts (s : RTPDemuxContext σ) : Int := s.unwrappedTimestamp + s.rangeStartOffset - s.baseTimestamp.toNat

theorem expectedPts_head (start : Int) (t : UInt32) (ts : List UInt32) :
    expectedPts start (t :: ts) = start :: (expectedPts start (t :: ts)).tail := by
  cases ts with
  | nil => rfl
  | cons t' ts => rw [expectedPts_cons, List.tail_cons]

theorem unwrap_pts (s : RTPDemuxContext σ) (pkt : AVPacket) (t : UInt32) :
    (finalizePacket.unwrap s pkt t).1.pts = some (lastPts (finalizePacket.unwrap s pkt t).2) := rfl

theorem unwrap_step (s : RTPDemuxContext σ) (pkt : AVPacket) (t : UInt32) (hbase : s.baseTimestamp ≠ 0) :
    lastPts (finalizePacket.unwrap s pkt t).2 = lastPts s + signed32 (t - s.timestamp) ↔
      (s.timestamp = 0 → t.toNat < 2147483648) := by
  unfold lastPts finalizePacket.unwrap
  dsimp only
  rw [if_neg hbase]
  by_cases hzero : s.timestamp = 0
  · rw [if_pos hzero, hzero, UInt32.sub_zero, ← signed32_eq_iff]
    constructor
    · intro h _
      omega
    · intro h
      rw [h rfl]
      omega
  · rw [if_neg hzero]
    exact iff_of_true (by omega) fun h => absurd h hzero

theorem unwrap_base (s : RTPDemuxContext σ) (pkt : AVPacket) (t : UInt32) (hbase : s.baseTimestamp ≠ 0) :
    (finalizePacket.unwrap s pkt t).2.baseTimestamp ≠ 0 := by
  unfold finalizePacket.unwrap
  dsimp only
  rwa [if_neg hbase]

/-- Once the first timestamp is not zero, only a zero with a large timestamp behind
it breaks the sum. -/
theorem finalizePackets_started (hrtcp : s.lastRtcpNtpTime = none) (hbase : s.baseTimestamp ≠ 0) :
    (finalizePackets s us).map AVPacket.pts =
        ((expectedPts (lastPts s) (s.timestamp :: us.map Untimed.timestamp)).tail).map some ↔
      (∀ t ∈ us.map Untimed.timestamp, t ≠ rtpNotsValue) ∧
        (s.timestamp :: us.map Untimed.timestamp).IsChain fun t t' => t = 0 → t'.toNat < 2147483648 := by
  induction us generalizing s with
  | nil => simp [finalizePackets, expectedPts, differences]
  | cons u us ih =>
      rw [List.map_cons, expectedPts_cons, List.tail_cons, expectedPts_head, finalizePackets, List.map_cons,
        List.map_cons, List.isChain_cons_cons, List.cons.injEq, List.forall_mem_cons]
      by_cases hset : u.timestamp = rtpNotsValue
      · rw [finalizePacket_notSet hset, u.noPts]
        exact iff_of_false (fun h => nomatch h.1) fun h => h.1.1 hset
      · rw [finalizePacket_unwrap hrtcp hset, unwrap_pts, Option.some_inj,
          unwrap_step s u.pkt u.timestamp hbase]
        have hrest := ih (s := (finalizePacket.unwrap s u.pkt u.timestamp).2) hrtcp (unwrap_base s _ _ hbase)
        have hnext : (finalizePacket.unwrap s u.pkt u.timestamp).2.timestamp = u.timestamp := rfl
        rw [hnext] at hrest
        constructor
        · rintro ⟨hsmall, hsame⟩
          rw [← (unwrap_step s u.pkt u.timestamp hbase).mpr hsmall] at hsame
          obtain ⟨hall, hchain⟩ := hrest.mp hsame
          exact ⟨⟨hset, hall⟩, hsmall, hchain⟩
        · rintro ⟨⟨-, hall⟩, hsmall, hchain⟩
          refine ⟨hsmall, ?_⟩
          rw [← (unwrap_step s u.pkt u.timestamp hbase).mpr hsmall]
          exact hrest.mpr ⟨hall, hchain⟩

theorem unwrap_unstarted (hs : Unstarted s) (pkt : AVPacket) (t : UInt32) :
    lastPts (finalizePacket.unwrap s pkt t).2 = s.rangeStartOffset := by
  unfold lastPts finalizePacket.unwrap
  dsimp only
  rw [if_pos hs.base, if_pos hs.timestamp, hs.unwrapped]
  omega

theorem unwrap_zero (hs : Unstarted s) (pkt : AVPacket) : (finalizePacket.unwrap s pkt 0).2 = s := by
  obtain ⟨-, htimestamp, hbase, hunwrapped⟩ := hs
  cases s
  simp only at htimestamp hbase hunwrapped
  subst htimestamp hbase hunwrapped
  rfl

/-- As long as every timestamp is zero the start is kept; the first that is not is
taken for the start. -/
theorem finalizePackets_zeros (hs : Unstarted s) : (finalizePackets s us).map AVPacket.pts =
        ((expectedPts s.rangeStartOffset (0 :: us.map Untimed.timestamp)).tail).map some ↔
      ∀ t ∈ us.map Untimed.timestamp, t = 0 := by
  induction us generalizing s with
  | nil => simp [finalizePackets, expectedPts, differences]
  | cons u us ih =>
      rw [List.map_cons, expectedPts_cons, List.tail_cons, expectedPts_head, finalizePackets, List.map_cons,
        List.map_cons, List.cons.injEq, List.forall_mem_cons, UInt32.sub_zero]
      by_cases hset : u.timestamp = rtpNotsValue
      · rw [finalizePacket_notSet hset, u.noPts]
        refine iff_of_false (fun h => nomatch h.1) fun h => ?_
        rw [h.1] at hset
        exact absurd hset (by decide)
      · rw [finalizePacket_unwrap hs.rtcp hset, unwrap_pts, Option.some_inj, unwrap_unstarted hs]
        by_cases hzero : u.timestamp = 0
        · have hkept : Unstarted (finalizePacket.unwrap s u.pkt u.timestamp).2 := by
            rw [hzero, unwrap_zero hs]
            exact hs
          have hrange : (finalizePacket.unwrap s u.pkt u.timestamp).2.rangeStartOffset = s.rangeStartOffset := rfl
          have hrest := ih hkept
          rw [hrange] at hrest
          rw [hzero] at hrest ⊢
          rw [show signed32 0 = 0 from rfl, Int.add_zero, hrest]
          exact and_congr_left fun _ => iff_of_true rfl rfl
        · have hmoved := mt signed32_eq_zero_iff.mp hzero
          exact iff_of_false (fun h => hmoved (by omega)) fun h => hzero h.1

/-- Timestamps come out continuous where none stands for another, and otherwise some
packet gets a wrong pts or none. -/
theorem timestamps_unwrap_iff (hs : Unstarted s) (us : List Untimed) :
    Continuous s us ↔ Unwraps (us.map Untimed.timestamp) := by
  unfold Continuous
  cases us with
  | nil => exact iff_of_true rfl ⟨nofun, Or.inl nofun⟩
  | cons u us =>
      rw [List.map_cons, expectedPts_head, finalizePackets, List.map_cons, List.map_cons, List.cons.injEq]
      by_cases hset : u.timestamp = rtpNotsValue
      · rw [finalizePacket_notSet hset, u.noPts]
        exact iff_of_false (fun h => nomatch h.1) fun h => h.set _ List.mem_cons_self hset
      rw [finalizePacket_unwrap hs.rtcp hset, unwrap_pts, Option.some_inj, unwrap_unstarted hs, eq_self, true_and]
      by_cases hzero : u.timestamp = 0
      · rw [hzero, unwrap_zero hs, finalizePackets_zeros hs]
        constructor
        · intro hall
          refine ⟨fun t ht => ?_, Or.inl fun t ht => ?_⟩
          · obtain rfl | hmem := List.mem_cons.mp ht
            · decide
            · rw [hall t hmem]
              decide
          · obtain rfl | hmem := List.mem_cons.mp ht
            · rfl
            · exact hall t hmem
        · intro h t ht
          rcases h.zeros with hall | ⟨hhead, -⟩
          · exact hall t (List.mem_cons_of_mem _ ht)
          · exact absurd rfl hhead
      · have hbase : (finalizePacket.unwrap s u.pkt u.timestamp).2.baseTimestamp ≠ 0 := by
          unfold finalizePacket.unwrap
          dsimp only
          rwa [if_pos hs.base]
        have hrest := @finalizePackets_started σ (finalizePacket.unwrap s u.pkt u.timestamp).2 us hs.rtcp hbase
        rw [unwrap_unstarted hs] at hrest
        refine hrest.trans ⟨?_, fun h => ⟨fun t ht => h.set t (List.mem_cons_of_mem _ ht), ?_⟩⟩
        · rintro ⟨hall, hchain⟩
          exact ⟨List.forall_mem_cons.mpr ⟨hset, hall⟩, Or.inr ⟨fun h => hzero (Option.some.inj h), hchain⟩⟩
        · rcases h.zeros with hall | ⟨-, hchain⟩
          · exact absurd (hall _ List.mem_cons_self) hzero
          · exact hchain

end Steps

section Examples

def untimed (timestamp : UInt32) : Untimed where
  pkt := .blank
  timestamp := timestamp
  noPts := rfl
  noDts := rfl

theorem unstarted_open : Unstarted (ffRtpParseOpen 1 none 96 0 ()) := ⟨rfl, rfl, rfl, rfl⟩

/-- A stream that wraps between its packets. -/
theorem timestamps_unwrap_wrapped :
    Continuous (ffRtpParseOpen 1 none 96 0 ()) ([4294966296, 1000, 4000].map untimed) :=
  (timestamps_unwrap_iff unstarted_open _).mpr
    ⟨by simp [untimed, rtpNotsValue], Or.inr ⟨by decide +kernel, by decide +kernel⟩⟩

/-- A stream that begins at zero starts anew with its second packet. -/
theorem zero_timestamp_not_set :
    ¬ ∀ us : List Untimed, Continuous (ffRtpParseOpen 1 none 96 0 ()) us := by
  intro h
  have hsame := h ([0, 3000].map untimed)
  unfold Continuous at hsame
  exact absurd hsame (by decide)

end Examples

end P2PFFmpeg.Rtp
