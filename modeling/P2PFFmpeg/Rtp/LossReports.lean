import P2PFFmpeg.Library.Transition
import P2PFFmpeg.Rtp.Context

namespace P2PFFmpeg.Rtp

open Library.Transition

/-- The loss figures of ff_rtp_check_and_send_back_rr: the word with the fraction
and the cumulative number, and the statistics after it. -/
def rrLoss (stats : RTPStatistics) : UInt32 × RTPStatistics :=
  let extendedMax := stats.cycles + stats.maxSeq.toUInt32
  let expected := extendedMax - stats.baseSeq
  let lost := min (expected - stats.received) 0xffffff
  let expectedInterval := expected - stats.expectedPrior
  let receivedInterval := stats.received - stats.receivedPrior
  let lostInterval := expectedInterval - receivedInterval
  let fraction : UInt32 := if expectedInterval = 0 ∨ signed32 lostInterval ≤ 0 then 0
    else (lostInterval <<< 8) / expectedInterval
  ((fraction <<< 24) ||| lost, { stats with expectedPrior := expected, receivedPrior := stats.received })

def fractionLost (word : UInt32) : Nat := word.toNat / 2 ^ 24

def cumulativeLost (word : UInt32) : Int :=
  if word.toNat % 2 ^ 24 < 2 ^ 23 then word.toNat % 2 ^ 24 else word.toNat % 2 ^ 24 - 2 ^ 24

/-- What came from a source since its last sequence initialisation, with the sequence
numbers extended without end, and what was expected and received at the report before. -/
structure Ledger where
  first : Nat
  highest : Nat
  received : Nat
  expectedPrior : Nat
  receivedPrior : Nat
deriving DecidableEq

def Ledger.expected (l : Ledger) : Nat := l.highest + 1 - l.first

def Ledger.silent : Ledger := ⟨1, 0, 0, 0, 0⟩

/-- The first packet of a source. -/
def Ledger.start (seq : UInt16) : Ledger := ⟨seq.toNat, seq.toNat, 1, 0, 0⟩

/-- What a packet adds: in probation and where two packets in a row tell of a restart
it is the first of a source, a packet that leads too far on is not counted. -/
def Ledger.packet (stats : RTPStatistics) (seq : UInt16) (l : Ledger) : Ledger :=
  let udelta := (seq - stats.maxSeq).toNat
  if stats.probation ≠ 0 then .start seq
  else if udelta < maxDropout then { l with highest := l.highest + udelta, received := l.received + 1 }
  else if udelta ≤ rtpSeqMod.toNat - maxMisorder then if seq.toUInt32 = stats.badSeq then .start seq else l
  else { l with received := l.received + 1 }

def Ledger.report (l : Ledger) : Ledger := { l with expectedPrior := l.expected, receivedPrior := l.received }

inductive Event
  | packet (seq : UInt16)
  | report
deriving DecidableEq

structure Tally where
  stats : RTPStatistics
  ledger : Ledger

def Tally.handle (t : Tally) : Event → Tally
  | .packet seq => ⟨(rtpValidPacketInSequence t.stats seq).2, t.ledger.packet t.stats seq⟩
  | .report => ⟨(rrLoss t.stats).2, t.ledger.report⟩

def reports : System Tally Event where
  init t := t = ⟨rtpInitStatistics 0, .silent⟩
  next t e := some (t.handle e)

structure RightFigures (t : Tally) : Prop where
  fraction : fractionLost (rrLoss t.stats).1 =
    256 * ((t.ledger.expected - t.ledger.expectedPrior) - (t.ledger.received - t.ledger.receivedPrior)) /
      (t.ledger.expected - t.ledger.expectedPrior)
  fits : fractionLost (rrLoss t.stats).1 < 256
  cumulative : cumulativeLost (rrLoss t.stats).1 =
    max (-2 ^ 23) (min (2 ^ 23 - 1) ((t.ledger.expected : Int) - t.ledger.received))

/-- Nothing came or the source is past its probation, at most one packet too much and
fewer than 2^23 too few came, and the counts since the last report have room. -/
structure Reportable (t : Tally) : Prop where
  known : t.ledger = .silent ∨ t.stats.probation = 0
  surplus : (t.ledger.received : Int) ≤ t.ledger.expected + 1
  lost : (t.ledger.expected : Int) - t.ledger.received < 2 ^ 23
  lostInterval : (t.ledger.expected : Int) - t.ledger.expectedPrior -
    (t.ledger.received - t.ledger.receivedPrior) < 2 ^ 23
  expectedInterval : t.ledger.expected - t.ledger.expectedPrior < 2 ^ 32

def ReportsInBounds (t : Tally) : Event → Prop
  | .packet _ => True
  | .report => Reportable t

/-- The counters of a valid source are residues of the ledger. -/
structure Tracks (stats : RTPStatistics) (l : Ledger) : Prop where
  maxSeq : stats.maxSeq = UInt16.ofNat l.highest
  extendedMax : stats.cycles + stats.maxSeq.toUInt32 = UInt32.ofNat l.highest
  baseSeq : stats.baseSeq + 1 = UInt32.ofNat l.first
  received : stats.received = UInt32.ofNat l.received
  expectedPrior : stats.expectedPrior = UInt32.ofNat l.expectedPrior
  receivedPrior : stats.receivedPrior = UInt32.ofNat l.receivedPrior

structure Ledger.Grown (l : Ledger) : Prop where
  first : l.first ≤ l.highest
  expectedPrior : l.expectedPrior ≤ l.expected
  receivedPrior : l.receivedPrior ≤ l.received
  advanced : l.expectedPrior < l.expected → l.receivedPrior < l.received
  priors : (l.receivedPrior : Int) ≤ l.expectedPrior + 1 ∧ (l.expectedPrior : Int) - l.receivedPrior < 2 ^ 23

inductive Tally.Sound : Tally → Prop
  | silent : Sound ⟨rtpInitStatistics 0, .silent⟩
  | probation {t : Tally} (h : t.stats.probation = 1) (hcame : t.ledger ≠ .silent) : Sound t
  | valid {t : Tally} (h : t.stats.probation = 0) (tracks : Tracks t.stats t.ledger) (grown : t.ledger.Grown) : Sound t

section Packets

variable {stats : RTPStatistics} {l : Ledger} {seq : UInt16}

theorem toUInt32_eq_ofNat (seq : UInt16) : seq.toUInt32 = UInt32.ofNat seq.toNat := by
  rw [UInt32.ofNat_uInt16ToNat]

theorem tracks_start (stats : RTPStatistics) (seq : UInt16) :
    Tracks { rtpInitSequence stats seq with received := (rtpInitSequence stats seq).received + 1 } (.start seq) where
  maxSeq := UInt16.ofNat_toNat.symm
  extendedMax := (UInt32.zero_add _).trans (toUInt32_eq_ofNat seq)
  baseSeq := (UInt32.sub_add_cancel _ _).trans (toUInt32_eq_ofNat seq)
  received := rfl
  expectedPrior := rfl
  receivedPrior := rfl

theorem grown_start (seq : UInt16) : (Ledger.start seq).Grown where
  first := Nat.le_refl _
  expectedPrior := Nat.zero_le _
  receivedPrior := Nat.zero_le _
  advanced _ := Nat.one_pos
  priors := ⟨Int.zero_le_ofNat 1, (by decide : (0 : Int) - 0 < 2 ^ 23)⟩

theorem extendedMax_advance (cycles : UInt32) (maxSeq seq : UInt16) (h : (seq - maxSeq).toNat < maxDropout) :
    (if seq < maxSeq then cycles + rtpSeqMod else cycles) + seq.toUInt32 =
      cycles + maxSeq.toUInt32 + UInt32.ofNat (seq - maxSeq).toNat := by
  have hseq := seq.toNat_lt
  have hmax := maxSeq.toNat_lt
  have hdelta := UInt16.toNat_sub seq maxSeq
  unfold maxDropout at h
  rw [← UInt32.toNat_inj]
  split
  · next hlt =>
      rw [UInt16.lt_iff_toNat_lt] at hlt
      simp only [UInt32.toNat_add, UInt16.toNat_toUInt32, UInt32.toNat_ofNat', rtpSeqMod, UInt32.reduceToNat]
      omega
  · next hle =>
      rw [UInt16.lt_iff_toNat_lt] at hle
      simp only [UInt32.toNat_add, UInt16.toNat_toUInt32, UInt32.toNat_ofNat']
      omega

theorem ofNat_add_sub (h : stats.maxSeq = UInt16.ofNat l.highest) :
    seq = UInt16.ofNat (l.highest + (seq - stats.maxSeq).toNat) := by
  rw [UInt16.ofNat_add, UInt16.ofNat_toNat, ← h, UInt16.add_comm, UInt16.sub_add_cancel]

theorem tracks_packet (hp : stats.probation = 0) (h : Tracks stats l) :
    Tracks (rtpValidPacketInSequence stats seq).2 (l.packet stats seq) := by
  unfold rtpValidPacketInSequence Ledger.packet
  simp only [hp, ne_eq, not_true_eq_false, if_false]
  split
  · next hstep =>
      exact
        { maxSeq := ofNat_add_sub h.maxSeq
          extendedMax := by
            rw [UInt32.ofNat_add, ← h.extendedMax]
            exact extendedMax_advance _ _ _ hstep
          baseSeq := h.baseSeq
          received := by
            rw [UInt32.ofNat_add, ← h.received]
            rfl
          expectedPrior := h.expectedPrior
          receivedPrior := h.receivedPrior }
  split
  · split
    · exact tracks_start stats seq
    · exact { h with }
  · exact { h with
      received := by
        rw [UInt32.ofNat_add, ← h.received]
        rfl }

theorem grown_packet (hp : stats.probation = 0) (h : l.Grown) : (l.packet stats seq).Grown := by
  unfold Ledger.packet
  simp only [hp, ne_eq, not_true_eq_false, if_false]
  have hfirst := h.first
  have hexpected := h.expectedPrior
  have hreceived := h.receivedPrior
  have hadvanced := h.advanced
  unfold Ledger.expected at hexpected hadvanced
  split
  · exact
      { first := Nat.le_trans hfirst (Nat.le_add_right _ _)
        expectedPrior := by
          unfold Ledger.expected
          dsimp only
          omega
        receivedPrior := Nat.le_succ_of_le hreceived
        advanced := fun _ => Nat.lt_succ_of_le hreceived
        priors := h.priors }
  split
  · split
    · exact grown_start seq
    · exact h
  · exact { h with
      receivedPrior := Nat.le_succ_of_le hreceived
      advanced := fun _ => Nat.lt_succ_of_le hreceived }

theorem probation_packet (hp : stats.probation = 0) : (rtpValidPacketInSequence stats seq).2.probation = 0 := by
  unfold rtpValidPacketInSequence
  simp only [hp, ne_eq, not_true_eq_false, if_false]
  split
  · rfl
  split
  · split
    · exact hp
    · rfl
  · rfl

theorem start_ne_silent (seq : UInt16) : Ledger.start seq ≠ .silent := fun h =>
  absurd (congrArg Ledger.received h) Nat.one_ne_zero

theorem sound_probing {t : Tally} (hp : t.stats.probation = 1) (seq : UInt16) : (t.handle (.packet seq)).Sound := by
  obtain ⟨stats, l⟩ := t
  change stats.probation = 1 at hp
  have hledger : l.packet stats seq = .start seq := by
    unfold Ledger.packet
    rw [if_pos (by rw [hp]; exact Nat.one_ne_zero)]
  unfold Tally.handle rtpValidPacketInSequence
  simp only [hp, hledger, ne_eq, Nat.one_ne_zero, not_false_eq_true, if_true, Nat.sub_self]
  split
  · exact .valid rfl (tracks_start _ seq) (grown_start seq)
  · exact .probation rfl (start_ne_silent seq)

theorem sound_packet {t : Tally} (h : t.Sound) (seq : UInt16) : (t.handle (.packet seq)).Sound := by
  cases h with
  | silent => exact sound_probing rfl seq
  | probation hp _ => exact sound_probing hp seq
  | valid hp htracks hgrown =>
      exact .valid (probation_packet hp) (tracks_packet hp htracks) (grown_packet hp hgrown)

end Packets

section Reports

variable {stats : RTPStatistics} {l : Ledger}

theorem expected_eq (h : Tracks stats l) (hl : l.Grown) :
    stats.cycles + stats.maxSeq.toUInt32 - stats.baseSeq = UInt32.ofNat l.expected := by
  have hfirst := hl.first
  have hbase : stats.baseSeq = UInt32.ofNat l.first - 1 := by
    rw [← h.baseSeq, UInt32.add_sub_cancel]
  rw [h.extendedMax, hbase, ← UInt32.toNat_inj]
  simp only [UInt32.toNat_sub, UInt32.toNat_ofNat', Ledger.expected, UInt32.reduceToNat]
  omega

theorem tracks_report (h : Tracks stats l) (hl : l.Grown) : Tracks (rrLoss stats).2 l.report where
  maxSeq := h.maxSeq
  extendedMax := h.extendedMax
  baseSeq := h.baseSeq
  received := h.received
  expectedPrior := expected_eq h hl
  receivedPrior := h.received

theorem grown_report (hl : l.Grown) (hsurplus : (l.received : Int) ≤ l.expected + 1)
    (hlost : (l.expected : Int) - l.received < 2 ^ 23) : l.report.Grown where
  first := hl.first
  expectedPrior := Nat.le_refl _
  receivedPrior := Nat.le_refl _
  advanced h := absurd h (Nat.lt_irrefl _)
  priors := ⟨hsurplus, hlost⟩

theorem sound_report {t : Tally} (h : t.Sound) (hr : Reportable t) : (t.handle .report).Sound := by
  cases h with
  | silent => exact .silent
  | probation hp hcame =>
      rcases hr.known with hsilent | hvalid
      · exact absurd hsilent hcame
      · rw [hp] at hvalid
        cases hvalid
  | valid hp htracks hgrown =>
      exact .valid hp (tracks_report htracks hgrown) (grown_report hgrown hr.surplus hr.lost)

theorem sound_reachable {t : Tally} (h : (reports.restrict ReportsInBounds).Reachable t) : t.Sound := by
  refine System.Reachable.invariant Tally.Sound ?_ ?_ h
  · rintro t rfl
    exact .silent
  · intro t e t' _ hsound hn
    obtain ⟨hbounds, hnext⟩ := System.restrict_next.mp hn
    obtain rfl := Option.some.inj hnext
    cases e with
    | packet seq => exact sound_packet hsound seq
    | report => exact sound_report hsound hbounds

end Reports

section Figures

theorem signed32_of_residue {d : UInt32} {v : Int} (h : (d.toNat : Int) = v % 2 ^ 32) (hlow : -2 ^ 31 < v)
    (hhigh : v < 2 ^ 31) : signed32 d = v := by
  have hcond := BitVec.toInt_eq_toNat_cond d.toBitVec
  rw [UInt32.toNat_toBitVec] at hcond
  unfold signed32
  split at hcond <;> omega

theorem toNat_ofNat_sub (a b : Nat) : ((UInt32.ofNat a - UInt32.ofNat b).toNat : Int) = ((a : Int) - b) % 2 ^ 32 := by
  simp only [UInt32.toNat_sub, UInt32.toNat_ofNat']
  omega

theorem fraction_eq {x d : UInt32} {e r : Nat} (hx : x.toNat = e) (hd : (d.toNat : Int) = ((e : Int) - r) % 2 ^ 32)
    (hlost : (e : Int) - r < 2 ^ 23) (hsurplus : (r : Int) - e < 2 ^ 31) :
    (if x = 0 ∨ signed32 d ≤ 0 then 0 else (d <<< 8) / x : UInt32).toNat = 256 * (e - r) / e := by
  have hsigned := signed32_of_residue hd (by omega) (by omega)
  rw [hsigned]
  by_cases hle : e ≤ r
  · rw [if_pos (Or.inr (by omega)), Nat.sub_eq_zero_of_le hle, Nat.mul_zero, Nat.zero_div]
    rfl
  · have hne : x ≠ 0 := by
      rintro rfl
      change 0 = e at hx
      omega
    have hd' : d.toNat = e - r := by omega
    rw [if_neg (by rw [not_or]; exact ⟨hne, by omega⟩), UInt32.toNat_div, UInt32.toNat_shiftLeft, hd', hx]
    have hshift : (e - r) <<< ((8 : UInt32).toNat % 32) = 256 * (e - r) := by
      rw [show (8 : UInt32).toNat % 32 = 8 from rfl, Nat.shiftLeft_eq, Nat.mul_comm]
    rw [hshift, Nat.mod_eq_of_lt (by omega : 256 * (e - r) < 2 ^ 32)]

theorem word_eq {f lost : UInt32} (hf : f.toNat < 256) (hlost : lost.toNat < 2 ^ 24) :
    ((f <<< 24) ||| lost).toNat = f.toNat * 2 ^ 24 + lost.toNat := by
  rw [UInt32.toNat_or, UInt32.toNat_shiftLeft, show (24 : UInt32).toNat % 32 = 24 from rfl, Nat.shiftLeft_eq,
    Nat.mod_eq_of_lt (by omega : f.toNat * 2 ^ 24 < 2 ^ 32), Nat.mul_comm, Nat.two_pow_add_eq_or_of_lt hlost]

theorem cumulativeLost_of_mod {word : UInt32} {n : Nat} (h : word.toNat % 2 ^ 24 = n) :
    cumulativeLost word = if n < 2 ^ 23 then (n : Int) else n - 2 ^ 24 := by
  subst h
  rfl

theorem cumulative_eq {x : UInt32} {d : Int} (hx : (x.toNat : Int) = d % 2 ^ 32) (hlow : -1 ≤ d) (hhigh : d < 2 ^ 23) :
    (min x 0xffffff).toNat < 2 ^ 24 ∧
      (if (min x 0xffffff).toNat < 2 ^ 23 then ((min x 0xffffff).toNat : Int)
        else (min x 0xffffff).toNat - 2 ^ 24) = d := by
  have hmin : (min x 0xffffff).toNat = min x.toNat 16777215 := by
    change (if x ≤ 0xffffff then x else 0xffffff).toNat = _
    simp only [UInt32.le_iff_toNat_le, UInt32.reduceToNat]
    split
    · next hle => exact (Nat.min_eq_left hle).symm
    · next hlt => exact (Nat.min_eq_right (Nat.le_of_not_le hlt)).symm
  rw [hmin]
  constructor
  · omega
  · split <;> omega

theorem rrLoss_word {stats : RTPStatistics} {l : Ledger} (h : Tracks stats l) (hl : l.Grown) :
    (rrLoss stats).1 =
      (if UInt32.ofNat l.expected - UInt32.ofNat l.expectedPrior = 0 ∨
          signed32 (UInt32.ofNat l.expected - UInt32.ofNat l.expectedPrior -
            (UInt32.ofNat l.received - UInt32.ofNat l.receivedPrior)) ≤ 0 then (0 : UInt32)
        else ((UInt32.ofNat l.expected - UInt32.ofNat l.expectedPrior -
          (UInt32.ofNat l.received - UInt32.ofNat l.receivedPrior)) <<< 8) /
            (UInt32.ofNat l.expected - UInt32.ofNat l.expectedPrior)) <<< 24 |||
      min (UInt32.ofNat l.expected - UInt32.ofNat l.received) 0xffffff := by
  unfold rrLoss
  dsimp only
  rw [expected_eq h hl, h.expectedPrior, h.received, h.receivedPrior]

theorem rightFigures_valid {t : Tally} (htracks : Tracks t.stats t.ledger) (hgrown : t.ledger.Grown)
    (hr : Reportable t) : RightFigures t := by
  obtain ⟨stats, l⟩ := t
  have hlost := hr.lost
  have hsurplus := hr.surplus
  have hlostInterval := hr.lostInterval
  have hinterval := hr.expectedInterval
  dsimp only at htracks hgrown hlost hsurplus hlostInterval hinterval
  have hpriorE := hgrown.expectedPrior
  have hpriorR := hgrown.receivedPrior
  obtain ⟨hpriors, hpriors'⟩ := hgrown.priors
  have hx : (UInt32.ofNat l.expected - UInt32.ofNat l.expectedPrior).toNat = l.expected - l.expectedPrior := by
    have hsub := toNat_ofNat_sub l.expected l.expectedPrior
    omega
  have hd : ((UInt32.ofNat l.expected - UInt32.ofNat l.expectedPrior -
      (UInt32.ofNat l.received - UInt32.ofNat l.receivedPrior)).toNat : Int) =
        (((l.expected - l.expectedPrior : Nat) : Int) - (l.received - l.receivedPrior : Nat)) % 2 ^ 32 := by
    have hsub := toNat_ofNat_sub l.received l.receivedPrior
    rw [UInt32.toNat_sub, hx]
    omega
  have hfraction := fraction_eq hx hd (by omega) (by omega)
  obtain ⟨hsmall, hcumulative⟩ := cumulative_eq (toNat_ofNat_sub l.expected l.received) (by omega) hlost
  have hfits : 256 * ((l.expected - l.expectedPrior) - (l.received - l.receivedPrior)) /
      (l.expected - l.expectedPrior) < 256 := by
    by_cases hzero : l.expected - l.expectedPrior = 0
    · rw [hzero, Nat.div_zero]
      decide
    · have hcame := hgrown.advanced (by omega)
      rw [Nat.div_lt_iff_lt_mul (by omega)]
      omega
  have hloss := (congrArg UInt32.toNat (rrLoss_word htracks hgrown)).trans
    (word_eq (hfraction ▸ hfits) hsmall)
  have hhigh : fractionLost (rrLoss stats).1 = 256 * ((l.expected - l.expectedPrior) - (l.received - l.receivedPrior)) /
      (l.expected - l.expectedPrior) := by
    rw [fractionLost, hloss, hfraction, Nat.add_comm, Nat.add_mul_div_right _ _ (by decide),
      Nat.div_eq_of_lt hsmall, Nat.zero_add]
  refine ⟨hhigh, hhigh ▸ hfits, ?_⟩
  dsimp only
  rw [cumulativeLost_of_mod (by
    rw [hloss, Nat.add_comm, Nat.add_mul_mod_self_right, Nat.mod_eq_of_lt hsmall]), hcumulative]
  omega

end Figures

/-- In every run whose reports are sent within the bounds the figures of each report
are the right ones. -/
theorem loss_figures_right {t t' : Tally} (h : (reports.restrict ReportsInBounds).Reachable t)
    (hn : (reports.restrict ReportsInBounds).next t .report = some t') : RightFigures t := by
  have hr : Reportable t := (System.restrict_next.mp hn).1
  cases sound_reachable h with
  | silent => exact ⟨rfl, by decide, by decide⟩
  | probation hp hcame =>
      rcases hr.known with hsilent | hvalid
      · exact absurd hsilent hcame
      · rw [hp] at hvalid
        cases hvalid
  | valid _ htracks hgrown => exact rightFigures_valid htracks hgrown hr

section Examples

theorem reachable_handle {t : Tally} (h : reports.Reachable t) (e : Event) : reports.Reachable (t.handle e) :=
  .step h rfl

theorem restricted_packet {t : Tally} (h : (reports.restrict ReportsInBounds).Reachable t) (seq : UInt16) :
    (reports.restrict ReportsInBounds).Reachable (t.handle (.packet seq)) :=
  have hb : ReportsInBounds t (.packet seq) := trivial
  .step h (System.restrict_next.mpr ⟨hb, rfl⟩)

def oneLost : Tally :=
  (((Tally.mk (rtpInitStatistics 0) .silent).handle (.packet 1)).handle (.packet 2)).handle (.packet 4)

def threeCopies : Tally :=
  (((Tally.mk (rtpInitStatistics 0) .silent).handle (.packet 1)).handle (.packet 1)).handle (.packet 1)

theorem loss_figures_right_one_lost : RightFigures oneLost :=
  @loss_figures_right oneLost (oneLost.handle .report)
    (restricted_packet (restricted_packet (restricted_packet (.init rfl) 1) 2) 4)
    (System.restrict_next.mpr
      ⟨⟨.inr (by decide), by decide, by decide, by decide, by decide⟩, rfl⟩)

/-- Two packets too many are reported as one. -/
theorem duplicates_reported_as_one :
    ¬ ∀ t t' : Tally, reports.Reachable t → reports.next t .report = some t' → RightFigures t := by
  intro h
  have hcumulative := (h threeCopies (threeCopies.handle .report)
    (reachable_handle (reachable_handle (reachable_handle (.init rfl) _) _) _) rfl).cumulative
  revert hcumulative
  decide

end Examples

end P2PFFmpeg.Rtp
