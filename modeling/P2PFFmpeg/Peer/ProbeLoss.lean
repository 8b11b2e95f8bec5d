import P2PFFmpeg.Library.Coverage
import P2PFFmpeg.Peer.Invariant
import P2PFFmpeg.Peer.RemoteTracks
import Mathlib.Data.Rat.Cast.Order
import Mathlib.Tactic.FieldSimp
import Mathlib.Tactic.Linarith

namespace P2PFFmpeg.Peer

open Library Library.Program Message

/-- A message on the probe channel: its header, its size, the checksum of its
payload and the time it arrives. -/
structure ProbeArrival where
  header : ProbePacketHeader
  size : Int32
  crc : UInt32
  now : Int

/-- The message passes every check of handle_probe_packet. -/
structure ProbeArrival.Valid (a : ProbeArrival) : Prop where
  size : a.size.toUInt32 = a.header.packetSize
  header : sizeofProbePacketHeader ≤ a.header.packetSize
  payload : a.header.packetSize - sizeofProbePacketHeader ≤ sizeofProbePacketPadding
  crc : a.crc = a.header.payloadCrc

instance (a : ProbeArrival) : Decidable a.Valid :=
  decidable_of_iff (a.size.toUInt32 = a.header.packetSize ∧
    sizeofProbePacketHeader ≤ a.header.packetSize ∧
    a.header.packetSize - sizeofProbePacketHeader ≤ sizeofProbePacketPadding ∧
    a.crc = a.header.payloadCrc)
    ⟨fun ⟨h₁, h₂, h₃, h₄⟩ => ⟨h₁, h₂, h₃, h₄⟩, fun ⟨h₁, h₂, h₃, h₄⟩ => ⟨h₁, h₂, h₃, h₄⟩⟩

def ProbeArrival.handle (node : Ptr) (a : ProbeArrival) : PeerM Unit :=
  handleProbePacket node a.header a.size a.crc a.now

def handleArrivals (node : Ptr) : List ProbeArrival → PeerM Unit
  | [] => pure ()
  | a :: arrivals => do
      a.handle node
      handleArrivals node arrivals

def recordArrivals (arrivals : List ProbeArrival) (data : NetworkQualityMetrics) :
    NetworkQualityMetrics :=
  arrivals.foldl (fun data a => recordProbePacket a.header a.now data) data

def sequenceNumbers (arrivals : List ProbeArrival) : List ℕ :=
  arrivals.map fun a => a.header.sequenceNumber.toNat

/-- The accounts of a probe of n packets agree with the sequence numbers seen. -/
structure Accounted (n : ℕ) (seen : List ℕ) (data : NetworkQualityMetrics) : Prop where
  complete : data.phase = .complete → ∀ i < n, i ∈ seen
  nonneg : 0 ≤ data.packetLossRate
  le_one : data.packetLossRate ≤ 1
  fraction : data.packetLossRate = (missing n seen).card / n

section Handling

variable {p : Ptr} {n : PeerConnectionNode}

theorem turns_handle {a : ProbeArrival} (h : a.Valid) :
    Turns (nodeAt p) n (a.handle p) () (setNetworkQuality (recordProbePacket a.header a.now) n) := by
  apply turns_bind turns_readNode
  rw [if_neg, if_neg, if_neg, if_neg]
  · exact turns_modifyNode _
  · exact not_not.mpr h.crc
  · exact UInt32.not_lt.mpr h.payload
  · exact not_not.mpr h.size
  · rw [h.size]
    exact UInt32.not_lt.mpr h.header

theorem turns_handleArrivals {arrivals : List ProbeArrival} (h : ∀ a ∈ arrivals, a.Valid) :
    Turns (nodeAt p) n (handleArrivals p arrivals) ()
      (setNetworkQuality (recordArrivals arrivals) n) := by
  induction arrivals generalizing n with
  | nil => exact turns_pure ()
  | cons a arrivals ih =>
      apply turns_bind (turns_handle (h a List.mem_cons_self))
      exact ih fun b hb => h b (List.mem_cons_of_mem a hb)

end Handling

section Counting

variable (a : ProbeArrival) (arrivals : List ProbeArrival) (data : NetworkQualityMetrics)

theorem recordArrivals_concat : recordArrivals (arrivals ++ [a]) data =
    recordProbePacket a.header a.now (recordArrivals arrivals data) := List.foldl_append

theorem recordArrivals_expectedPackets :
    (recordArrivals arrivals data).expectedPackets = data.expectedPackets := by
  induction arrivals using List.reverseRecOn with
  | nil => rfl
  | append_singleton arrivals a ih =>
      rw [recordArrivals_concat]
      exact ih

theorem recordArrivals_packetsReceived :
    (recordArrivals arrivals data).packetsReceived = data.packetsReceived + arrivals.length := by
  induction arrivals using List.reverseRecOn with
  | nil => exact (Int.add_zero _).symm
  | append_singleton arrivals a ih =>
      rw [recordArrivals_concat, List.length_append]
      simp only [recordProbePacket, ih, List.length_singleton]
      omega

theorem recordArrivals_packetLossRate {arrivals : List ProbeArrival} (hne : arrivals ≠ [])
    (h : 0 < data.expectedPackets) : (recordArrivals arrivals data).packetLossRate =
      1 - ((data.packetsReceived + arrivals.length : ℤ) : ℚ) / data.expectedPackets := by
  obtain ⟨front, a, rfl⟩ := (List.eq_nil_or_concat' arrivals).resolve_left hne
  rw [recordArrivals_concat, List.length_append]
  simp only [recordProbePacket, recordArrivals_expectedPackets, recordArrivals_packetsReceived,
    if_pos h, List.length_singleton]
  push_cast
  rw [add_assoc]

theorem recordArrivals_complete (hphase : data.phase ≠ .complete)
    (h : (recordArrivals arrivals data).phase = .complete) :
    data.expectedPackets ≤ data.packetsReceived + arrivals.length := by
  induction arrivals using List.reverseRecOn with
  | nil => exact absurd h hphase
  | append_singleton arrivals a ih =>
      rw [recordArrivals_concat] at h
      simp only [recordProbePacket, recordArrivals_expectedPackets,
        recordArrivals_packetsReceived] at h
      rw [List.length_append, List.length_singleton]
      split at h
      · omega
      · have := ih h
        omega

end Counting

/-- What a probe of n packets counts is right: none was counted before the
request, and each message since then has a number of its own below n. -/
structure CountedOnce (n : ℕ) (arrivals : List ProbeArrival) (data : NetworkQualityMetrics) :
    Prop where
  fresh : data.packetsReceived = 0
  distinct : (sequenceNumbers arrivals).Nodup
  range : ∀ i ∈ sequenceNumbers arrivals, i < n

/-- The rate is the missing fraction where the count is the number of distinct
sequence numbers in range. -/
theorem fraction_iff {n : ℕ} (hn : 0 < n) (received : ℤ) (seen : List ℕ) :
    1 - (received : ℚ) / n = (missing n seen).card / n ↔ received = (covered n seen).card := by
  have hsum : ((covered n seen).card : ℚ) + (missing n seen).card = n := by
    exact_mod_cast covered_add_missing n seen
  have hne : (n : ℚ) ≠ 0 := by exact_mod_cast hn.ne'
  have hmul : 1 - (received : ℚ) / n = (missing n seen).card / n ↔
      (received : ℚ) = (covered n seen).card := by
    rw [eq_div_iff hne, sub_mul, one_mul, div_mul_cancel₀ _ hne]
    constructor <;> intro h <;> linarith
  rw [hmul]
  exact_mod_cast Iff.rfl

theorem accounted_iff {n : ℕ} {data : NetworkQualityMetrics} {arrivals : List ProbeArrival}
    (hn : 0 < n) (hexpected : data.expectedPackets = n) (hphase : data.phase ≠ .complete)
    (hreceived : 0 ≤ data.packetsReceived) (hne : arrivals ≠ []) :
    Accounted n (sequenceNumbers arrivals) (recordArrivals arrivals data) ↔
      CountedOnce n arrivals data := by
  have hlength : (sequenceNumbers arrivals).length = arrivals.length := by simp [sequenceNumbers]
  have hrate : (recordArrivals arrivals data).packetLossRate =
      1 - ((data.packetsReceived + arrivals.length : ℤ) : ℚ) / n := by
    rw [recordArrivals_packetLossRate data hne (by omega), hexpected]
    rfl
  have hle := card_covered_le n (sequenceNumbers arrivals)
  constructor
  · intro h
    have hcount := (fraction_iff hn _ _).mp (hrate.symm.trans h.fraction)
    have hall : (covered n (sequenceNumbers arrivals)).card = (sequenceNumbers arrivals).length := by
      omega
    obtain ⟨hnodup, hrange⟩ := card_covered_eq_iff.mp hall
    exact ⟨by omega, hnodup, hrange⟩
  · intro h
    have hall := card_covered_eq_iff.mpr ⟨h.distinct, h.range⟩
    have hcount : data.packetsReceived + arrivals.length =
        ((covered n (sequenceNumbers arrivals)).card : ℤ) := by
      rw [hall, hlength, h.fresh, zero_add]
    have hfraction := hrate.trans ((fraction_iff hn _ _).mpr hcount)
    have hsum := covered_add_missing n (sequenceNumbers arrivals)
    refine ⟨?_, ?_, ?_, hfraction⟩
    · intro hcomplete
      have hmany := recordArrivals_complete arrivals data hphase hcomplete
      have hempty : missing n (sequenceNumbers arrivals) = ∅ := by
        rw [← Finset.card_eq_zero]
        omega
      exact missing_eq_empty_iff.mp hempty
    · rw [hfraction]
      positivity
    · rw [hfraction, div_le_one (by exact_mod_cast hn)]
      exact_mod_cast (by omega : (missing n (sequenceNumbers arrivals)).card ≤ n)

theorem accounted_nil_iff {n : ℕ} {data : NetworkQualityMetrics} (hn : 0 < n)
    (hphase : data.phase ≠ .complete) :
    Accounted n (sequenceNumbers []) (recordArrivals [] data) ↔ data.packetLossRate = 1 := by
  have hnone : ((missing n (sequenceNumbers [])).card : ℚ) / n = 1 := by
    rw [show sequenceNumbers [] = [] from rfl, missing_nil, Finset.card_range]
    exact div_self (by exact_mod_cast hn.ne')
  constructor
  · intro h
    exact h.fraction.trans hnone
  · intro h
    have hrate : (recordArrivals [] data).packetLossRate = 1 := h
    refine ⟨fun hcomplete => absurd hcomplete hphase, ?_, ?_, ?_⟩
    · rw [hrate]
      exact zero_le_one
    · rw [hrate]
    · rw [hrate, hnone]

/-- After a request for n packets, the accounts of a node are right exactly if
every message counted since the metrics were initialised answers this request
and none of them repeats a sequence number; before the first message, if the
rate was already one. -/
theorem probe_loss_accounted_iff {c : P2PContext} {p : Ptr} {node : PeerConnectionNode} {n : ℕ}
    {arrivals : List ProbeArrival} (hnode : nodeAt p c = some node) (hn : 0 < n)
    (hexpected : node.networkQuality.expectedPackets = n)
    (hphase : node.networkQuality.phase ≠ .complete)
    (hreceived : 0 ≤ node.networkQuality.packetsReceived) (hvalid : ∀ a ∈ arrivals, a.Valid) :
    (∃ m, nodeAt p (after (handleArrivals p arrivals) c) = some m ∧
        Accounted n (sequenceNumbers arrivals) m.networkQuality) ↔
      if arrivals = [] then node.networkQuality.packetLossRate = 1
      else CountedOnce n arrivals node.networkQuality := by
  obtain ⟨_, hafter⟩ := turns_handleArrivals hvalid c hnode
  rw [hafter]
  simp only [Option.some.injEq, exists_eq_left', setNetworkQuality]
  split
  · next hnil =>
      subst hnil
      exact accounted_nil_iff hn hphase
  · next hne => exact accounted_iff hn hexpected hphase hreceived hne

def probeArrival (sequenceNumber : UInt32) : ProbeArrival where
  header := ⟨sequenceNumber, 0, 128, .slowStart, 0⟩
  size := 128
  crc := 0
  now := 1000

theorem probeArrival_valid (sequenceNumber : UInt32) : (probeArrival sequenceNumber).Valid :=
  ⟨rfl, show sizeofProbePacketHeader ≤ 128 by decide,
    show 128 - sizeofProbePacketHeader ≤ sizeofProbePacketPadding by decide, rfl⟩

def requestedNode : PeerConnectionNode :=
  { newNode (some "a") 1 with
    networkQuality := { probeDataInit 1 with expectedPackets := 10, timeoutMs := 5000000 } }

def requestedContext : P2PContext :=
  ⟨none, none, Linked.empty.link requestedNode, none, []⟩

theorem probe_loss_two_of_ten :
    ∃ m, nodeAt 0 (after (handleArrivals 0 [probeArrival 7, probeArrival 3]) requestedContext) =
      some m ∧ Accounted 10 [7, 3] m.networkQuality := by
  refine (probe_loss_accounted_iff (n := 10) (c := requestedContext) (p := 0) rfl (by decide) rfl
    (by decide) (by decide) ?_).mpr ?_
  · intro a ha
    rcases List.mem_pair.mp ha with rfl | rfl <;> exact probeArrival_valid _
  · rw [if_neg (by simp)]
    exact ⟨rfl, by decide, by decide⟩

/-- Two rounds of a probe, each of which loses its second half, complete it. -/
theorem lost_half_completes :
    ¬ ∀ (c : P2PContext) p node n arrivals, nodeAt p c = some node → 0 < n →
      node.networkQuality.expectedPackets = (n : ℕ) → node.networkQuality.phase ≠ .complete →
      0 ≤ node.networkQuality.packetsReceived → (∀ a ∈ arrivals, a.Valid) →
      ∃ m, nodeAt p (after (handleArrivals p arrivals) c) = some m ∧
        Accounted n (sequenceNumbers arrivals) m.networkQuality := by
  intro h
  let half := [probeArrival 0, probeArrival 1, probeArrival 2, probeArrival 3, probeArrival 4]
  obtain ⟨m, hm, hacc⟩ := h requestedContext 0 requestedNode 10 (half ++ half) rfl (by decide) rfl
    (by decide) (by decide) (by
      intro a ha
      simp only [half, List.mem_append, List.mem_cons, List.not_mem_nil, or_false, or_self] at ha
      rcases ha with rfl | rfl | rfl | rfl | rfl <;> exact probeArrival_valid _)
  have hphase : (nodeAt 0 (after (handleArrivals 0 (half ++ half)) requestedContext)).map
      (fun m => m.networkQuality.phase) = some .complete := by decide +kernel
  rw [hm] at hphase
  exact absurd (hacc.complete (Option.some.inj hphase) 5 (by decide)) (by decide)

end P2PFFmpeg.Peer
