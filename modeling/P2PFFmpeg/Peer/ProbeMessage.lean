import P2PFFmpeg.Peer.ProbeLoss
import P2PFFmpeg.Util.Crc

namespace P2PFFmpeg.Peer

open Library Library.Program Message

/-- A message as the library hands it over: a text message has a zero behind its
text, which is counted among its bytes. -/
structure ProbeMessage where
  bytes : List UInt8
  text : Bool
  fits : bytes.length < 2147483648
  ended : text = true → bytes.getLast? = some 0

def ProbeMessage.size (m : ProbeMessage) : Int32 :=
  if m.text then -Int32.ofNat m.bytes.length else Int32.ofNat m.bytes.length

/-- The memory at the message: its bytes, and whatever lies behind them. -/
def ProbeMessage.memory (m : ProbeMessage) (behind : ℕ → UInt8) (i : ℕ) : UInt8 :=
  m.bytes.getD i (behind i)

def crcTable (i : BitVec 8) : Util.AVCRC := Util.crcEntry false 32 0x04C11DB7#32 i.toNat

def avCrc (crc : UInt32) (buffer : List UInt8) : UInt32 :=
  ⟨buffer.foldl (fun crc b => crcTable (crc.setWidth 8 ^^^ b.toBitVec) ^^^ crc >>> 8) crc.toBitVec⟩

def littleEndian (memory : ℕ → UInt8) (start : ℕ) : ℕ → ℕ
  | 0 => 0
  | width + 1 => (memory start).toNat + 256 * littleEndian memory (start + 1) width

def packetSizeAt (memory : ℕ → UInt8) : UInt32 := UInt32.ofNat (littleEndian memory 16 4)

def payloadAt (memory : ℕ → UInt8) : List UInt8 :=
  (List.range' 32 (packetSizeAt memory - sizeofProbePacketHeader).toNat).map memory

/-- The header at the start of the memory; the handler does not read the phase. -/
def headerAt (memory : ℕ → UInt8) : ProbePacketHeader where
  sequenceNumber := UInt32.ofNat (littleEndian memory 0 4)
  sendTime := (BitVec.ofNat 64 (littleEndian memory 8 8)).toInt
  packetSize := packetSizeAt memory
  phase := .slowStart
  payloadCrc := UInt32.ofNat (littleEndian memory 24 4)

structure ProbeRun where
  metrics : NetworkQualityMetrics
  reads : List ℕ

abbrev ProbeM := EStateM Fault ProbeRun

def reading (start width : ℕ) : ProbeM Unit :=
  modify fun run => { run with reads := run.reads ++ List.range' start width }

def handleProbeBytes (memory : ℕ → UInt8) (size : Int32) (now : Int) : ProbeM Unit :=
  if size.toUInt32 < sizeofProbePacketHeader then pure ()
  else do
    reading 16 4
    if size.toUInt32 ≠ packetSizeAt memory then pure ()
    else
      let payloadSize := packetSizeAt memory - sizeofProbePacketHeader
      if sizeofProbePacketPadding < payloadSize then throw .abort
      else do
        reading 32 payloadSize.toNat
        reading 24 4
        if avCrc 0 (payloadAt memory) ≠ (headerAt memory).payloadCrc then throw .abort
        else do
          reading 8 8
          reading 0 4
          modify fun run =>
            { run with metrics := recordProbePacket (headerAt memory) now run.metrics }

/-- The checksum is the one of the table that av_crc_init makes, at any address. -/
theorem avCrc_eq {configSmall : Bool} {ctx table : List Util.AVCRC}
    (h : Util.avCrcInit configSmall ctx false 32 0x04C11DB7#32 (4 * ctx.length) = .ok table) (address : Nat)
    (crc : UInt32) (buffer : List UInt8) :
    (avCrc crc buffer).toBitVec = Util.avCrc configSmall table address crc.toBitVec buffer := by
  have hmap := Util.byteMap_byteStep false 32 0x04C11DB7#32
  have htables := Util.avCrcInit_tables rfl h
  rw [show (32 : Int).toNat = 32 from rfl] at htables
  rw [Util.avCrc_eq_bytewise hmap htables]
  unfold avCrc Util.bytewise
  dsimp only
  congr 1
  funext c byte
  rw [hmap.update, crcTable, Util.crcEntry_eq]

/-- The run of the handler on a message, from some metrics. -/
def ProbeMessage.run (m : ProbeMessage) (behind : ℕ → UInt8) (now : Int)
    (data : NetworkQualityMetrics) : ProbeRun :=
  after (handleProbeBytes (m.memory behind) m.size now) ⟨data, []⟩

def ProbeMessage.Intact (m : ProbeMessage) (behind : ℕ → UInt8) : Prop :=
  m.size.toUInt32 = packetSizeAt (m.memory behind) ∧
    avCrc 0 (payloadAt (m.memory behind)) = (headerAt (m.memory behind)).payloadCrc

/-- The handler reads nothing of a message that is too short for a header, and
never behind a message; it does not end the process, and only an intact message
changes the metrics. -/
structure ProbeMessage.Harmless (m : ProbeMessage) (behind : ℕ → UInt8) (now : Int)
    (data : NetworkQualityMetrics) : Prop where
  header : (m.run behind now data).reads ≠ [] →
    sizeofProbePacketHeader.toNat ≤ m.bytes.length
  inside : ∀ i ∈ (m.run behind now data).reads, i < m.bytes.length
  returns : fault (handleProbeBytes (m.memory behind) m.size now) ⟨data, []⟩ = none
  unchanged : ¬ m.Intact behind → (m.run behind now data).metrics = data

/-- A binary message that is too short, of another size than its header says, or
intact and not too long; or a text message with room for a header, of another
size than its header says. -/
def ProbeMessage.Sound (m : ProbeMessage) (behind : ℕ → UInt8) : Prop :=
  if m.text then 32 ≤ m.bytes.length ∧ m.size.toUInt32 ≠ packetSizeAt (m.memory behind)
  else m.bytes.length < 32 ∨ m.size.toUInt32 ≠ packetSizeAt (m.memory behind) ∨
    (m.Intact behind ∧ m.bytes.length ≤ 1500)

inductive ProbeOutcome (memory : ℕ → UInt8) (size : Int32) (now : Int)
    (data : NetworkQualityMetrics) : Option Fault → ProbeRun → Prop
  | short : size.toUInt32 < sizeofProbePacketHeader →
      ProbeOutcome memory size now data none ⟨data, []⟩
  | mismatch : ¬ size.toUInt32 < sizeofProbePacketHeader → size.toUInt32 ≠ packetSizeAt memory →
      ProbeOutcome memory size now data none ⟨data, List.range' 16 4⟩
  | tooLong : ¬ size.toUInt32 < sizeofProbePacketHeader → size.toUInt32 = packetSizeAt memory →
      sizeofProbePacketPadding < packetSizeAt memory - sizeofProbePacketHeader →
      ProbeOutcome memory size now data (some .abort) ⟨data, List.range' 16 4⟩
  | corrupt (run) : ¬ size.toUInt32 < sizeofProbePacketHeader →
      size.toUInt32 = packetSizeAt memory →
      avCrc 0 (payloadAt memory) ≠ (headerAt memory).payloadCrc →
      ProbeOutcome memory size now data (some .abort) run
  | accepted : ¬ size.toUInt32 < sizeofProbePacketHeader → size.toUInt32 = packetSizeAt memory →
      ¬ sizeofProbePacketPadding < packetSizeAt memory - sizeofProbePacketHeader →
      avCrc 0 (payloadAt memory) = (headerAt memory).payloadCrc →
      ProbeOutcome memory size now data none
        ⟨recordProbePacket (headerAt memory) now data,
          List.range' 16 4 ++
            List.range' 32 (packetSizeAt memory - sizeofProbePacketHeader).toNat ++
            List.range' 24 4 ++ List.range' 8 8 ++ List.range' 0 4⟩

theorem handleProbeBytes_outcome (memory : ℕ → UInt8) (size : Int32) (now : Int)
    (data : NetworkQualityMetrics) : ProbeOutcome memory size now data
      (fault (handleProbeBytes memory size now) ⟨data, []⟩)
      (after (handleProbeBytes memory size now) ⟨data, []⟩) := by
  unfold handleProbeBytes
  by_cases hshort : size.toUInt32 < sizeofProbePacketHeader
  · rw [if_pos hshort]
    exact .short hshort
  · rw [if_neg hshort]
    by_cases hsize : size.toUInt32 ≠ packetSizeAt memory
    · rw [if_pos hsize]
      exact .mismatch hshort hsize
    · rw [if_neg hsize]
      rw [not_not] at hsize
      by_cases hlong : sizeofProbePacketPadding < packetSizeAt memory - sizeofProbePacketHeader
      · simp only [if_pos hlong]
        exact .tooLong hshort hsize hlong
      · simp only [if_neg hlong]
        by_cases hcrc : avCrc 0 (payloadAt memory) ≠ (headerAt memory).payloadCrc
        · simp only [if_pos hcrc]
          exact .corrupt _ hshort hsize hcrc
        · simp only [if_neg hcrc]
          rw [not_not] at hcrc
          exact .accepted hshort hsize hlong hcrc

section Node

variable {p : Ptr} {n : PeerConnectionNode}

/-- Where the handler returns from the bytes, the peer's handler leaves its metrics at the node. -/
theorem turns_handleProbeBytes {memory : ℕ → UInt8} {size : Int32} {now : Int}
    (h : fault (handleProbeBytes memory size now) ⟨n.networkQuality, []⟩ = none) :
    Turns (nodeAt p) n (handleProbePacket p (headerAt memory) size (avCrc 0 (payloadAt memory)) now) ()
      { n with networkQuality := (after (handleProbeBytes memory size now) ⟨n.networkQuality, []⟩).metrics } := by
  have houtcome := handleProbeBytes_outcome memory size now n.networkQuality
  have hpacket : (headerAt memory).packetSize = packetSizeAt memory := rfl
  rw [h] at houtcome
  apply turns_bind turns_readNode
  rw [hpacket]
  generalize after (handleProbeBytes memory size now) ⟨n.networkQuality, []⟩ = run at houtcome ⊢
  cases houtcome with
  | short hshort =>
      rw [if_pos hshort]
      exact turns_pure ()
  | mismatch hshort hsize =>
      rw [if_neg hshort, if_pos hsize]
      exact turns_pure ()
  | accepted hshort hsize hfits hcrc =>
      rw [if_neg hshort, if_neg (not_not.mpr hsize), if_neg hfits, if_neg (not_not.mpr hcrc)]
      exact turns_modifyNode _

end Node

section Size

variable (m : ProbeMessage)

theorem size_binary (h : m.text = false) : m.size.toUInt32.toNat = m.bytes.length := by
  have hfits := m.fits
  rw [ProbeMessage.size, h, if_neg Bool.false_ne_true, Int32.toUInt32_ofNat', UInt32.toNat_ofNat']
  exact Nat.mod_eq_of_lt (by omega)

theorem size_text (h : m.text = true) : m.size.toUInt32.toNat = 4294967296 - m.bytes.length := by
  have hfits := m.fits
  have hpos : 0 < m.bytes.length := by
    rw [List.length_pos_iff]
    intro hnil
    have hended := m.ended h
    rw [hnil] at hended
    cases hended
  have hmod : m.bytes.length % 2 ^ 32 = m.bytes.length := Nat.mod_eq_of_lt (by omega)
  rw [ProbeMessage.size, if_pos h, Int32.toUInt32_neg, Int32.toUInt32_ofNat', UInt32.toNat_neg,
    UInt32.toNat_ofNat', hmod, UInt32.size]
  omega

theorem not_short_text (h : m.text = true) : ¬ m.size.toUInt32 < sizeofProbePacketHeader := by
  have hfits := m.fits
  have hsize := size_text m h
  rw [UInt32.lt_iff_toNat_lt, show sizeofProbePacketHeader.toNat = 32 from rfl]
  omega

theorem short_binary_iff (h : m.text = false) :
    m.size.toUInt32 < sizeofProbePacketHeader ↔ m.bytes.length < 32 := by
  rw [UInt32.lt_iff_toNat_lt, size_binary m h]
  exact Iff.rfl

end Size

section Payload

variable {size : UInt32}

theorem toNat_payload (h : ¬ size < sizeofProbePacketHeader) :
    (size - sizeofProbePacketHeader).toNat = size.toNat - 32 := by
  rw [UInt32.not_lt] at h
  exact UInt32.toNat_sub_of_le _ _ h

theorem payload_fits_iff (h : ¬ size < sizeofProbePacketHeader) :
    ¬ sizeofProbePacketPadding < size - sizeofProbePacketHeader ↔ size.toNat ≤ 1500 := by
  rw [UInt32.lt_iff_toNat_lt, toNat_payload h, show sizeofProbePacketPadding.toNat = 1468 from rfl]
  omega

end Payload

section Verdict

variable {m : ProbeMessage} {behind : ℕ → UInt8} {now : Int} {data : NetworkQualityMetrics}

theorem sound_of_short (h : m.size.toUInt32 < sizeofProbePacketHeader) : m.Sound behind := by
  cases htext : m.text with
  | true => exact absurd h (not_short_text m htext)
  | false =>
      rw [ProbeMessage.Sound, htext, if_neg Bool.false_ne_true]
      exact Or.inl ((short_binary_iff m htext).mp h)

theorem sound_of_mismatch (h : ¬ m.size.toUInt32 < sizeofProbePacketHeader)
    (hsize : m.size.toUInt32 ≠ packetSizeAt (m.memory behind)) : m.Sound behind ↔ 32 ≤ m.bytes.length := by
  cases htext : m.text with
  | true =>
      rw [ProbeMessage.Sound, htext, if_pos rfl]
      exact and_iff_left hsize
  | false =>
      rw [short_binary_iff m htext, not_lt] at h
      rw [ProbeMessage.Sound, htext, if_neg Bool.false_ne_true]
      exact iff_of_true (Or.inr (Or.inl hsize)) h

/-- Where the size is the one in the header, the message is a binary one that is
intact and not too long. -/
theorem sound_of_match (h : ¬ m.size.toUInt32 < sizeofProbePacketHeader)
    (hsize : m.size.toUInt32 = packetSizeAt (m.memory behind)) :
    m.Sound behind ↔ m.text = false ∧ m.Intact behind ∧ m.bytes.length ≤ 1500 := by
  cases htext : m.text with
  | true =>
      rw [ProbeMessage.Sound, htext, if_pos rfl]
      exact iff_of_false (fun hs => hs.2 hsize) (fun hs => Bool.false_ne_true hs.1.symm)
  | false =>
      rw [short_binary_iff m htext] at h
      rw [ProbeMessage.Sound, htext, if_neg Bool.false_ne_true, or_iff_right h,
        or_iff_right (not_not.mpr hsize)]
      exact (and_iff_right rfl).symm

theorem binary_of_fits (h : m.size.toUInt32.toNat ≤ 1500) : m.text = false := by
  cases htext : m.text with
  | false => rfl
  | true =>
      have hfits := m.fits
      have hsize := size_text m htext
      omega

end Verdict

theorem probe_message_harmless_iff (m : ProbeMessage) (behind : ℕ → UInt8) (now : Int)
    (data : NetworkQualityMetrics) : m.Harmless behind now data ↔ m.Sound behind := by
  have houtcome := handleProbeBytes_outcome (m.memory behind) m.size now data
  have hrun : m.run behind now data =
      after (handleProbeBytes (m.memory behind) m.size now) ⟨data, []⟩ := rfl
  rw [← hrun] at houtcome
  generalize hf : fault (handleProbeBytes (m.memory behind) m.size now) ⟨data, []⟩ = f
    at houtcome
  generalize hr : m.run behind now data = run at houtcome
  cases houtcome with
  | short hshort =>
      refine iff_of_true ⟨?_, ?_, hf, ?_⟩ (sound_of_short hshort)
      · rw [hr]
        intro h
        exact absurd rfl h
      · rw [hr]
        intro i hi
        cases hi
      · rw [hr]
        intro _
        rfl
  | mismatch hshort hsize =>
      rw [sound_of_mismatch hshort hsize]
      constructor
      · intro h
        apply h.header
        rw [hr]
        exact List.cons_ne_nil _ _
      · intro hlength
        refine ⟨fun _ => hlength, ?_, hf, ?_⟩
        · rw [hr]
          intro i hi
          rw [List.mem_range'_1] at hi
          omega
        · rw [hr]
          intro _
          rfl
  | tooLong hshort hsize hlong =>
      refine iff_of_false (fun h => ?_) (fun h => ?_)
      · rw [h.returns] at hf
        cases hf
      · obtain ⟨htext, _, hlength⟩ := (sound_of_match hshort hsize).mp h
        rw [← hsize] at hlong
        rw [← size_binary m htext] at hlength
        exact (payload_fits_iff hshort).mpr hlength hlong
  | corrupt _ hshort hsize hcrc =>
      refine iff_of_false (fun h => ?_) (fun h => ?_)
      · rw [h.returns] at hf
        cases hf
      · obtain ⟨_, hintact, _⟩ := (sound_of_match hshort hsize).mp h
        exact hcrc hintact.2
  | accepted hshort hsize hfits hcrc =>
      rw [← hsize] at hfits hr
      have hlength := (payload_fits_iff hshort).mp hfits
      have htext := binary_of_fits hlength
      rw [size_binary m htext] at hlength
      have hheader := (short_binary_iff m htext).not.mp hshort
      refine iff_of_true ⟨fun _ => not_lt.mp hheader, ?_, hf, ?_⟩
        ((sound_of_match hshort hsize).mpr ⟨htext, ⟨hsize, hcrc⟩, hlength⟩)
      · rw [hr, toNat_payload hshort, size_binary m htext]
        intro i hi
        simp only [List.mem_append, List.mem_range'_1] at hi
        omega
      · intro hintact
        exact absurd ⟨hsize, hcrc⟩ hintact

/-- Two bytes of text on the probe channel: the size in the header is read behind
the message. -/
theorem text_header_read_behind : ¬ ∀ (m : ProbeMessage) (behind : ℕ → UInt8) (now : Int)
    (data : NetworkQualityMetrics), m.Harmless behind now data := by
  intro h
  have hm := (h ⟨[65, 0], true, by decide, fun _ => rfl⟩ (fun _ => 0) 0 .zero).inside 16
  exact absurd (hm (by decide +kernel)) (by decide)

end P2PFFmpeg.Peer
