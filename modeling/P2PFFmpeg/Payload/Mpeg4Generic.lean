import P2PFFmpeg.Bits.GetBits
import P2PFFmpeg.Library.ByteFile
import P2PFFmpeg.Payload.Aggregates
import P2PFFmpeg.Rtp.Repair
import P2PFFmpeg.Util.Error

namespace P2PFFmpeg.Payload

open Library.ByteFile Util Bits
open Rtp (rtpMaxPacketLength)

def maxAacHbrFrameSize : Nat := 8191

/-- The size of `buf`. -/
def frameBufferSize : Nat := max rtpMaxPacketLength maxAacHbrFrameSize

structure AUHeaders where
  size : Int
  index : Int
deriving DecidableEq

/-- `none` is `NULL`. -/
structure PayloadContext where
  sizelength : Nat
  indexlength : Nat
  auHeaders : Option (List AUHeaders)
  auHeadersAllocated : Nat
  nbAuHeaders : Nat
  auHeadersLengthBytes : Nat
  curAuIndex : Nat
  buf : List UInt8
  bufPos : Nat
  bufSize : Nat
  timestamp : UInt32

/-- A place that is read or written: of the headers, with how many there are and how many the
memory holds; of a payload of a length; of a payload in words; of `buf`. -/
inductive Access
  | header (i nb allocated : Nat)
  | payload (pos n len : Nat)
  | word (pos n len : Nat)
  | read (pos n : Nat)
  | write (pos n : Nat)
deriving DecidableEq

structure Outcome where
  ret : Int
  data : PayloadContext
  pkt : Option (List UInt8)
  log : List Access

/-- What a call finds besides its arguments: whether there is memory, and what stands in memory
that was not set. -/
structure Memory where
  headers : Bool
  packet : Bool
  junk : AUHeaders

def PayloadContext.header (data : PayloadContext) (m : Memory) (i : Nat) : AUHeaders :=
  (data.auHeaders.getD []).getD i m.junk

def PayloadContext.touch (data : PayloadContext) (i : Nat) : Access :=
  .header i data.nbAuHeaders (data.auHeaders.getD []).length

/-- The words that `get_bits_long` reads. -/
def wordReads (b : ReaderBuild) (n : Nat) (s : GetBitContext) : List (Nat × Nat) :=
  if n = 0 then []
  else if b.fast64 = false ∧ n ≤ minCacheBits then [(s.index / 8, 4)]
  else if b.fast64 then [(s.index / 8, 8)]
  else [(s.index / 8, 4), ((getBits b 16 s).2.index / 8, 4)]

def wordAccesses (b : ReaderBuild) (n : Nat) (s : GetBitContext) (len : Nat) : List Access :=
  (wordReads b n s).map fun word => .word (2 + word.1) word.2 len

def readAuHeaders (b : ReaderBuild) (data : PayloadContext) (len : Nat) :
    Nat → Nat → GetBitContext → List AUHeaders × List Access
  | 0, _, _ => ([], [])
  | left + 1, i, gb =>
      let (size, gb₁) := getBitsLong b data.sizelength gb
      let (index, gb₂) := getBitsLong b data.indexlength gb₁
      let (headers, log) := readAuHeaders b data len left (i + 1) gb₂
      (⟨storedInt size, storedInt index⟩ :: headers,
        wordAccesses b data.sizelength gb len ++ data.touch i ::
          (wordAccesses b data.indexlength gb₁ len ++ data.touch i :: log))

def allocHeaders (m : Memory) (data : PayloadContext) : Option PayloadContext :=
  if data.auHeaders = none ∨ data.auHeadersAllocated < data.nbAuHeaders then
    if m.headers then
      some { data with
        auHeaders := some (List.replicate data.nbAuHeaders m.junk)
        auHeadersAllocated := data.nbAuHeaders }
    else none
  else some data

def rtpParseMp4Au (b : ReaderBuild) (m : Memory) (data : PayloadContext) (buf padding : List UInt8) : Outcome :=
  let len := buf.length
  if len < 2 then ⟨averrorInvaliddata, data, none, []⟩
  else
    let auHeadersLength := (avRb16 buf 0).toNat
    let log := [.payload 0 2 len]
    if auHeadersLength > rtpMaxPacketLength then ⟨-1, data, none, log⟩
    else
      let data := { data with auHeadersLengthBytes := (auHeadersLength + 7) / 8 }
      if len - 2 < data.auHeadersLengthBytes then ⟨averrorInvaliddata, data, none, log⟩
      else
        let (ret, gb) := initGetBits (buf.drop 2 ++ padding) (data.auHeadersLengthBytes * 8)
        if ret < 0 then ⟨ret, data, none, log⟩
        else
          let auHeaderSize := data.sizelength + data.indexlength
          if auHeaderSize = 0 ∨ auHeadersLength % auHeaderSize ≠ 0 then ⟨-1, data, none, log⟩
          else
            let data := { data with nbAuHeaders := auHeadersLength / auHeaderSize }
            match allocHeaders m data with
            | none => ⟨averrorEnomem, { data with auHeaders := none }, none, log⟩
            | some data =>
                let (headers, reads) := readAuHeaders b data len data.nbAuHeaders 0 gb
                ⟨0, { data with auHeaders := some (headers ++ (data.auHeaders.getD []).drop data.nbAuHeaders) }, none,
                  log ++ reads⟩

def nextAu (m : Memory) (data : PayloadContext) : Outcome :=
  if data.curAuIndex > data.nbAuHeaders then ⟨averrorInvaliddata, data, none, []⟩
  else
    let size := (data.header m data.curAuIndex).size
    let log := [data.touch data.curAuIndex]
    if (data.bufSize : Int) - data.bufPos < size then ⟨averrorInvaliddata, data, none, log⟩
    else
      match avNewPacket m.packet size with
      | .error ret => ⟨ret, data, none, log⟩
      | .ok _ =>
          let pkt := (data.buf.drop data.bufPos).take size.toNat
          let log := log ++ [.read data.bufPos size.toNat]
          let data := { data with bufPos := data.bufPos + size.toNat, curAuIndex := data.curAuIndex + 1 }
          if data.curAuIndex = data.nbAuHeaders then ⟨0, { data with bufPos := 0 }, some pkt, log⟩
          else ⟨1, data, some pkt, log⟩

/-- A part of an access unit of `size` bytes: the bytes of the payload from `pos` on. -/
def fragment (m : Memory) (data : PayloadContext) (size : Int) (buf : List UInt8) (pos : Nat) (timestamp : UInt32)
    (marker : Bool) : Outcome :=
  let bytes := buf.drop pos
  let log := [data.touch 0]
  if data.bufPos = 0 ∧ size > maxAacHbrFrameSize then ⟨averrorInvaliddata, data, none, log⟩
  else
    let data := if data.bufPos = 0 then { data with bufSize := size.toNat, timestamp := timestamp } else data
    if data.timestamp ≠ timestamp ∨ size ≠ data.bufSize ∨ data.bufPos + bytes.length > maxAacHbrFrameSize then
      ⟨averrorInvaliddata, { data with bufPos := 0, bufSize := 0 }, none, log⟩
    else
      let log := log ++ [.payload pos bytes.length buf.length, .write data.bufPos bytes.length]
      let data := { data with
        buf := pwrite data.buf data.bufPos bytes
        bufPos := data.bufPos + bytes.length }
      if marker = false then ⟨averrorEagain, data, none, log⟩
      else if data.bufPos ≠ data.bufSize then ⟨averrorInvaliddata, { data with bufPos := 0 }, none, log⟩
      else
        let data := { data with bufPos := 0 }
        match avNewPacket m.packet data.bufSize with
        | .error ret => ⟨ret, data, none, log⟩
        | .ok _ => ⟨0, data, some (data.buf.take data.bufSize), log ++ [.read 0 data.bufSize]⟩

def firstAu (m : Memory) (data : PayloadContext) (size : Int) (buf : List UInt8) (pos : Nat) : Outcome :=
  let bytes := buf.drop pos
  let log := [data.touch 0]
  if (bytes.length : Int) < size then ⟨averrorInvaliddata, data, none, log⟩
  else
    match avNewPacket m.packet size with
    | .error ret => ⟨ret, data, none, log⟩
    | .ok _ =>
        let log := log ++ [.payload pos size.toNat buf.length]
        let rest := bytes.drop size.toNat
        if rest.length > 0 ∧ data.nbAuHeaders > 1 then
          let bufSize := min rest.length frameBufferSize
          ⟨1, { data with
            buf := pwrite data.buf 0 (rest.take bufSize)
            bufSize := bufSize
            curAuIndex := 1
            bufPos := 0 }, some (bytes.take size.toNat),
            log ++ [.payload (pos + size.toNat) bufSize buf.length, .write 0 bufSize]⟩
        else ⟨0, data, some (bytes.take size.toNat), log⟩

def parsePayload (b : ReaderBuild) (m : Memory) (data : PayloadContext) (buf padding : List UInt8) (timestamp : UInt32)
    (marker : Bool) : Outcome :=
  let parsed := rtpParseMp4Au b m data buf padding
  if parsed.ret ≠ 0 then ⟨-1, parsed.data, none, parsed.log⟩
  else
    let data := parsed.data
    let pos := data.auHeadersLengthBytes + 2
    let size := (data.header m 0).size
    let handled :=
      if data.nbAuHeaders = 1 ∧ ((buf.length - pos : Nat) : Int) < size then fragment m data size buf pos timestamp marker
      else firstAu m data size buf pos
    { handled with log := parsed.log ++ handled.log }

/-- The payload with what stands behind it, the timestamp and the marker; nothing for `NULL`. -/
structure RtpPayload where
  buf : List UInt8
  padding : List UInt8
  timestamp : UInt32
  marker : Bool

def aacParsePacket (b : ReaderBuild) (m : Memory) (data : PayloadContext) : Option RtpPayload → Outcome
  | none => nextAu m data
  | some p => parsePayload b m data p.buf p.padding p.timestamp p.marker

/-- Every header that is touched is one of those there are; what is read of a payload lies in it, a
word reaches at most `slack` bytes behind it; what is read of `buf` was written from its start on,
and nothing is written behind `limit`. The number is how much of `buf` is written. -/
def Bounded (limit slack : Nat) : Nat → List Access → Prop
  | _, [] => True
  | w, .header i nb allocated :: log => i < nb ∧ nb ≤ allocated ∧ Bounded limit slack w log
  | w, .payload pos n len :: log => pos + n ≤ len ∧ Bounded limit slack w log
  | w, .word pos n len :: log => pos + n ≤ len + slack ∧ Bounded limit slack w log
  | w, .read pos n :: log => pos + n ≤ w ∧ Bounded limit slack w log
  | w, .write pos n :: log => pos ≤ w ∧ pos + n ≤ limit ∧ Bounded limit slack (pos + n) log

/-- How much of `buf` is written from its start on. -/
def writtenAfter : Nat → List Access → Nat
  | w, [] => w
  | _, .write pos n :: log => writtenAfter (pos + n) log
  | w, _ :: log => writtenAfter w log

/-- An access that is not of `buf`, in bounds. -/
def Access.Outside (slack : Nat) : Access → Prop
  | .header i nb allocated => i < nb ∧ nb ≤ allocated
  | .payload pos n len => pos + n ≤ len
  | .word pos n len => pos + n ≤ len + slack
  | .read _ _ => False
  | .write _ _ => False

section Logs

variable {limit slack w : Nat} {log log' : List Access}

theorem bounded_append :
    Bounded limit slack w (log ++ log') ↔ Bounded limit slack w log ∧ Bounded limit slack (writtenAfter w log) log' := by
  induction log generalizing w with
  | nil => exact (true_and _).to_iff.symm
  | cons a log ih => cases a <;> simp only [List.cons_append, Bounded, writtenAfter, ih, and_assoc]

theorem writtenAfter_append : writtenAfter w (log ++ log') = writtenAfter (writtenAfter w log) log' := by
  induction log generalizing w with
  | nil => rfl
  | cons a log ih => cases a <;> exact ih

theorem writtenAfter_outside (h : ∀ a ∈ log, a.Outside slack) : writtenAfter w log = w := by
  induction log with
  | nil => rfl
  | cons a log ih =>
      have hrest := ih fun x hx => h x (List.mem_cons_of_mem a hx)
      have ha := h a List.mem_cons_self
      cases a with
      | header | payload | word => exact hrest
      | read | write => exact ha.elim

theorem bounded_outside (h : ∀ a ∈ log, a.Outside slack) : Bounded limit slack w log := by
  induction log with
  | nil => exact trivial
  | cons a log ih =>
      have hrest := ih fun x hx => h x (List.mem_cons_of_mem a hx)
      have ha := h a List.mem_cons_self
      cases a with
      | header => exact ⟨ha.1, ha.2, hrest⟩
      | payload | word => exact ⟨ha, hrest⟩
      | read | write => exact ha.elim

end Logs

section Headers

variable {b : ReaderBuild} {data : PayloadContext} {gb : GetBitContext}

theorem wordReads_before {n : Nat} (h : Reading gb n) (hn : n ≤ 32) :
    ∀ word ∈ wordReads b n gb, word.1 < (gb.sizeInBits + 7) / 8 ∧ word.2 ≤ 8 := by
  have hwithin := h.within
  intro word hword
  rw [wordReads] at hword
  split at hword
  · cases hword
  next hpos =>
    split at hword
    · rw [List.mem_singleton.mp hword]
      exact ⟨by simp only; omega, by simp only; omega⟩
    next hshort =>
      split at hword
      · rw [List.mem_singleton.mp hword]
        exact ⟨by simp only; omega, by simp only; omega⟩
      next hfast =>
        -- the second word of a field of more than 25 bits begins 16 bits behind the first
        have hlong : 25 < n := by
          refine Nat.lt_of_not_le fun hle => hshort ⟨?_, hle⟩
          simpa using hfast
        rw [getBits_eq (h.mono (by omega)) (by decide)] at hword
        rcases List.mem_pair.mp hword with rfl | rfl
        · exact ⟨by simp only; omega, by simp only; omega⟩
        · exact ⟨by simp only; omega, by simp only; omega⟩

theorem wordAccesses_outside {n len : Nat} (h : Reading gb n) (hn : n ≤ 32) (hlen : (gb.sizeInBits + 7) / 8 + 2 ≤ len) :
    ∀ a ∈ wordAccesses b n gb len, a.Outside 7 := by
  intro a ha
  obtain ⟨word, hword, rfl⟩ := List.mem_map.mp ha
  obtain ⟨hstart, hsize⟩ := wordReads_before h hn word hword
  simp only [Access.Outside]
  omega

theorem readAuHeaders_outside {len left i : Nat} (hs : data.sizelength ≤ 32) (hi : data.indexlength ≤ 32)
    (hreading : Reading gb (left * (data.sizelength + data.indexlength))) (hlen : (gb.sizeInBits + 7) / 8 + 2 ≤ len)
    (hnb : i + left ≤ data.nbAuHeaders) (halloc : data.nbAuHeaders ≤ (data.auHeaders.getD []).length) :
    (readAuHeaders b data len left i gb).1.length = left ∧
      ∀ a ∈ (readAuHeaders b data len left i gb).2, a.Outside 7 := by
  induction left generalizing i gb with
  | zero => exact ⟨rfl, fun a ha => absurd ha List.not_mem_nil⟩
  | succ left ih =>
      rw [Nat.succ_mul, Nat.add_comm, Nat.add_assoc] at hreading
      have hsize := hreading.mono (Nat.le_add_right _ _)
      have hindex := (hreading.skip).mono (Nat.le_add_right _ _)
      have hrest := (hreading.skip).skip
      obtain ⟨hlength, houtside⟩ := ih (i := i + 1) hrest hlen (by omega)
      have htouch : (data.touch i).Outside 7 := ⟨by omega, halloc⟩
      rw [readAuHeaders, getBitsLong_eq hsize hs]
      simp only [getBitsLong_eq hindex hi]
      refine ⟨congrArg (· + 1) hlength, fun a ha => ?_⟩
      rcases List.mem_append.mp ha with ha | ha
      · exact wordAccesses_outside hsize hs hlen a ha
      rcases List.mem_cons.mp ha with rfl | ha
      · exact htouch
      rcases List.mem_append.mp ha with ha | ha
      · exact wordAccesses_outside hindex hi hlen a ha
      rcases List.mem_cons.mp ha with rfl | ha
      · exact htouch
      · exact houtside a ha

def PayloadContext.Allocated (data : PayloadContext) : Prop :=
  data.auHeaders = none ∨ (data.auHeaders.getD []).length = data.auHeadersAllocated

structure PayloadContext.SameFrame (data data' : PayloadContext) : Prop where
  sizelength : data'.sizelength = data.sizelength
  indexlength : data'.indexlength = data.indexlength
  bufPos : data'.bufPos = data.bufPos

structure HeadersRead (data : PayloadContext) (buf : List UInt8) (p : Outcome) : Prop where
  same : data.SameFrame p.data
  allocated : p.data.Allocated
  outside : ∀ a ∈ p.log, a.Outside 7
  enough : p.ret = 0 → p.data.nbAuHeaders ≤ (p.data.auHeaders.getD []).length ∧
    p.data.auHeadersLengthBytes + 2 ≤ buf.length ∧ 2 ≤ buf.length ∧
    (p.data.nbAuHeaders = 0 → avRb16 buf 0 = 0)

theorem HeadersRead.refused {buf : List UInt8} {ret : Int} {data' : PayloadContext} {log : List Access}
    (hsame : data.SameFrame data') (halloc : data'.Allocated)
    (hlog : log = [] ∨ 2 ≤ buf.length ∧ log = [.payload 0 2 buf.length]) (hret : ret ≠ 0) :
    HeadersRead data buf ⟨ret, data', none, log⟩ where
  same := hsame
  allocated := halloc
  outside := by
    intro a ha
    rcases hlog with hlog | ⟨hlen, hlog⟩ <;> simp only [hlog] at ha
    · cases ha
    · rw [List.mem_singleton.mp ha]
      simpa only [Access.Outside] using hlen
  enough := fun h => absurd h hret

theorem initGetBits_small (buffer : List UInt8) {n : Nat} (hn : n ≤ 65536) :
    initGetBits buffer n = (0, ⟨buffer, 0, n, n + 8⟩) := by
  refine if_neg ?_
  simp only [Util.intMax]
  omega

theorem allocHeaders_enough {m : Memory} {data' : PayloadContext} (halloc : data.Allocated)
    (h : allocHeaders m data = some data') :
    (data'.auHeaders.getD []).length = data'.auHeadersAllocated ∧ data.nbAuHeaders ≤ data'.auHeadersAllocated ∧
      data' = { data with auHeaders := data'.auHeaders, auHeadersAllocated := data'.auHeadersAllocated } := by
  rw [allocHeaders] at h
  split at h
  · split at h
    · cases h
      exact ⟨List.length_replicate, Nat.le_refl _, rfl⟩
    · cases h
  next hkept =>
    cases h
    rw [not_or, Nat.not_lt] at hkept
    exact ⟨halloc.resolve_left hkept.1, hkept.2, rfl⟩

theorem rtpParseMp4Au_reads {m : Memory} {buf padding : List UInt8} (hs : data.sizelength ≤ 32)
    (hi : data.indexlength ≤ 32) (halloc : data.Allocated) :
    HeadersRead data buf (rtpParseMp4Au b m data buf padding) := by
  rw [rtpParseMp4Au]
  split
  · exact .refused ⟨rfl, rfl, rfl⟩ halloc (.inl rfl) (by decide)
  next hlen =>
  have hlen : 2 ≤ buf.length := Nat.le_of_not_lt hlen
  simp only
  split
  · exact .refused ⟨rfl, rfl, rfl⟩ halloc (.inr ⟨hlen, rfl⟩) (by decide)
  next hsmall =>
  split
  · exact .refused ⟨rfl, rfl, rfl⟩ halloc (.inr ⟨hlen, rfl⟩) (by decide)
  next hfits =>
  have hsmall : (avRb16 buf 0).toNat ≤ 8192 := Nat.le_of_not_lt hsmall
  rw [initGetBits_small _ (by omega)]
  simp only
  rw [if_neg (by decide)]
  split
  · exact .refused ⟨rfl, rfl, rfl⟩ halloc (.inr ⟨hlen, rfl⟩) (by decide)
  next hdivides =>
  rw [not_or, not_not] at hdivides
  have hcount : (avRb16 buf 0).toNat / (data.sizelength + data.indexlength) * (data.sizelength + data.indexlength) =
      (avRb16 buf 0).toNat := Nat.div_mul_cancel (Nat.dvd_of_mod_eq_zero hdivides.2)
  generalize hnb : (avRb16 buf 0).toNat / (data.sizelength + data.indexlength) = nb at hcount
  split
  · exact .refused ⟨rfl, rfl, rfl⟩ (.inl rfl) (.inr ⟨hlen, rfl⟩) (by decide)
  next data' hmemory =>
  obtain ⟨halloc', henough, hsame⟩ := allocHeaders_enough (by exact halloc) hmemory
  have hsizelength : data'.sizelength = data.sizelength := by rw [hsame]
  have hindexlength : data'.indexlength = data.indexlength := by rw [hsame]
  have hbytes : data'.auHeadersLengthBytes = ((avRb16 buf 0).toNat + 7) / 8 := by rw [hsame]
  have hnb' : data'.nbAuHeaders = nb := by rw [hsame]
  have hreading : Reading ⟨buf.drop 2 ++ padding, 0, ((avRb16 buf 0).toNat + 7) / 8 * 8, ((avRb16 buf 0).toNat + 7) / 8 * 8 + 8⟩
      (nb * (data'.sizelength + data'.indexlength)) := by
    refine ⟨rfl, ?_⟩
    rw [hsizelength, hindexlength, hcount]
    simp only
    omega
  obtain ⟨hlength, houtside⟩ := @readAuHeaders_outside b data' _ buf.length nb 0 (hsizelength ▸ hs) (hindexlength ▸ hi)
    hreading (by simp only; omega) (by omega) (by rw [hnb', halloc']; exact henough)
  rw [hnb']
  refine ⟨⟨hsizelength, hindexlength, by rw [hsame]⟩, .inr ?_, fun a ha => ?_, fun _ => ⟨?_, ?_, hlen, fun hzero => ?_⟩⟩
  · simp only [Option.getD_some, List.length_append, hlength, List.length_drop, halloc']
    exact Nat.add_sub_cancel' henough
  · rcases List.mem_append.mp ha with ha | ha
    · rw [List.mem_singleton.mp ha]
      simpa only [Access.Outside] using hlen
    · exact houtside a ha
  · simp only [Option.getD_some, List.length_append, hlength]
    omega
  · simp only [hbytes]
    omega
  · have hnone : nb = 0 := hzero
    rw [hnone, Nat.zero_mul] at hcount
    exact UInt16.toNat_inj.mp hcount.symm

end Headers

section Calls

variable {m : Memory} {data : PayloadContext} {size : Int} {buf : List UInt8} {pos w : Nat} {timestamp : UInt32}
  {marker : Bool}

/-- A context between two calls, after a result, when `w` bytes of `buf` are written. -/
structure FrameFits (data : PayloadContext) (ret : Int) (w : Nat) : Prop where
  allocated : data.Allocated
  written : data.bufPos ≤ w
  next : ret = 1 → data.curAuIndex < data.nbAuHeaders ∧ data.nbAuHeaders ≤ (data.auHeaders.getD []).length ∧
    data.bufSize ≤ w

structure Handled (data : PayloadContext) (w : Nat) (o : Outcome) : Prop where
  sizelength : o.data.sizelength = data.sizelength
  indexlength : o.data.indexlength = data.indexlength
  bounded : Bounded frameBufferSize 7 w o.log
  fits : FrameFits o.data o.ret (writtenAfter w o.log)

theorem Handled.of_ne {data' : PayloadContext} {ret : Int} {pkt : Option (List UInt8)} {log : List Access}
    (hsame : data'.sizelength = data.sizelength ∧ data'.indexlength = data.indexlength)
    (hlog : Bounded frameBufferSize 7 w log) (halloc : data'.Allocated) (hpos : data'.bufPos ≤ writtenAfter w log)
    (hret : ret ≠ 1) : Handled data w ⟨ret, data', pkt, log⟩ :=
  ⟨hsame.1, hsame.2, hlog, halloc, hpos, fun h => absurd h hret⟩

theorem avNewPacket_ok {memory : Bool} {pkt : AVPacket} (h : avNewPacket memory size = .ok pkt) : 0 ≤ size := by
  rw [avNewPacket] at h
  split at h
  · cases h
  next hsize => omega

theorem avNewPacket_ne_one {memory : Bool} {ret : Int} (h : avNewPacket memory size = .error ret) : ret ≠ 1 := by
  rw [avNewPacket] at h
  split at h
  · cases h
    decide
  split at h
  · cases h
    decide
  · cases h

theorem nextAu_handled (h : FrameFits data 1 w) : Handled data w (nextAu m data) := by
  obtain ⟨hcur, henough, hsize⟩ := h.next rfl
  have htouch : Bounded frameBufferSize 7 w [data.touch data.curAuIndex] := ⟨hcur, henough, trivial⟩
  rw [nextAu, if_neg (by omega)]
  simp only
  split
  · exact .of_ne ⟨rfl, rfl⟩ htouch h.allocated h.written (by decide)
  next hfits =>
  split
  · next ret hfail => exact .of_ne ⟨rfl, rfl⟩ htouch h.allocated h.written (avNewPacket_ne_one hfail)
  next pkt hpkt =>
  have hpos := avNewPacket_ok hpkt
  have hread : data.bufPos + (data.header m data.curAuIndex).size.toNat ≤ w := by omega
  split
  · exact .of_ne ⟨rfl, rfl⟩ ⟨hcur, henough, hread, trivial⟩ h.allocated (Nat.zero_le _) (by decide)
  · next hmore =>
      exact ⟨rfl, rfl, ⟨hcur, henough, hread, trivial⟩, h.allocated, hread,
        fun _ => ⟨Nat.lt_of_le_of_ne hcur hmore, henough, hsize⟩⟩

theorem fragment_handled (halloc : data.Allocated) (hw : data.bufPos ≤ w) (hnb : data.nbAuHeaders = 1)
    (henough : data.nbAuHeaders ≤ (data.auHeaders.getD []).length) (hpos : pos ≤ buf.length) :
    Handled data w (fragment m data size buf pos timestamp marker) := by
  have htouch : 0 < data.nbAuHeaders ∧ data.nbAuHeaders ≤ (data.auHeaders.getD []).length := ⟨by omega, henough⟩
  rw [fragment]
  simp only
  split
  · exact .of_ne ⟨rfl, rfl⟩ ⟨htouch.1, htouch.2, trivial⟩ halloc hw (by decide)
  next hstart =>
  generalize hstarted : (if data.bufPos = 0 then { data with bufSize := size.toNat, timestamp := timestamp } else data) =
    started
  have hsame : data.SameFrame started ∧ started.Allocated := by
    rw [← hstarted]
    split
    · exact ⟨⟨rfl, rfl, rfl⟩, halloc⟩
    · exact ⟨⟨rfl, rfl, rfl⟩, halloc⟩
  obtain ⟨⟨hsizelength, hindexlength, hbufPos⟩, halloc'⟩ := hsame
  split
  · exact .of_ne ⟨hsizelength, hindexlength⟩ ⟨htouch.1, htouch.2, trivial⟩ halloc' (Nat.zero_le _) (by decide)
  next hvalid =>
  have hroom : started.bufPos + (buf.drop pos).length ≤ maxAacHbrFrameSize := by
    by_contra hover
    exact hvalid (.inr (.inr (Nat.lt_of_not_le hover)))
  have hlog : Bounded frameBufferSize 7 w ([data.touch 0] ++ [.payload pos (buf.drop pos).length buf.length,
      .write started.bufPos (buf.drop pos).length]) := by
    refine ⟨htouch.1, htouch.2, ?_, by omega, ?_, trivial⟩
    · rw [List.length_drop]
      omega
    · exact hroom.trans (by decide)
  split
  · exact .of_ne ⟨hsizelength, hindexlength⟩ hlog halloc' (Nat.le_refl _) (by decide)
  split
  · exact .of_ne ⟨hsizelength, hindexlength⟩ hlog halloc' (Nat.zero_le _) (by decide)
  next hwhole =>
  split
  · next ret hfail =>
      exact .of_ne ⟨hsizelength, hindexlength⟩ hlog halloc' (Nat.zero_le _) (avNewPacket_ne_one hfail)
  · have hread : started.bufSize = started.bufPos + (buf.drop pos).length := (not_not.mp hwhole).symm
    refine .of_ne ⟨hsizelength, hindexlength⟩ (bounded_append.mpr ⟨hlog, ?_, trivial⟩) halloc' (Nat.zero_le _) (by decide)
    simp only [List.cons_append, List.nil_append, PayloadContext.touch, writtenAfter, hread]
    omega

theorem firstAu_handled (halloc : data.Allocated) (hw : data.bufPos ≤ w) (hnb : 0 < data.nbAuHeaders)
    (henough : data.nbAuHeaders ≤ (data.auHeaders.getD []).length) (hpos : pos ≤ buf.length) :
    Handled data w (firstAu m data size buf pos) := by
  rw [firstAu]
  simp only
  split
  · exact .of_ne ⟨rfl, rfl⟩ ⟨hnb, henough, trivial⟩ halloc hw (by decide)
  next hfits =>
  rw [List.length_drop] at hfits
  split
  · next ret hfail => exact .of_ne ⟨rfl, rfl⟩ ⟨hnb, henough, trivial⟩ halloc hw (avNewPacket_ne_one hfail)
  next pkt hpkt =>
  have hinside : pos + size.toNat ≤ buf.length := by omega
  split
  · next hmore =>
      rw [List.length_drop, List.length_drop] at hmore
      have hlog : Bounded frameBufferSize 7 w ([data.touch 0] ++ [.payload pos size.toNat buf.length] ++
          [.payload (pos + size.toNat) (min ((buf.drop pos).drop size.toNat).length frameBufferSize) buf.length,
            .write 0 (min ((buf.drop pos).drop size.toNat).length frameBufferSize)]) := by
        rw [List.length_drop, List.length_drop]
        refine ⟨hnb, henough, hinside, by omega, Nat.zero_le _, ?_, trivial⟩
        rw [Nat.zero_add]
        exact min_le_right _ _
      refine ⟨rfl, rfl, hlog, halloc, Nat.zero_le _, fun _ => ⟨hmore.2, henough, ?_⟩⟩
      simp only [List.cons_append, List.nil_append, PayloadContext.touch, writtenAfter, Nat.zero_add, Nat.le_refl]
  · exact .of_ne ⟨rfl, rfl⟩ ⟨hnb, henough, hinside, trivial⟩ halloc hw (by decide)

/-- The headers of a payload are not an empty list. -/
def HasHeaders (buf : List UInt8) : Prop := buf.length < 2 ∨ avRb16 buf 0 ≠ 0

theorem parsePayload_handled {b : ReaderBuild} {padding : List UInt8} (hs : data.sizelength ≤ 32)
    (hi : data.indexlength ≤ 32) (halloc : data.Allocated) (hw : data.bufPos ≤ w) (hheaders : HasHeaders buf) :
    Handled data w (parsePayload b m data buf padding timestamp marker) := by
  have hread := @rtpParseMp4Au_reads b data m buf padding hs hi halloc
  rw [parsePayload]
  generalize rtpParseMp4Au b m data buf padding = parsed at hread
  have hbounded : Bounded frameBufferSize 7 w parsed.log := bounded_outside hread.outside
  have hstill : writtenAfter w parsed.log = w := writtenAfter_outside hread.outside
  have hw' : parsed.data.bufPos ≤ w := hread.same.bufPos ▸ hw
  simp only
  split
  · exact .of_ne ⟨hread.same.sizelength, hread.same.indexlength⟩ hbounded hread.allocated (hstill.symm ▸ hw') (by decide)
  next hret =>
  obtain ⟨henough, hpos, hlen, hempty⟩ := hread.enough (not_not.mp hret)
  have hnb : 0 < parsed.data.nbAuHeaders := by
    refine Nat.pos_of_ne_zero fun hzero => ?_
    exact hheaders.elim (fun hshort => by omega) (fun hne => hne (hempty hzero))
  generalize hhandled : (if parsed.data.nbAuHeaders = 1 ∧ ((buf.length - (parsed.data.auHeadersLengthBytes + 2) : Nat) : Int) <
    (parsed.data.header m 0).size then fragment m parsed.data (parsed.data.header m 0).size buf
      (parsed.data.auHeadersLengthBytes + 2) timestamp marker
    else firstAu m parsed.data (parsed.data.header m 0).size buf (parsed.data.auHeadersLengthBytes + 2)) = handled
  have hrest : Handled parsed.data w handled := by
    rw [← hhandled]
    split
    · next hpart => exact fragment_handled hread.allocated hw' hpart.1 henough hpos
    · exact firstAu_handled hread.allocated hw' hnb henough hpos
  refine ⟨hrest.sizelength.trans hread.same.sizelength, hrest.indexlength.trans hread.same.indexlength, ?_, ?_⟩
  · exact bounded_append.mpr ⟨hbounded, hstill.symm ▸ hrest.bounded⟩
  · rw [writtenAfter_append, hstill]
    exact hrest.fits

/-- The calls from a new context on, with the last result and all that was read and written: no payload
is given exactly behind a result of 1. -/
inductive Depacketized (b : ReaderBuild) (accepted : List UInt8 → Prop) (start : PayloadContext) :
    PayloadContext → Int → List Access → Prop
  | start : Depacketized b accepted start start 0 []
  | payload {data ret log} (m : Memory) (p : RtpPayload) : Depacketized b accepted start data ret log → ret ≠ 1 →
      accepted p.buf →
      Depacketized b accepted start (aacParsePacket b m data (some p)).data (aacParsePacket b m data (some p)).ret
        (log ++ (aacParsePacket b m data (some p)).log)
  | next {data log} (m : Memory) : Depacketized b accepted start data 1 log →
      Depacketized b accepted start (aacParsePacket b m data none).data (aacParsePacket b m data none).ret
        (log ++ (aacParsePacket b m data none).log)

def PayloadContext.fresh (sizelength indexlength : Nat) : PayloadContext :=
  ⟨sizelength, indexlength, none, 0, 0, 0, 0, List.replicate frameBufferSize 0, 0, 0, 0⟩

/-- Whatever payloads come, as long as none has an empty list of headers: only headers that there are
are touched, only the payload and words that begin in it are read, and of the buffer what
was written from its start on. -/
theorem mpeg4_generic_bounded {b : ReaderBuild} {sizelength indexlength : Nat} {data : PayloadContext} {ret : Int}
    {log : List Access} (hs : sizelength ≤ 32) (hi : indexlength ≤ 32)
    (h : Depacketized b HasHeaders (.fresh sizelength indexlength) data ret log) :
    Bounded frameBufferSize 7 0 log := by
  have hall : data.sizelength = sizelength ∧ data.indexlength = indexlength ∧ Bounded frameBufferSize 7 0 log ∧
      FrameFits data ret (writtenAfter 0 log) := by
    induction h with
    | start => exact ⟨rfl, rfl, trivial, .inl rfl, Nat.le_refl _, fun h => absurd h (by decide)⟩
    | payload m p _ _ hheaders ih =>
        obtain ⟨hsl, hil, hbounded, hfits⟩ := ih
        have hstep := @parsePayload_handled m _ p.buf _ p.timestamp p.marker b p.padding (hsl ▸ hs) (hil ▸ hi)
          hfits.allocated hfits.written hheaders
        refine ⟨hstep.sizelength.trans hsl, hstep.indexlength.trans hil, bounded_append.mpr ⟨hbounded, hstep.bounded⟩, ?_⟩
        rw [writtenAfter_append]
        exact hstep.fits
    | next m _ ih =>
        obtain ⟨hsl, hil, hbounded, hfits⟩ := ih
        have hstep := @nextAu_handled m _ _ hfits
        refine ⟨hstep.sizelength.trans hsl, hstep.indexlength.trans hil, bounded_append.mpr ⟨hbounded, hstep.bounded⟩, ?_⟩
        rw [writtenAfter_append]
        exact hstep.fits
  exact hall.2.2.1

end Calls

section Limits

def fastReader : ReaderBuild := ⟨true, false⟩

def enoughMemory : Memory := ⟨true, true, ⟨0, 0⟩⟩

theorem oneUnit_log : (aacParsePacket fastReader enoughMemory (.fresh 13 3) (some ⟨[0, 16, 0, 8, 170], [], 0, true⟩)).log =
    [.payload 0 2 5, .word 2 8 5, .header 0 1 1, .word 3 8 5, .header 0 1 1, .header 0 1 1, .payload 4 1 5] := by
  decide +kernel

theorem mpeg4_generic_bounded_unit :
    ∃ data ret log, Depacketized fastReader HasHeaders (.fresh 13 3) data ret log ∧ log ≠ [] ∧
      Bounded frameBufferSize 7 0 log := by
  have hrun := (@Depacketized.start fastReader HasHeaders (.fresh 13 3)).payload enoughMemory
    ⟨[0, 16, 0, 8, 170], [], 0, true⟩ (by decide) (show HasHeaders [0, 16, 0, 8, 170] from .inr (by decide))
  rw [oneUnit_log] at hrun
  exact ⟨_, _, _, hrun, by decide, mpeg4_generic_bounded (by decide) (by decide) hrun⟩

theorem not_bounded_of_write {limit slack w pos n : Nat} {log : List Access} (hmem : .write pos n ∈ log)
    (hlimit : limit < pos + n) : ¬ Bounded limit slack w log := by
  obtain ⟨before, after, rfl⟩ := List.append_of_mem hmem
  exact fun h => absurd (bounded_append.mp h).2.2.1 (Nat.not_le_of_lt hlimit)

theorem headers_without_size {b : ReaderBuild} {data : PayloadContext} {len left i : Nat} {gb : GetBitContext}
    (hs : data.sizelength = 0) : ∃ index headers, (readAuHeaders b data len (left + 1) i gb).1 = ⟨0, index⟩ :: headers := by
  have hread : getBitsLong b 0 gb = (0, gb) := if_pos rfl
  have hzero : storedInt (0 : Nat) = 0 := by decide
  rw [readAuHeaders, hs, hread]
  simp only [hzero]
  exact ⟨_, _, rfl⟩

theorem two_bits (rest : List UInt8) : avRb16 (0 :: 2 :: 0 :: rest) 0 = 2 := by
  change (0 : UInt8).toUInt16 * 256 + (2 : UInt8).toUInt16 = 2
  decide

/-- Two headers of a bit without a size: the units are empty, and the rest of the payload is kept. -/
theorem rest_kept {b : ReaderBuild} {m : Memory} {data : PayloadContext} {rest : List UInt8} (hs : data.sizelength = 0)
    (hi : data.indexlength = 1) (hnone : data.auHeaders = none) (hm : m.headers = true) (hm' : m.packet = true)
    (hrest : rest ≠ []) :
    .write 0 (min rest.length frameBufferSize) ∈ (parsePayload b m data (0 :: 2 :: 0 :: rest) [] 0 true).log := by
  have hpos := List.length_pos_iff.mpr hrest
  have hparsed : (rtpParseMp4Au b m data (0 :: 2 :: 0 :: rest) []).ret = 0 ∧ ∃ index headers,
      (rtpParseMp4Au b m data (0 :: 2 :: 0 :: rest) []).data = { data with
        auHeaders := some (⟨0, index⟩ :: headers)
        auHeadersAllocated := 2
        nbAuHeaders := 2
        auHeadersLengthBytes := 1 } := by
    have hlength : (avRb16 (0 :: 2 :: 0 :: rest) 0).toNat = 2 := by
      rw [two_bits]
      decide
    rw [rtpParseMp4Au]
    simp only [List.length_cons, hlength]
    rw [if_neg (by omega), if_neg (by decide), if_neg (by omega), initGetBits_small _ (by decide)]
    simp only [hs, hi]
    rw [if_neg (by decide), if_neg (by decide), allocHeaders, if_pos (.inl hnone), if_pos hm]
    obtain ⟨index, headers, hheaders⟩ := @headers_without_size b { data with
        auHeaders := some (List.replicate 2 m.junk)
        auHeadersAllocated := 2
        nbAuHeaders := 2
        auHeadersLengthBytes := 1 }
      (rest.length + 1 + 1 + 1) 1 0 ⟨(0 :: 2 :: 0 :: rest).drop 2 ++ [], 0, 8, 16⟩ hs
    refine ⟨rfl, index, headers ++ (List.replicate 2 m.junk).drop 2, ?_⟩
    simp only [hs, hi, Nat.reduceAdd] at hheaders
    simp only [Nat.reduceAdd, Nat.reduceDiv, Nat.reduceMul, Option.getD_some, hheaders, List.cons_append]
  obtain ⟨hret, index, headers, hdata⟩ := hparsed
  rw [parsePayload]
  simp only [hret, hdata]
  have hheader : ({ data with
      auHeaders := some (⟨0, index⟩ :: headers)
      auHeadersAllocated := 2
      nbAuHeaders := 2
      auHeadersLengthBytes := 1 } : PayloadContext).header m 0 = ⟨0, index⟩ := rfl
  rw [if_neg (fun h => h rfl), if_neg (fun h => absurd h.1 (by decide)), firstAu, hheader]
  simp only [List.drop_succ_cons, List.drop_zero, Int.toNat_zero]
  rw [if_neg (by omega), avNewPacket, if_neg (by decide), if_neg (by rw [hm']; decide)]
  simp only
  rw [if_pos ⟨hpos, by decide⟩]
  exact List.mem_append_right _ (List.mem_append_right _ (List.mem_cons_of_mem _ List.mem_cons_self))
/-- An empty list of headers makes the first one be read all the same; the rest of a payload takes one byte more than
the largest frame; the words of a list at the end of a payload reach behind it. -/
theorem bounds_passed :
    (∃ data ret log, Depacketized fastReader (fun _ => True) (.fresh 13 3) data ret log ∧
      ¬ Bounded frameBufferSize 7 0 log) ∧
    (∃ data ret log, Depacketized fastReader HasHeaders (.fresh 0 1) data ret log ∧ ¬ Bounded maxAacHbrFrameSize 7 0 log) ∧
    ∃ data ret log, Depacketized fastReader HasHeaders (.fresh 13 3) data ret log ∧ ¬ Bounded frameBufferSize 0 0 log := by
  obtain ⟨rest, hrest⟩ : ∃ rest : List UInt8, rest.length = 8192 := ⟨List.replicate 8192 0, List.length_replicate⟩
  have hheaders : HasHeaders (0 :: 2 :: 0 :: rest) := .inr (by rw [two_bits]; decide)
  refine ⟨⟨_, _, _, Depacketized.start.payload enoughMemory ⟨[0, 0], [], 0, true⟩ (by decide) trivial, ?_⟩,
    ⟨_, _, _, Depacketized.start.payload enoughMemory ⟨0 :: 2 :: 0 :: rest, [], 0, true⟩ (by decide) hheaders, ?_⟩,
    ⟨_, _, _, Depacketized.start.payload enoughMemory ⟨[0, 16, 0, 8, 170], [], 0, true⟩ (by decide) (.inr (by decide)), ?_⟩⟩
  · rintro ⟨-, hheader, -⟩
    exact absurd hheader (by decide)
  · have hkept := @rest_kept fastReader enoughMemory (.fresh 0 1) rest rfl rfl rfl rfl rfl
      (List.ne_nil_of_length_pos (by omega))
    rw [hrest] at hkept
    exact not_bounded_of_write (List.mem_append_right _ hkept) (by decide)
  · rw [oneUnit_log]
    rintro ⟨-, hword, -⟩
    exact absurd hword (by decide)

end Limits

end P2PFFmpeg.Payload
