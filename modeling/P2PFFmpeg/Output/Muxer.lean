import P2PFFmpeg.Library.Program
import P2PFFmpeg.Util.Error
import P2PFFmpeg.Util.Packet

namespace P2PFFmpeg.Output

open Util Library.Program

def maxReorderDelay : Nat := 16

def rescaleTs (ts : Option Int) (bq cq : AVRational) : Option Int :=
  ts.bind fun t => if avRescaleQ t bq cq = int64Min then none else some (avRescaleQ t bq cq)

inductive AVMediaType
  | video
  | audio
  | data
  | subtitle
  | attachment
deriving DecidableEq, Repr

inductive AVCodecID
  | vp8
  | vp9
  | smpte2038
  | other
deriving DecidableEq, Repr

structure FFFrac where
  val : Int
  num : Int
  den : Int
deriving DecidableEq, Repr

def fracInit (val num den : Int) : FFFrac :=
  let num := num + den / 2
  if num ≥ den then ⟨val + num.tdiv den, num.tmod den, den⟩ else ⟨val, num, den⟩

def fracAdd (f : FFFrac) (incr : Int) : FFFrac :=
  let num := f.num + incr
  if num < 0 then
    if num.tmod f.den < 0 then ⟨f.val + num.tdiv f.den - 1, num.tmod f.den + f.den, f.den⟩
    else ⟨f.val + num.tdiv f.den, num.tmod f.den, f.den⟩
  else if num ≥ f.den then ⟨f.val + num.tdiv f.den, num.tmod f.den, f.den⟩
  else ⟨f.val, num, f.den⟩

/-- A stream of the muxer, its parameters and its internal part in one record. -/
structure AVStream where
  timeBase : AVRational
  avgFrameRate : AVRational
  codecType : AVMediaType
  codecId : AVCodecID
  sampleRate : Int
  videoDelay : Nat
  isIntraOnly : Bool
  curDts : Option Int
  privPts : FFFrac
  ptsBuffer : List (Option Int)
deriving DecidableEq, Repr

inductive InterleavePacket
  | passthrough
  | perDts
deriving DecidableEq, Repr

/-- What an output format decides: two of its flags, its own way of interleaving
if it has one, and the duration of an audio packet by its size. -/
structure AVOutputFormat where
  notimestamps : Bool
  tsNonstrict : Bool
  interleavePacket : Option InterleavePacket
  audioFrameDuration : AVStream → Nat → Int

structure AVFormatContext where
  oformat : AVOutputFormat
  streams : List AVStream
  packetBuffer : List AVPacket
  nbInterleavedStreams : Nat
  interleavePacket : InterleavePacket
  maxInterleaveDelta : Int

/-- A call into the muxer: the packet it was given, what the bitstream filter of
its stream makes of it if there is one, and the results of the allocations and
of the callbacks of the format that the call makes, in their order. -/
structure MuxCall where
  context : AVFormatContext
  pkt : AVPacket
  filtered : Option (List AVPacket)
  answers : List Int

abbrev MuxM := EStateM Int MuxCall

def answer : MuxM Int := do
  let call ← get
  modify fun c => { c with answers := c.answers.tail }
  pure (call.answers.headD 0)

def attempt : MuxM Unit := do
  let ret ← answer
  if ret < 0 then throw ret else pure ()

def avPacketUnref : MuxM Unit := modify fun c => { c with pkt := .blank }

def insertPacket (compare : AVPacket → AVPacket → Bool) (pkt : AVPacket) (buffer : List AVPacket) :
    List AVPacket :=
  let rest := buffer.reverse.takeWhile (fun p => p.streamIndex ≠ pkt.streamIndex) |>.reverse
  let front := buffer.take (buffer.length - rest.length)
  match rest.getLast? with
  | none => buffer ++ [pkt]
  | some tail =>
      if compare tail pkt then
        front ++ rest.takeWhile (fun next => !compare next pkt) ++
          pkt :: rest.dropWhile (fun next => !compare next pkt)
      else buffer ++ [pkt]

section Insert

variable {compare compare' : AVPacket → AVPacket → Bool} {pkt : AVPacket} {front back : List AVPacket}

/-- Where the stream of the packet ends in the buffer, the loop starts. -/
theorem insertPacket_split (hback : ∀ p ∈ back, p.streamIndex ≠ pkt.streamIndex)
    (hfront : ∀ p ∈ front.getLast?, p.streamIndex = pkt.streamIndex) :
    insertPacket compare pkt (front ++ back) =
      match back.getLast? with
      | none => front ++ back ++ [pkt]
      | some tail =>
          if compare tail pkt then
            front ++ back.takeWhile (fun next => !compare next pkt) ++
              pkt :: back.dropWhile (fun next => !compare next pkt)
          else front ++ back ++ [pkt] := by
  have hstop : front.reverse.takeWhile (fun p => decide (p.streamIndex ≠ pkt.streamIndex)) = [] := by
    rcases List.eq_nil_or_concat' front with rfl | ⟨start, c, rfl⟩
    · rfl
    · have hc := hfront c (by simp)
      rw [List.reverse_concat, List.takeWhile_cons_of_neg (by simp [hc])]
  have hrest : ((front ++ back).reverse.takeWhile
      (fun p => decide (p.streamIndex ≠ pkt.streamIndex))).reverse = back := by
    rw [List.reverse_append, List.takeWhile_append_of_pos (by simpa using hback), hstop,
      List.append_nil, List.reverse_reverse]
  have hlength : (front ++ back).length - back.length = front.length := by
    rw [List.length_append, Nat.add_sub_cancel]
  unfold insertPacket
  simp only [hrest, hlength, List.take_left]

theorem span_congr {later later' : AVPacket → Bool} {ps : List AVPacket}
    (h : ∀ p ∈ ps, later p = later' p) :
    ps.takeWhile later = ps.takeWhile later' ∧ ps.dropWhile later = ps.dropWhile later' := by
  induction ps with
  | nil => exact ⟨rfl, rfl⟩
  | cons p ps ih =>
      obtain ⟨htake, hdrop⟩ := ih fun q hq => h q (List.mem_cons_of_mem _ hq)
      rw [List.takeWhile_cons, List.takeWhile_cons, List.dropWhile_cons, List.dropWhile_cons,
        h p List.mem_cons_self, htake, hdrop]
      exact ⟨rfl, rfl⟩

theorem insertPacket_congr {buffer : List AVPacket}
    (h : ∀ p ∈ buffer, compare p pkt = compare' p pkt) :
    insertPacket compare pkt buffer = insertPacket compare' pkt buffer := by
  unfold insertPacket
  dsimp only
  generalize hrest : (buffer.reverse.takeWhile fun p =>
    decide (p.streamIndex ≠ pkt.streamIndex)).reverse = rest
  have hmem : ∀ p ∈ rest, p ∈ buffer := by
    intro p hp
    rw [← hrest, List.mem_reverse] at hp
    exact List.mem_reverse.mp ((List.takeWhile_prefix _).subset hp)
  obtain ⟨htake, hdrop⟩ := span_congr fun p hp => congrArg not (h p (hmem p hp))
  rw [htake, hdrop]
  cases htail : rest.getLast? with
  | none => rfl
  | some tail =>
      dsimp only
      rw [h tail (hmem tail (List.mem_of_getLast? htail))]

end Insert

def AVFormatContext.stream (s : AVFormatContext) (index : Int) : Option AVStream :=
  if 0 ≤ index then s.streams[index.toNat]? else none

def tsValue (ts : Option Int) : Int := ts.getD int64Min

def interleaveCompareDts (s : AVFormatContext) (next pkt : AVPacket) : Bool :=
  match s.stream pkt.streamIndex, s.stream next.streamIndex with
  | some st, some st2 =>
      let comp := avCompareTs (tsValue next.dts) st2.timeBase (tsValue pkt.dts) st.timeBase
      if comp = 0 then pkt.streamIndex < next.streamIndex else comp > 0
  | _, _ => false

def ffInterleaveAddPacket : MuxM Unit := do
  let allocated ← answer
  if allocated < 0 then do
    avPacketUnref
    throw averrorEnomem
  else do
    let refcounted ← answer
    if refcounted < 0 then do
      avPacketUnref
      throw refcounted
    else modify fun c =>
      { c with
        context := { c.context with
          packetBuffer :=
            insertPacket (interleaveCompareDts c.context) c.pkt c.context.packetBuffer }
        pkt := .blank }

def AVFormatContext.lastInPacketBuffer (s : AVFormatContext) (buffer : List AVPacket) :
    List (AVStream × Option AVPacket) :=
  s.streams.zipIdx.map fun (st, i) => (st, buffer.reverse.find? fun p => p.streamIndex == (i : Int))

def toTimeBaseQ (st : AVStream) (dts : Option Int) : Int :=
  avRescaleQ (tsValue dts) st.timeBase avTimeBaseQ

/-- Whether ff_interleave_packet_per_dts sets flush on its own: every stream has
a packet in the buffer, or the buffer spans too much time. -/
def AVFormatContext.forcesOutput (s : AVFormatContext) (buffer : List AVPacket) : Bool :=
  let lasts := s.lastInPacketBuffer buffer
  let streamCount := (lasts.filter fun l => l.2.isSome).length
  let noninterleavedCount := (lasts.filter fun l => l.2.isNone &&
    l.1.codecType != .attachment && l.1.codecId == .other).length
  if s.nbInterleavedStreams = streamCount then true
  else
    match buffer.head? with
    | some top =>
        match s.stream top.streamIndex with
        | some st =>
            s.maxInterleaveDelta > 0 && top.dts.isSome &&
              s.nbInterleavedStreams == streamCount + noninterleavedCount &&
              (lasts.any fun l =>
                match l.2 with
                | some last => l.1.codecType != .subtitle &&
                    toTimeBaseQ l.1 last.dts - toTimeBaseQ st top.dts > s.maxInterleaveDelta
                | none => false)
        | none => false
    | none => false

/-- The muxer's write_packet, and the packet is released. -/
def writePacket : MuxM Unit := do
  let ret ← answer
  avPacketUnref
  if ret < 0 then throw ret else pure ()

def drain (flush : Bool) : List AVPacket → MuxM Unit
  | [] => pure ()
  | top :: rest => do
      let call ← get
      if flush || call.context.forcesOutput (top :: rest) then do
        modify fun c => { c with context := { c.context with packetBuffer := rest }, pkt := top }
        writePacket
        drain flush rest
      else pure ()

def interleavedWritePacket (flush hasPacket : Bool) : MuxM Unit := do
  let call ← get
  match call.context.interleavePacket with
  | .passthrough => doWhen hasPacket writePacket
  | .perDts => do
      doWhen hasPacket ffInterleaveAddPacket
      let added ← get
      drain flush added.context.packetBuffer

def guessPktDuration (of : AVOutputFormat) (st : AVStream) (pkt : AVPacket) : AVPacket :=
  let duration := if pkt.duration < 0 ∧ st.codecType ≠ .subtitle then 0 else pkt.duration
  if duration ≠ 0 then { pkt with duration := duration }
  else
    match st.codecType with
    | .video =>
        if st.avgFrameRate.num > 0 ∧ st.avgFrameRate.den > 0 then
          { pkt with
            duration := avRescaleQ 1 ⟨st.avgFrameRate.den, st.avgFrameRate.num⟩ st.timeBase }
        else if st.timeBase.num * 1000 > st.timeBase.den then { pkt with duration := 1 }
        else { pkt with duration := 0 }
    | .audio =>
        let frameSize := of.audioFrameDuration st pkt.data.length
        if frameSize ≠ 0 ∧ st.sampleRate ≠ 0 then
          { pkt with duration := avRescaleQ frameSize ⟨1, st.sampleRate⟩ st.timeBase }
        else { pkt with duration := 0 }
    | _ => { pkt with duration := 0 }

/-- The entries of pts_buffer from the index on, as far as they are missing and
the reordering reaches. -/
def fillPtsBuffer (pts duration : Int) (delay : Nat) : Nat → List (Option Int) → List (Option Int)
  | i, none :: rest =>
      if i < delay + 1 then
        some (pts + ((i : Int) - delay - 1) * duration) ::
          fillPtsBuffer pts duration delay (i + 1) rest
      else none :: rest
  | _, buffer => buffer

def settlePtsBuffer : Nat → List (Option Int) → List (Option Int)
  | delay + 1, a :: b :: rest =>
      if tsValue a > tsValue b then b :: settlePtsBuffer delay (a :: rest) else a :: b :: rest
  | _, buffer => buffer

def makeUpTimestamps (st : AVStream) (pkt : AVPacket) : AVStream × AVPacket :=
  let delay := st.videoDelay
  let pkt := if pkt.pts = none ∧ pkt.dts ≠ none ∧ delay = 0 then { pkt with pts := pkt.dts } else pkt
  let pkt :=
    if (pkt.pts = some 0 ∨ pkt.pts = none) ∧ pkt.dts = none ∧ delay = 0 then
      { pkt with pts := some st.privPts.val, dts := some st.privPts.val }
    else pkt
  match pkt.pts, pkt.dts with
  | some pts, none =>
      if delay ≤ maxReorderDelay then
        let filled := some pts :: fillPtsBuffer pts pkt.duration delay 1 st.ptsBuffer.tail
        let buffer := settlePtsBuffer delay filled
        ({ st with ptsBuffer := buffer }, { pkt with dts := buffer.headD none })
      else (st, pkt)
  | _, _ => (st, pkt)

def refusesDts (of : AVOutputFormat) (st : AVStream) (dts : Option Int) : Bool :=
  match st.curDts with
  | none => false
  | some cur =>
      cur != 0 && ((!of.tsNonstrict && st.codecType != .subtitle && st.codecType != .data &&
        cur ≥ tsValue dts) || cur > tsValue dts)

def isBefore (pts dts : Option Int) : Bool :=
  match pts, dts with
  | some p, some d => p < d
  | _, _ => false

def computeMuxerPktFields (of : AVOutputFormat) (st : AVStream) (pkt : AVPacket) :
    Int × AVStream × AVPacket :=
  let made := makeUpTimestamps st pkt
  let st := made.1
  let pkt := made.2
  if refusesDts of st pkt.dts then (averrorEinval, st, pkt)
  else if isBefore pkt.pts pkt.dts then (averrorEinval, st, pkt)
  else
    let privPts := { st.privPts with val := tsValue pkt.dts }
    let st := { st with curDts := pkt.dts, privPts := privPts }
    match st.codecType with
    | .audio =>
        let frameSize := of.audioFrameDuration st pkt.data.length
        if frameSize ≥ 0 ∧ (pkt.data ≠ [] ∨ privPts.num ≠ privPts.den / 2 ∨ privPts.val ≠ 0) then
          (0, { st with privPts := fracAdd privPts (st.timeBase.den * frameSize) }, pkt)
        else (0, st, pkt)
    | .video =>
        (0, { st with privPts := fracAdd privPts (st.timeBase.den * st.timeBase.num) }, pkt)
    | _ => (0, st, pkt)

def AVFormatContext.setStream (s : AVFormatContext) (index : Int) (st : AVStream) :
    AVFormatContext :=
  { s with streams := s.streams.set index.toNat st }

def writePacketCommon : MuxM Unit := do
  let call ← get
  match call.context.stream call.pkt.streamIndex with
  | none => throw averrorEinval
  | some st => do
      let of := call.context.oformat
      let fields := computeMuxerPktFields of st (guessPktDuration of st call.pkt)
      modify fun c =>
        { c with context := c.context.setStream c.pkt.streamIndex fields.2.1, pkt := fields.2.2 }
      if fields.1 < 0 ∧ of.notimestamps = false then throw fields.1
      else if fields.2.2.dts = none ∧ of.notimestamps = false then throw averrorEinval
      else interleavedWritePacket false true

/-- The packets that the filter returns, each written; the last call of the
filter returns none, which is an error only if it says more than that. -/
def writeFiltered : List AVPacket → MuxM Unit
  | [] => do
      avPacketUnref
      attempt
  | p :: ps => do
      modify fun c => { c with pkt := p }
      writePacketCommon
      writeFiltered ps

def writePacketsFromBsfs (filtered : List AVPacket) : MuxM Unit := do
  attempt
  writeFiltered filtered

def checkPacket (s : AVFormatContext) (pkt : AVPacket) : Bool :=
  match s.stream pkt.streamIndex with
  | none => false
  | some st => st.codecType != .attachment

def prepareInputPacket : MuxM Unit := do
  modify fun c =>
    match c.context.stream c.pkt.streamIndex with
    | some st => { c with pkt := { c.pkt with key := c.pkt.key || st.isIntraOnly } }
    | none => c
  attempt

def writePacketsCommon : MuxM Unit := do
  let call ← get
  if checkPacket call.context call.pkt = false then throw averrorEinval
  else do
    prepareInputPacket
    attempt
    match call.filtered with
    | some filtered => writePacketsFromBsfs filtered
    | none => writePacketCommon

def avInterleavedWriteFrame : MuxM Unit :=
  tryCatch writePacketsCommon fun ret => do
    avPacketUnref
    throw ret

/-- What a format does in its init and write_header: the result, and the time
base it gives to each stream. -/
structure HeaderAnswer where
  ret : Int
  timeBases : List AVRational
deriving DecidableEq, Repr

def ptsDen (st : AVStream) : Option Int :=
  match st.codecType with
  | .audio => some (st.timeBase.num * st.sampleRate)
  | .video => some (st.timeBase.num * st.timeBase.den)
  | _ => none

def initPts (st : AVStream) : AVStream :=
  match ptsDen st with
  | some den => { st with privPts := fracInit 0 0 den }
  | none => st

def isInterleaved (st : AVStream) : Bool :=
  st.codecType != .attachment && st.codecId != .smpte2038

def avformatWriteHeader (s : AVFormatContext) (a : HeaderAnswer) : Int × AVFormatContext :=
  let nb := s.nbInterleavedStreams + (s.streams.filter isInterleaved).length
  let started : AVFormatContext :=
    { s with
      streams := s.streams.zipIdx.map fun (st, i) =>
        { st with timeBase := a.timeBases.getD i st.timeBase }
      nbInterleavedStreams := nb
      interleavePacket := s.oformat.interleavePacket.getD
        (if nb > 1 then .perDts else .passthrough) }
  if a.ret < 0 then (a.ret, started)
  else if started.streams.any fun st => (ptsDen st).any fun den => den ≤ 0 then
    (averrorInvaliddata, started)
  else (0, { started with streams := started.streams.map initPts })

end P2PFFmpeg.Output
