import P2PFFmpeg.Payload.Startcode
import P2PFFmpeg.Rtp.Context
import P2PFFmpeg.Util.Error
import P2PFFmpeg.Whep.ReadPacket

/-!
Each function gives `none` where the source has no defined result: it follows a
null pointer, indexes a stream that does not exist, or never returns.
-/

namespace P2PFFmpeg.Demux

open Util
open Payload (startCodeAt)

inductive AVMediaType
  | video
  | audio
  | other
deriving DecidableEq, Repr

inductive AVCodecID
  | h264
  | other
deriving DecidableEq, Repr

/-- A stream of an inner demuxer, with the codec parameters this demuxer reads. -/
structure AVStream where
  codecType : AVMediaType
  codecId : AVCodecID
  extradata : List UInt8
  timeBase : AVRational
deriving DecidableEq, Repr

structure Nals where
  sps : Bool
  pps : Bool
  idr : Bool
deriving DecidableEq, Repr

def Nals.none : Nals := ⟨false, false, false⟩

def Nals.note (n : Nals) (nalh : UInt8) : Nals :=
  let nalType := nalh &&& 0x1F
  if nalType = 7 then { n with sps := true }
  else if nalType = 8 then { n with pps := true }
  else if nalType = 5 then { n with idr := true }
  else n

def startCode4 (data : List UInt8) (i : Nat) : Bool :=
  byteAt data i = 0 && byteAt data (i + 1) = 0 && byteAt data (i + 2) = 0 &&
    byteAt data (i + 3) = 1

/-- The loop over `j`, with its bound `j + 4 <= size`. -/
def nextStartCode (data : List UInt8) (j : Nat) : Nat :=
  if j + 4 ≤ data.length then
    if startCodeAt data j || startCode4 data j then j else nextStartCode data (j + 1)
  else j
termination_by data.length - j

theorem le_nextStartCode (data : List UInt8) (j : Nat) : j ≤ nextStartCode data j := by
  fun_induction nextStartCode data j with
  | case1 j | case3 j => exact Nat.le_refl j
  | case2 j _ _ ih => omega

def scanAnnexB (data : List UInt8) (i : Nat) (found : Bool) (n : Nals) : Bool × Nals :=
  if i + 4 ≤ data.length then
    if startCodeAt data i || startCode4 data i then
      let nalStart := if startCode4 data i then i + 4 else i + 3
      scanAnnexB data (nextStartCode data nalStart) true
        (if nalStart < data.length then n.note (byteAt data nalStart) else n)
    else scanAnnexB data (i + 1) found n
  else (found, n)
termination_by data.length - i
decreasing_by
  · have hnal : i < (if startCode4 data i = true then i + 4 else i + 3) := by split <;> omega
    have := le_nextStartCode data (if startCode4 data i = true then i + 4 else i + 3)
    simp only [dite_eq_ite]
    omega
  · omega

/-- The length-prefixed loop. A negative `(int)len` moves backwards: a read
before the buffer and a signed overflow are undefined, and a position met twice
is never left again. A byte behind the data is padding. -/
def scanLengthPrefixed (data : List UInt8) : Nat → Int → Nals → Option Nals
  | 0, _, _ => Option.none
  | fuel + 1, pos, n =>
      if pos + 4 ≤ data.length then
        if pos < 0 then Option.none
        else
          let len := avRb32 data pos.toNat
          let pos := pos + 4
          if len = 0 then some n
          else if pos + Rtp.signed32 len > int32Max then Option.none
          else if pos + Rtp.signed32 len > data.length then some n
          else scanLengthPrefixed data fuel (pos + Rtp.signed32 len)
            (n.note (byteAt data pos.toNat))
      else some n

/-- `none` when the scan does not return; no position below the end of the data
is visited twice by one that does. -/
def scanH264Nals (data : List UInt8) : Option Nals :=
  if data = [] then some .none
  else
    let (found, n) := scanAnnexB data 0 false .none
    if found then some n else scanLengthPrefixed data (data.length + 2) 0 n

def hasKeyframeInfo (st : AVStream) (pkt : AVPacket) : Option Bool :=
  if pkt.data = [] then some false
  else match st.codecId with
    | .h264 => (scanH264Nals pkt.data).map fun n =>
        n.idr && (st.extradata ≠ [] || n.sps && n.pps)
    | .other => some pkt.key

inductive SwitchTarget
  | none
  | toP2p
  | toCdn
deriving DecidableEq, Repr

inductive ActiveSource
  | none
  | cdn
  | p2p
deriving DecidableEq, Repr

structure P2PRtpDemuxSwitchState where
  activeSource : ActiveSource
  pendingSwitch : SwitchTarget
  pendingPkt : AVPacket
  pendingPktValid : Bool
  pendingPktFrom : ActiveSource
  pendingPktOutStreamIndex : Int
  pendingPktSrcTb : AVRational
deriving DecidableEq, Repr

/-- What one call of `av_read_frame` gives; `failed n` is the error `-(n + 1)`. -/
inductive Frame
  | failed (code : Nat)
  | packet (pkt : AVPacket)
deriving DecidableEq, Repr

/-- An inner demuxer: its streams, and what the calls of `av_read_frame` on it
are going to give. -/
structure AVFormatContext where
  streams : List AVStream
  metadata : List (String × String)
  frames : List Frame
deriving DecidableEq, Repr

structure PeerConnectionTrack where
  streamIndex : Int
  rtpCtx : Option AVFormatContext
deriving DecidableEq, Repr

structure PeerConnectionNode where
  videoTrack : Option PeerConnectionTrack
deriving DecidableEq, Repr

/-- A packet that was read, the source it was read from and its stream there. -/
structure Taken where
  source : ActiveSource
  stream : AVStream
  pkt : AVPacket
deriving DecidableEq, Repr

/-- The demuxer's private data with the selected node of its `P2PContext`. Of the
streams of its `AVFormatContext` the time bases are kept; `reads` records the
packets read from the two sources, `commits` those handed out by a switch. -/
structure P2PRtpDemuxContext where
  outputVideoStreamIndex : Int
  outputAudioStreamIndex : Int
  cdnUrl : Option String
  cdnFmtCtx : Option AVFormatContext
  cdnVideoStreamIndex : Int
  cdnAudioStreamIndex : Int
  cdnActive : Bool
  lastP2pPacketTime : Int
  room : Option String
  p2pTransportErrorTimes : Nat
  p2pConnectReady : Bool
  repairRtpPktHost : Option String
  repairRtpPktPort : Int
  repairHttpTimeoutMs : Int
  sw : P2PRtpDemuxSwitchState
  cdnStarted : Bool
  selectedNode : Option PeerConnectionNode
  streams : List AVRational
  reads : List Taken
  commits : List AVPacket
deriving DecidableEq, Repr

/-- The macros the repository uses and does not define. -/
structure Build where
  p2pDefaultVideoGop : Nat
  p2pCdnUrlRepairApp : String
deriving DecidableEq, Repr

inductive Opening
  | failed (code : Nat)
  | opened (ctx : Option AVFormatContext)
deriving DecidableEq, Repr

/-- What the outside decides in one call: the clock, opening the CDN, and which
allocations succeed. `refCommit` and `refCommitAgain` answer the two commits of
a call, `refPending` the turns of a search for a keyframe. -/
structure Env where
  now : Int
  refCommit : Bool
  refPending : Nat → Bool
  refCommitAgain : Bool
  avAsprintf : Bool
  avDictSet : Bool
  avFindInputFormat : Bool
  avformatOpenInput : Opening
  avformatFindStreamInfo : Int
  avformatNewStream : Nat → Bool
  avcodecParametersCopy : Nat → Int

def switchStateInit (st : P2PRtpDemuxSwitchState) : P2PRtpDemuxSwitchState :=
  { st with
    activeSource := .none
    pendingSwitch := .none
    pendingPktValid := false
    pendingPkt := .blank }

/-- An element of an array at an index that may be negative. -/
def atIndex {α : Type} (l : List α) (i : Int) : Option α :=
  if 0 ≤ i then l[i.toNat]? else none

def avReadFrame (s : AVFormatContext) : Int × AVPacket × AVFormatContext :=
  match s.frames with
  | [] => (averrorEagain, .blank, s)
  | .failed code :: rest => (-(code + 1 : Int), .blank, { s with frames := rest })
  | .packet pkt :: rest => (0, pkt, { s with frames := rest })

/-- A packet as the caller is given it: with the times of an output stream and
its index. -/
def onto (pkt : AVPacket) (srcTb dstTb : AVRational) (streamIndex : Int) : AVPacket :=
  { avPacketRescaleTs pkt srcTb dstTb with streamIndex := streamIndex }

def P2PRtpDemuxContext.outputStreamIndex (ctx : P2PRtpDemuxContext) : AVMediaType → Int
  | .video => ctx.outputVideoStreamIndex
  | .audio => ctx.outputAudioStreamIndex
  | .other => -1

def P2PRtpDemuxContext.take (ctx : P2PRtpDemuxContext) (source : ActiveSource) (stream : AVStream)
    (pkt : AVPacket) : P2PRtpDemuxContext :=
  { ctx with reads := ctx.reads ++ [⟨source, stream, pkt⟩] }

def P2PRtpDemuxContext.setCdn (ctx : P2PRtpDemuxContext) (cdn : AVFormatContext) :
    P2PRtpDemuxContext :=
  { ctx with cdnFmtCtx := some cdn }

def P2PRtpDemuxContext.rtpCtx (ctx : P2PRtpDemuxContext) : Option AVFormatContext :=
  ctx.selectedNode.bind fun node => node.videoTrack.bind (·.rtpCtx)

def P2PRtpDemuxContext.setRtp (ctx : P2PRtpDemuxContext) (rtp : AVFormatContext) :
    P2PRtpDemuxContext :=
  { ctx with
    selectedNode := ctx.selectedNode.map fun node =>
      { node with videoTrack := node.videoTrack.map fun track => { track with rtpCtx := some rtp } } }

def adoptStream (src : AVStream) (ctx : P2PRtpDemuxContext) : P2PRtpDemuxContext :=
  let index : Int := ctx.streams.length
  let video := src.codecType = .video ∧ ctx.cdnVideoStreamIndex < 0
  let audio := src.codecType = .audio ∧ ctx.cdnAudioStreamIndex < 0
  { ctx with
    streams := ctx.streams ++ [src.timeBase]
    cdnVideoStreamIndex := if video then index else ctx.cdnVideoStreamIndex
    outputVideoStreamIndex :=
      if video ∧ ctx.outputVideoStreamIndex = -1 then index else ctx.outputVideoStreamIndex
    cdnAudioStreamIndex := if audio then index else ctx.cdnAudioStreamIndex
    outputAudioStreamIndex :=
      if audio ∧ ctx.outputAudioStreamIndex = -1 then index else ctx.outputAudioStreamIndex }

def addStreams (env : Env) : List AVStream → Nat → P2PRtpDemuxContext → Int × P2PRtpDemuxContext
  | [], _, ctx => (0, ctx)
  | src :: rest, i, ctx =>
      if src.codecType = .other then addStreams env rest (i + 1) ctx
      else if ¬env.avformatNewStream i then (averrorEnomem, ctx)
      else if env.avcodecParametersCopy i < 0 then
        (env.avcodecParametersCopy i, { ctx with streams := ctx.streams ++ [⟨1, 90000⟩] })
      else if 0 ≤ (adoptStream src ctx).cdnVideoStreamIndex ∧
          0 ≤ (adoptStream src ctx).cdnAudioStreamIndex then (0, adoptStream src ctx)
      else addStreams env rest (i + 1) (adoptStream src ctx)

def createCdnStreams (env : Env) (ctx : P2PRtpDemuxContext) : Int × P2PRtpDemuxContext :=
  if ctx.cdnFmtCtx.isSome ∧ ctx.cdnActive then (0, ctx)
  else if ¬env.avFindInputFormat then (averrorDemuxerNotFound, ctx)
  else if ctx.cdnUrl.getD "" = "" then (averrorEinval, ctx)
  else match env.avformatOpenInput with
    | .failed code => (-(code + 1 : Int), { ctx with cdnFmtCtx := none })
    | .opened none => (averrorEinval, { ctx with cdnFmtCtx := none })
    | .opened (some cdn) =>
        if env.avformatFindStreamInfo < 0 then
          (env.avformatFindStreamInfo, { ctx with cdnFmtCtx := none })
        else
          let (ret, ctx) := addStreams env cdn.streams 0 { ctx with cdnFmtCtx := some cdn }
          if ret < 0 then (ret, ctx)
          else (if ctx.streams.length > 0 then 0 else averrorEinval, ctx)

abbrev Outcome : Type := Option (Int × AVPacket × P2PRtpDemuxContext)

def readOneFromCdn (ctx : P2PRtpDemuxContext) (pkt : AVPacket) : Outcome :=
  match ctx.cdnFmtCtx with
  | none => some (averrorEagain, pkt, ctx)
  | some cdn =>
      if ¬ctx.cdnActive then some (averrorEagain, pkt, ctx)
      else
        let (ret, pkt, cdn) := avReadFrame cdn
        let ctx := ctx.setCdn cdn
        if ret < 0 then some (ret, pkt, ctx)
        else (atIndex cdn.streams pkt.streamIndex).bind fun st =>
          let ctx := ctx.take .cdn st pkt
          let outputStreamIndex := ctx.outputStreamIndex st.codecType
          if outputStreamIndex < 0 ∨ outputStreamIndex ≥ ctx.streams.length then
            some (averrorEagain, .blank, ctx)
          else if ¬ctx.cdnStarted ∧ outputStreamIndex = ctx.cdnVideoStreamIndex ∧ ¬pkt.key then
            some (averrorEagain, .blank, ctx)
          else
            (atIndex ctx.streams outputStreamIndex).map fun dstTb =>
              (0, onto pkt st.timeBase dstTb outputStreamIndex,
                if ¬ctx.cdnStarted ∧ outputStreamIndex = ctx.cdnVideoStreamIndex then
                  { ctx with cdnStarted := true }
                else ctx)

structure P2pRead where
  ret : Int
  pkt : AVPacket
  outputStreamIndex : Int
  srcTb : AVRational
  ctx : P2PRtpDemuxContext

def readOneFromP2p (ctx : P2PRtpDemuxContext) (pkt : AVPacket) (outputStreamIndex : Int)
    (srcTb : AVRational) : Option P2pRead :=
  if ctx.selectedNode.isNone then none
  else match ctx.rtpCtx with
    | none => some ⟨averrorEagain, pkt, outputStreamIndex, srcTb, ctx⟩
    | some rtp =>
        let (ret, pkt, rtp) := avReadFrame rtp
        let ctx := ctx.setRtp rtp
        if ret < 0 then some ⟨ret, pkt, outputStreamIndex, srcTb, ctx⟩
        else (atIndex rtp.streams pkt.streamIndex).map fun st =>
          ⟨0, pkt, ctx.outputVideoStreamIndex, st.timeBase, ctx.take .p2p st pkt⟩

def hold (ctx : P2PRtpDemuxContext) (source : ActiveSource) (target : SwitchTarget) (pkt : AVPacket)
    (srcTb : AVRational) : P2PRtpDemuxContext :=
  { ctx with sw := { ctx.sw with
      pendingPkt := pkt
      pendingPktValid := true
      pendingPktFrom := source
      pendingPktOutStreamIndex := ctx.outputVideoStreamIndex
      pendingPktSrcTb := srcTb
      pendingSwitch := target } }

/-- A failed `av_packet_ref` leaves the kept packet blank. -/
def dropHeld (ctx : P2PRtpDemuxContext) : P2PRtpDemuxContext :=
  { ctx with sw := { ctx.sw with pendingPkt := .blank } }

def chooseOutput (ctx : P2PRtpDemuxContext) (streamIndex : Int) : P2PRtpDemuxContext :=
  { ctx with
    outputVideoStreamIndex :=
      if ctx.outputVideoStreamIndex = -1 then streamIndex else ctx.outputVideoStreamIndex }

def searchP2p (env : Env) : Nat → Nat → P2PRtpDemuxContext → Option P2PRtpDemuxContext
  | 0, _, ctx => some ctx
  | turns + 1, i, ctx =>
      (readOneFromP2p ctx .blank (-1) ⟨1, 1⟩).bind fun r =>
        if r.ret < 0 then some r.ctx
        else match r.ctx.selectedNode.bind (·.videoTrack) with
          | none => searchP2p env turns (i + 1) r.ctx
          | some track =>
              match track.rtpCtx.bind fun rtp => atIndex rtp.streams r.pkt.streamIndex with
              | none => searchP2p env turns (i + 1) r.ctx
              | some st =>
                  (hasKeyframeInfo st r.pkt).bind fun suitable =>
                    if suitable then
                      let ctx := chooseOutput r.ctx track.streamIndex
                      if env.refPending i then some (hold ctx .p2p .toP2p r.pkt r.srcTb)
                      else searchP2p env turns (i + 1) (dropHeld ctx)
                    else searchP2p env turns (i + 1) r.ctx

def tryPrepareSwitchToP2p (build : Build) (env : Env) (ctx : P2PRtpDemuxContext) :
    Option (Int × P2PRtpDemuxContext) :=
  if ¬ctx.p2pConnectReady ∨ ctx.selectedNode.isNone then some (averrorEinval, ctx)
  else if ctx.sw.pendingSwitch = .toP2p ∧ ctx.sw.pendingPktValid then some (averrorEinval, ctx)
  else (searchP2p env build.p2pDefaultVideoGop 0 ctx).map fun ctx =>
    (if ctx.sw.pendingPktValid ∧ ctx.sw.pendingSwitch = .toP2p then 0 else averrorEagain, ctx)

def searchCdn (env : Env) : Nat → Nat → P2PRtpDemuxContext → Option P2PRtpDemuxContext
  | 0, _, ctx => some ctx
  | turns + 1, i, ctx =>
      match ctx.cdnFmtCtx with
      | none => none
      | some cdn =>
          let (ret, tmp, cdn) := avReadFrame cdn
          let ctx := ctx.setCdn cdn
          if ret < 0 then some ctx
          else (atIndex cdn.streams tmp.streamIndex).bind fun st =>
            let ctx := ctx.take .cdn st tmp
            if st.codecType ≠ .video then searchCdn env turns (i + 1) ctx
            else (hasKeyframeInfo st tmp).bind fun suitable =>
              if suitable then
                let ctx := chooseOutput ctx ctx.cdnVideoStreamIndex
                if env.refPending i then some (hold ctx .cdn .toCdn tmp st.timeBase)
                else searchCdn env turns (i + 1) (dropHeld ctx)
              else searchCdn env turns (i + 1) ctx

def tryPrepareSwitchToCdn (build : Build) (env : Env) (ctx : P2PRtpDemuxContext) :
    Option (Int × P2PRtpDemuxContext) :=
  if ctx.cdnFmtCtx.isNone then some (averrorEinval, ctx)
  else if ctx.sw.pendingSwitch = .toCdn ∧ ctx.sw.pendingPktValid then some (averrorEinval, ctx)
  else (searchCdn env build.p2pDefaultVideoGop 0 ctx).map fun ctx =>
    (if ctx.sw.pendingPktValid ∧ ctx.sw.pendingSwitch = .toCdn then 0 else averrorEagain, ctx)

def repairUrl (build : Build) (host : String) (port : Int) (room : String) : String :=
  "http://" ++ host ++ ":" ++ toString port ++ "/rtc/v1/repair/?app=" ++ build.p2pCdnUrlRepairApp ++
    "&stream=" ++ room ++ "&kind=video&seq=%u"

def avDictSet (metadata : List (String × String)) (key value : String) : List (String × String) :=
  metadata.filter (·.1 ≠ key) ++ [(key, value)]

def offerRepair (build : Build) (env : Env) (ctx : P2PRtpDemuxContext) : Option P2PRtpDemuxContext :=
  let host := ctx.repairRtpPktHost.getD ""
  let room := ctx.room.getD ""
  if host ≠ "" ∧ ctx.repairRtpPktPort > 0 ∧ room ≠ "" then
    ctx.rtpCtx.map fun rtp =>
      if rtp.metadata.lookup "repair_rtp_pkt_url" = none then
        let metadata :=
          if env.avAsprintf ∧ env.avDictSet then
            avDictSet rtp.metadata "repair_rtp_pkt_url"
              (repairUrl build host ctx.repairRtpPktPort room)
          else rtp.metadata
        let metadata :=
          if ctx.repairHttpTimeoutMs > 0 ∧ env.avDictSet then
            avDictSet metadata "repair_http_timeout_ms" (toString ctx.repairHttpTimeoutMs)
          else metadata
        ctx.setRtp { rtp with metadata := metadata }
      else ctx
  else some ctx

/-- The new source becomes the active one. -/
def switchSource (build : Build) (env : Env) (ctx : P2PRtpDemuxContext) : Option P2PRtpDemuxContext :=
  match ctx.sw.pendingSwitch with
  | .toP2p => offerRepair build env { ctx with sw := { ctx.sw with activeSource := .p2p } }
  | .toCdn => some { ctx with sw := { ctx.sw with activeSource := .cdn } }
  | .none => some ctx

def commitPendingSwitchIfReady (build : Build) (env : Env) (avPacketRef : Bool)
    (ctx : P2PRtpDemuxContext) (out : AVPacket) : Outcome :=
  if ¬ctx.sw.pendingPktValid then some (0, out, ctx)
  else
    let outIndex := ctx.sw.pendingPktOutStreamIndex
    (switchSource build env ctx).bind fun ctx =>
      (atIndex ctx.streams outIndex).map fun dstTb =>
        let pending := onto ctx.sw.pendingPkt ctx.sw.pendingPktSrcTb dstTb outIndex
        let ctx := { ctx with
          cdnActive := ctx.sw.activeSource = .cdn
          sw := { ctx.sw with
            pendingSwitch := .none
            pendingPktValid := false
            pendingPkt := .blank } }
        if avPacketRef then (1, pending, { ctx with commits := ctx.commits ++ [pending] })
        else (0, .blank, ctx)

/-- `signaling` is the return value of joining the room at the signalling server,
`room` the stream that the URL names. -/
def p2pRtpDemuxInit (signaling : Int) (room : Option String) (env : Env) (ctx : P2PRtpDemuxContext) :
    Int × P2PRtpDemuxContext :=
  (if signaling < 0 then signaling else 0, { ctx with
    cdnVideoStreamIndex := -1
    cdnAudioStreamIndex := -1
    outputVideoStreamIndex := -1
    outputAudioStreamIndex := -1
    cdnActive := false
    cdnStarted := false
    sw := switchStateInit ctx.sw
    lastP2pPacketTime := env.now
    room := ctx.room <|> room })

/-- The part of `p2p_rtp_read_header` behind the initialisation. -/
def openCdn (build : Build) (env : Env) (url : Option String) (ctx : P2PRtpDemuxContext) :
    Option P2PRtpDemuxContext :=
  let (ret, ctx) := createCdnStreams env { ctx with cdnUrl := url }
  if ret = 0 then
    (tryPrepareSwitchToCdn build env ctx).map fun (ret, ctx) =>
      if ret = 0 then { ctx with cdnActive := true, sw := { ctx.sw with activeSource := .cdn } }
      else ctx
  else some { ctx with cdnActive := false }

def p2pRtpReadHeader (build : Build) (env : Env) (signaling : Int) (room url : Option String)
    (ctx : P2PRtpDemuxContext) : Option (Int × P2PRtpDemuxContext) :=
  let (ret, ctx) := p2pRtpDemuxInit signaling room env ctx
  if ret < 0 then some (ret, ctx)
  else (openCdn build env url ctx).map fun ctx => (0, ctx)

/-- The test `ret = try_prepare_switch_to_p2p(ctx) > 0` never holds. -/
def readIdle (build : Build) (env : Env) (ctx : P2PRtpDemuxContext) (pkt : AVPacket) : Outcome :=
  if ctx.p2pConnectReady ∧ ctx.selectedNode.isSome then
    (tryPrepareSwitchToP2p build env ctx).map fun (prepared, ctx) =>
      if prepared > 0 then (1, pkt, ctx) else (averrorEagain, pkt, ctx)
  else some (averrorEagain, pkt, ctx)

def readCdn (build : Build) (env : Env) (ctx : P2PRtpDemuxContext) (pkt : AVPacket) : Outcome :=
  (readOneFromCdn ctx pkt).bind fun (ret, pkt, ctx) =>
    if ctx.p2pConnectReady ∧ ctx.selectedNode.isSome then
      (tryPrepareSwitchToP2p build env
        { ctx with sw := { ctx.sw with pendingSwitch := .toP2p } }).bind fun (_, ctx) =>
      (commitPendingSwitchIfReady build env env.refCommitAgain ctx pkt).map
        fun (committed, pkt, ctx) => if committed = 1 then (0, pkt, ctx) else (ret, pkt, ctx)
    else some (ret, pkt, ctx)

def fallBack (build : Build) (env : Env) (ctx : P2PRtpDemuxContext) (pkt : AVPacket) (ret : Int) :
    Outcome :=
  let ctx := { ctx with sw := { ctx.sw with pendingSwitch := .toCdn } }
  let ctx :=
    if ctx.cdnFmtCtx.isNone ∧ ctx.cdnUrl.isSome then (createCdnStreams env ctx).2 else ctx
  if ctx.cdnFmtCtx.isSome then
    (tryPrepareSwitchToCdn build env ctx).bind fun (_, ctx) =>
    (commitPendingSwitchIfReady build env env.refCommitAgain ctx pkt).map
      fun (committed, pkt, ctx) => if committed = 1 then (0, pkt, ctx) else (ret, pkt, ctx)
  else some (ret, pkt, ctx)

def readP2p (build : Build) (env : Env) (ctx : P2PRtpDemuxContext) (pkt : AVPacket) : Outcome :=
  (readOneFromP2p ctx pkt (-1) ⟨1, 1⟩).bind fun r =>
    if r.ret ≥ 0 then
      (atIndex r.ctx.streams r.outputStreamIndex).map fun dstTb =>
        (0, onto r.pkt r.srcTb dstTb r.outputStreamIndex,
          { r.ctx with lastP2pPacketTime := env.now, p2pTransportErrorTimes := 0 })
    else
      let ctx := { r.ctx with p2pTransportErrorTimes := r.ctx.p2pTransportErrorTimes + 1 }
      if ctx.p2pTransportErrorTimes > 100 then fallBack build env ctx r.pkt r.ret
      else some (r.ret, r.pkt, ctx)

def p2pRtpReadPacket (build : Build) (env : Env) (ctx : P2PRtpDemuxContext) (pkt : AVPacket) :
    Outcome :=
  (commitPendingSwitchIfReady build env env.refCommit ctx pkt).bind fun (committed, pkt, ctx) =>
    if committed = 1 then some (0, pkt, ctx)
    else match ctx.sw.activeSource with
      | .none => readIdle build env ctx pkt
      | .cdn => readCdn build env ctx pkt
      | .p2p => readP2p build env ctx pkt

end P2PFFmpeg.Demux
