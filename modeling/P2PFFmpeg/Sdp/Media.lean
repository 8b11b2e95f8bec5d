import P2PFFmpeg.Util.AvString
import P2PFFmpeg.Util.Error

namespace P2PFFmpeg.Sdp

abbrev Text := List Char

inductive AVMediaType
  | video
  | audio
  | subtitle
  | other
deriving DecidableEq, Repr

inductive AVCodecID
  | dirac | h264 | h261 | h263 | h263p | hevc | mpeg4 | aac | pcmS16be | pcmS24be | pcmMulaw | pcmAlaw
  | amrNb | amrWb | vorbis | theora | bitpacked | rawvideo | vp8 | vp9 | mjpeg | adpcmG722 | adpcmG726
  | adpcmG726le | ilbc | speex | opus | g723_1 | qcelp | mp2 | mp3 | mpeg1video | mpeg2video | mpeg2ts
  | other
deriving DecidableEq, Repr

inductive AVPixelFormat
  | yuv420p | yuv422p | yuv444p | uyvy422 | yuv422p10 | rgb24 | bgr24 | other
deriving DecidableEq, Repr

structure Config where
  text : Text
  oneLine : ∀ c ∈ text, c ≠ '\r' ∧ c ≠ '\n'

/-- The codec parameters that are read. `config` is what extradata2psets,
extradata2psets_hevc, extradata2config or xiph_extradata2config answers for the
extradata, or the error, and `latm` what latm_context2config does. -/
structure AVCodecParameters where
  codecType : AVMediaType
  codecId : AVCodecID
  bitRate : Int
  width : Int
  height : Int
  sampleRate : Int
  nbChannels : Int
  format : AVPixelFormat
  progressive : Bool
  bitsPerCodedSample : Int
  blockAlign : Int
  extradataSize : Nat
  config : Except Int Config
  latm : Except Int Config

/-- The options of an RTP muxer: a payload type, and flags. -/
structure RtpOptions where
  payloadType : Option Nat
  h264Mode0 : Bool
  latm : Bool
  rfc2190 : Bool
deriving DecidableEq, Repr

inductive SdpLine
  | media (type : Text) (payloadType : Nat)
  | bandwidth (kbps : Int)
  | rtpmap (payloadType : Nat) (encoding : Text)
  | framesize (payloadType : Nat) (width height : Int)
  | fmtp (payloadType : Nat) (params : Text)
deriving DecidableEq

/-- `%d`. -/
def printInt (n : Int) : Text :=
  if n < 0 then '-' :: Nat.toDigits 10 n.natAbs else Nat.toDigits 10 n.natAbs

def printNat (n : Nat) : Text := Nat.toDigits 10 n

def fmtpTag : Text := ['a', '=', 'f', 'm', 't', 'p', ':']

def SdpLine.content : SdpLine → Text
  | .media type payloadType => "m=".toList ++ type ++ " 0 RTP/AVP ".toList ++ printNat payloadType
  | .bandwidth kbps => "b=AS:".toList ++ printInt kbps
  | .rtpmap payloadType encoding => "a=rtpmap:".toList ++ printNat payloadType ++ ' ' :: encoding
  | .framesize payloadType width height =>
      "a=framesize:".toList ++ printNat payloadType ++ ' ' :: printInt width ++ '-' :: printInt height
  | .fmtp payloadType params => fmtpTag ++ printNat payloadType ++ ' ' :: params

theorem SdpLine.content_fmtp (payloadType : Nat) (params : Text) :
    (SdpLine.fmtp payloadType params).content = fmtpTag ++ printNat payloadType ++ ' ' :: params := rfl

def SdpLine.text (line : SdpLine) : Text := line.content ++ ['\r', '\n']

def linesText (lines : List SdpLine) : Text := lines.flatMap SdpLine.text

/-- The static payload types with a codec: the clock rate and the channels, where
they are given. -/
def rtpPayloadTypes : List (Nat × AVCodecID × Option Int × Option Int) :=
  [(0, .pcmMulaw, some 8000, some 1), (4, .g723_1, some 8000, some 1), (8, .pcmAlaw, some 8000, some 1),
    (9, .adpcmG722, some 8000, some 1), (10, .pcmS16be, some 44100, some 2), (11, .pcmS16be, some 44100, some 1),
    (12, .qcelp, some 8000, some 1), (14, .mp2, none, none), (14, .mp3, none, none), (26, .mjpeg, some 90000, none),
    (31, .h261, some 90000, none), (32, .mpeg1video, some 90000, none), (32, .mpeg2video, some 90000, none),
    (33, .mpeg2ts, some 90000, none), (34, .h263, some 90000, none)]

def rtpPtPrivate : Nat := 96

def staticPayloadType (fmt : Option RtpOptions) (par : AVCodecParameters)
    (entry : Nat × AVCodecID × Option Int × Option Int) : Bool :=
  entry.2.1 = par.codecId &&
    !(par.codecId = .h263 && !(fmt.any RtpOptions.rfc2190)) &&
    (par.codecId = .adpcmG722 && par.sampleRate = 16000 && par.nbChannels = 1 ||
      !(par.codecType = .audio &&
        (entry.2.2.1.any (· ≠ par.sampleRate) || entry.2.2.2.any (· ≠ par.nbChannels))))

def ffRtpGetPayloadType (fmt : Option RtpOptions) (par : AVCodecParameters) (idx : Nat) : Nat :=
  match fmt.bind RtpOptions.payloadType with
  | some payloadType => payloadType
  | none =>
      match rtpPayloadTypes.find? (staticPayloadType fmt par) with
      | some entry => entry.1
      | none => rtpPtPrivate + idx

def latmContext2ProfileLevel (par : AVCodecParameters) : Int :=
  if par.sampleRate ≤ 24000 then if par.nbChannels ≤ 2 then 0x28 else 0x2B
  else if par.sampleRate ≤ 48000 then
    if par.nbChannels ≤ 2 then 0x29 else if par.nbChannels ≤ 5 then 0x2A else 0x2B
  else 0x2B

/-- `name/rate/channels`. -/
def audioEncoding (name : String) (par : AVCodecParameters) : Text :=
  name.toList ++ '/' :: printInt par.sampleRate ++ '/' :: printInt par.nbChannels

def AVCodecParameters.configText (par : AVCodecParameters) : Except Int Text :=
  if par.extradataSize ≠ 0 then par.config.map Config.text else .ok []

def theoraPixFmt : AVPixelFormat → Option String
  | .yuv420p => some "YCbCr-4:2:0"
  | .yuv422p => some "YCbCr-4:2:2"
  | .yuv444p => some "YCbCr-4:4:4"
  | _ => none

def rawPixFmt : AVPixelFormat → Option (String × Nat)
  | .uyvy422 => some ("YCbCr-4:2:2", 8)
  | .yuv422p10 => some ("YCbCr-4:2:2", 10)
  | .yuv420p => some ("YCbCr-4:2:0", 8)
  | .rgb24 => some ("RGB", 8)
  | .bgr24 => some ("BGR", 8)
  | _ => none

def sdpWriteMediaAttributes (fmt : Option RtpOptions) (par : AVCodecParameters) (payloadType : Nat) :
    Except Int (List SdpLine) :=
  let rtpmap := SdpLine.rtpmap payloadType
  let fmtp := SdpLine.fmtp payloadType
  -- a line that is written for dynamic payload types only
  let dynamic (line : SdpLine) : Except Int (List SdpLine) :=
    .ok (if payloadType ≥ rtpPtPrivate then [line] else [])
  match par.codecId with
  | .dirac => .ok [rtpmap "VC2/90000".toList]
  | .h264 => do
      let mode := if fmt.any RtpOptions.h264Mode0 then 0 else 1
      let config ← par.configText
      .ok [rtpmap "H264/90000".toList, fmtp ("packetization-mode=".toList ++ printNat mode ++ config)]
  | .h261 =>
      let picFmt := if par.width = 176 ∧ par.height = 144 then some "QCIF=1"
        else if par.width = 352 ∧ par.height = 288 then some "CIF=1" else none
      .ok ((if payloadType ≥ rtpPtPrivate then [rtpmap "H261/90000".toList] else []) ++
        (picFmt.map fun s => fmtp s.toList).toList)
  | .h263 =>
      .ok (if fmt.any RtpOptions.rfc2190 then []
        else [rtpmap "H263-2000/90000".toList, .framesize payloadType par.width par.height])
  | .h263p => .ok [rtpmap "H263-2000/90000".toList, .framesize payloadType par.width par.height]
  | .hevc =>
      if par.extradataSize ≠ 0 then do
        let config ← par.config
        .ok [rtpmap "H265/90000".toList, fmtp config.text]
      else .ok [rtpmap "H265/90000".toList]
  | .mpeg4 => do
      let config ← par.configText
      .ok [rtpmap "MP4V-ES/90000".toList, fmtp ("profile-level-id=1".toList ++ config)]
  | .aac =>
      if fmt.any RtpOptions.latm then do
        let config ← par.latm
        .ok [rtpmap (audioEncoding "MP4A-LATM" par), fmtp ("profile-level-id=".toList ++
          printInt (latmContext2ProfileLevel par) ++ ";cpresent=0;config=".toList ++ config.text)]
      else if par.extradataSize ≠ 0 then do
        let config ← par.config
        .ok [rtpmap (audioEncoding "MPEG4-GENERIC" par),
          fmtp ("profile-level-id=1;mode=AAC-hbr;sizelength=13;indexlength=3;indexdeltalength=3".toList ++ config.text)]
      else .error averrorEnosys
  | .pcmS16be => dynamic (rtpmap (audioEncoding "L16" par))
  | .pcmS24be => dynamic (rtpmap (audioEncoding "L24" par))
  | .pcmMulaw => dynamic (rtpmap (audioEncoding "PCMU" par))
  | .pcmAlaw => dynamic (rtpmap (audioEncoding "PCMA" par))
  | .amrNb => .ok [rtpmap (audioEncoding "AMR" par), fmtp "octet-align=1".toList]
  | .amrWb => .ok [rtpmap (audioEncoding "AMR-WB" par), fmtp "octet-align=1".toList]
  | .vorbis =>
      if par.extradataSize ≠ 0 then do
        let config ← par.config
        .ok [rtpmap (audioEncoding "vorbis" par), fmtp ("configuration=".toList ++ config.text)]
      else .error averrorInvaliddata
  | .theora =>
      match theoraPixFmt par.format with
      | none => .error averrorEnosys
      | some pixFmt =>
          if par.extradataSize ≠ 0 then do
            let config ← par.config
            .ok [rtpmap "theora/90000".toList, fmtp ("delivery-method=inline; width=".toList ++ printInt par.width ++
              "; height=".toList ++ printInt par.height ++ "; sampling=".toList ++ pixFmt.toList ++
              "; configuration=".toList ++ config.text)]
          else .error averrorInvaliddata
  | .bitpacked | .rawvideo =>
      match rawPixFmt par.format with
      | none => .error averrorEnosys
      | some (pixFmt, bitDepth) =>
          .ok [rtpmap "raw/90000".toList, fmtp ("sampling=".toList ++ pixFmt.toList ++ "; width=".toList ++
            printInt par.width ++ "; height=".toList ++ printInt par.height ++ "; depth=".toList ++
            printNat bitDepth ++ (if par.progressive then [] else "; interlace".toList))]
  | .vp8 => .ok [rtpmap "VP8/90000".toList]
  | .vp9 => .ok [rtpmap "VP9/90000".toList]
  | .mjpeg => dynamic (rtpmap "JPEG/90000".toList)
  | .adpcmG722 => dynamic (rtpmap ("G722/8000/".toList ++ printInt par.nbChannels))
  | .adpcmG726 => dynamic (rtpmap ("AAL2-G726-".toList ++ printInt (par.bitsPerCodedSample * 8) ++
      '/' :: printInt par.sampleRate))
  | .adpcmG726le => dynamic (rtpmap ("G726-".toList ++ printInt (par.bitsPerCodedSample * 8) ++
      '/' :: printInt par.sampleRate))
  | .ilbc => .ok [rtpmap ("iLBC/".toList ++ printInt par.sampleRate),
      fmtp ("mode=".toList ++ printNat (if par.blockAlign = 38 then 20 else 30))]
  | .speex => .ok [rtpmap ("speex/".toList ++ printInt par.sampleRate)]
  | .opus =>
      .ok (rtpmap "opus/48000/2".toList :: (if par.nbChannels = 2 then [fmtp "sprop-stereo=1".toList] else []))
  | .g723_1 | .qcelp | .mp2 | .mp3 | .mpeg1video | .mpeg2video | .mpeg2ts | .other => .ok []

def mediaType : AVMediaType → Text
  | .video => "video".toList
  | .audio => "audio".toList
  | .subtitle => "text".toList
  | .other => "application".toList

def mediaLines (fmt : Option RtpOptions) (par : AVCodecParameters) (idx : Nat) : Except Int (List SdpLine) := do
  let payloadType := ffRtpGetPayloadType fmt par idx
  let attributes ← sdpWriteMediaAttributes fmt par payloadType
  .ok (.media (mediaType par.codecType) payloadType ::
    ((if par.bitRate ≠ 0 then [.bandwidth (par.bitRate.tdiv 1000)] else []) ++ attributes))

/-- `av_strlcatf`. -/
def avStrlcat (size : Nat) (buff s : Text) : Text := if buff.length < size then (buff ++ s).take (size - 1) else buff

def ffSdpWriteMedia (size : Nat) (buff : Text) (par : AVCodecParameters) (idx : Nat) (fmt : Option RtpOptions) :
    Except Int Text :=
  (mediaLines fmt par idx).map fun lines => lines.foldl (fun buff line => avStrlcat size buff line.text) buff

end P2PFFmpeg.Sdp
