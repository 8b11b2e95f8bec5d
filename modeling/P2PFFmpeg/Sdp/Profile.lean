import P2PFFmpeg.Sdp.Media

namespace P2PFFmpeg.Sdp

open Util

def strstr : Text → Text → Option Text
  | [], needle => if needle = [] then some [] else none
  | c :: s, needle => if needle.isPrefixOf (c :: s) then some (c :: s) else strstr s needle

def profileSuffix : Text := ";level-asymmetry-allowed=1".toList

/-- The profile that create_track passes on. -/
def createTrackProfile (sdpStream : Text) : Option Text :=
  match strstr sdpStream fmtpTag with
  | none => none
  | some fmtp =>
      let fmtpStart := fmtp.drop 7
      let fmtpEnd := (strchr fmtpStart '\r').or (strchr fmtpStart '\n')
      fmtpEnd.map fun n => fmtpStart.take n ++ profileSuffix

/-- The profile that whip_init passes on. The length is a size_t, and av_strndup
stops at the end of the text. -/
def whipInitProfile (sdpStream : Text) : Option Text :=
  match strstr sdpStream fmtpTag with
  | none => none
  | some fmtp =>
      -- NULL less a pointer leads beyond the end of the text
      let len := match strchr fmtp '\r' with
        | some n => (((n : Int) - 10) % 2 ^ 64).toNat
        | none => 2 ^ 64 - 1
      some ((fmtp.drop 10).take len ++ profileSuffix)

/-- Both senders pass on the format parameters with the suffix. -/
structure ProfilesRight (sdpStream params : Text) : Prop where
  createTrack : createTrackProfile sdpStream = some (params ++ profileSuffix)
  whipInit : whipInitProfile sdpStream = some (params ++ profileSuffix)

section Cutting

variable {head params rest : Text} {payloadType : Nat}

theorem third_of_tag {s : Text} (h : fmtpTag.isPrefixOf s = true) : s[2]? = some 'f' := by
  obtain ⟨rest, rfl⟩ := List.isPrefixOf_iff_prefix.mp h
  rfl

theorem strstr_fmtp (hhead : 'f' ∉ head) (rest : Text) :
    strstr (head ++ (fmtpTag ++ rest)) fmtpTag = some (fmtpTag ++ rest) := by
  induction head with
  | nil => rfl
  | cons c head ih =>
      have hno : ¬fmtpTag.isPrefixOf (c :: (head ++ (fmtpTag ++ rest))) = true := by
        intro htag
        have hthird := third_of_tag htag
        match head, hhead with
        | [], _ | [x], _ => exact absurd (Option.some.inj hthird) (by decide)
        | x :: y :: head, hhead =>
            refine hhead (List.mem_cons_of_mem c (List.mem_cons_of_mem x ?_))
            rw [← Option.some.inj hthird]
            exact List.mem_cons_self
      rw [List.cons_append, strstr, if_neg hno]
      exact ih fun hmem => hhead (List.mem_cons_of_mem c hmem)

theorem notMem_printNat {c : Char} (hc : c.isDigit = false) (n : Nat) : c ∉ printNat n := by
  intro hmem
  rw [Nat.isDigit_of_mem_toDigits (by decide) (by decide) hmem] at hc
  cases hc

theorem fmtp_text_append (payloadType : Nat) (params rest : Text) :
    (SdpLine.fmtp payloadType params).text ++ rest =
      fmtpTag ++ ((printNat payloadType ++ ' ' :: params) ++ '\r' :: ('\n' :: rest)) := by
  simp only [SdpLine.text, SdpLine.content_fmtp, List.append_assoc, List.cons_append, List.nil_append]

theorem createTrackProfile_fmtp (hhead : 'f' ∉ head) (hparams : '\r' ∉ params) :
    createTrackProfile (head ++ ((SdpLine.fmtp payloadType params).text ++ rest)) =
      some (printNat payloadType ++ ' ' :: params ++ profileSuffix) := by
  have hline : '\r' ∉ printNat payloadType ++ ' ' :: params := by
    simp [notMem_printNat, hparams]
  rw [createTrackProfile, fmtp_text_append, strstr_fmtp hhead]
  have hstart : (fmtpTag ++ ((printNat payloadType ++ ' ' :: params) ++ '\r' :: ('\n' :: rest))).drop 7 =
      (printNat payloadType ++ ' ' :: params) ++ '\r' :: ('\n' :: rest) := rfl
  simp only [hstart, strchr_behind hline, Option.some_or, Option.map_some, List.take_left]

theorem length_printNat_eq_two (n : Nat) : (printNat n).length = 2 ↔ 10 ≤ n ∧ n ≤ 99 := by
  have hone := @Nat.length_toDigits_le_iff 10 n 1 (by decide) (by decide)
  have htwo := @Nat.length_toDigits_le_iff 10 n 2 (by decide) (by decide)
  unfold printNat
  omega

theorem length_content_fmtp (payloadType : Nat) (params : Text) :
    (SdpLine.fmtp payloadType params).content.length = 8 + (printNat payloadType).length + params.length := by
  simp only [SdpLine.content_fmtp, fmtpTag, List.length_append, List.length_cons, List.length_nil]
  omega

theorem drop_content_fmtp (h : (printNat payloadType).length = 2) :
    (SdpLine.fmtp payloadType params).content.drop 10 = params := by
  have hfront : (fmtpTag ++ printNat payloadType ++ [' ']).length = 10 := by
    rw [List.length_append, List.length_append, h]
    rfl
  have hsplit : (SdpLine.fmtp payloadType params).content = (fmtpTag ++ printNat payloadType ++ [' ']) ++ params := by
    simp only [SdpLine.content_fmtp, List.append_assoc, List.cons_append, List.nil_append]
  rw [hsplit, ← hfront, List.drop_left]

theorem whipInitProfile_fmtp (hhead : 'f' ∉ head) (hparams : '\r' ∉ params)
    (hsize : (SdpLine.fmtp payloadType params).content.length < 2 ^ 63) :
    whipInitProfile (head ++ ((SdpLine.fmtp payloadType params).text ++ rest)) = some (params ++ profileSuffix) ↔
      10 ≤ payloadType ∧ payloadType ≤ 99 := by
  have hline : '\r' ∉ (SdpLine.fmtp payloadType params).content := by
    simp [SdpLine.content_fmtp, fmtpTag, notMem_printNat, hparams]
  have hlength := length_content_fmtp payloadType params
  have hfound := @strstr_fmtp head hhead ((printNat payloadType ++ ' ' :: params) ++ '\r' :: ('\n' :: rest))
  have hwhole : fmtpTag ++ ((printNat payloadType ++ ' ' :: params) ++ '\r' :: ('\n' :: rest)) =
      (SdpLine.fmtp payloadType params).content ++ '\r' :: ('\n' :: rest) := by
    simp only [SdpLine.content_fmtp, List.append_assoc, List.cons_append]
  have hcut := @drop_content_fmtp params payloadType
  rw [whipInitProfile, fmtp_text_append, hfound, hwhole, ← length_printNat_eq_two]
  generalize (SdpLine.fmtp payloadType params).content = content at *
  simp only [strchr_behind hline, Option.some_inj, List.append_left_inj]
  by_cases hten : 10 ≤ content.length
  · have hlen : (((content.length : Int) - 10) % 2 ^ 64).toNat = content.length - 10 := by omega
    rw [hlen, List.drop_append_of_le_length hten, ← List.length_drop, List.take_left]
    constructor
    · intro hsame
      have hsame' := congrArg List.length hsame
      rw [List.length_drop] at hsame'
      omega
    · exact hcut
  · -- the text up to its NUL is taken, with the end of the line
    have hdigits : 0 < (printNat payloadType).length := Nat.length_toDigits_pos
    have hnine : content.length = 9 := by omega
    have hempty : params = [] := List.length_eq_zero_iff.mp (by omega)
    have hrest : (content ++ '\r' :: '\n' :: rest).drop 10 = '\n' :: rest := by
      rw [show 10 = content.length + 1 by omega, List.drop_length_add_append]
      rfl
    rw [hrest, hnine, hempty]
    refine iff_of_false ?_ (by omega)
    exact List.cons_ne_nil _ _

end Cutting

section Sections

variable {fmt : Option RtpOptions} {par : AVCodecParameters} {payloadType : Nat} {lines : List SdpLine}

inductive AttributesShape (payloadType : Nat) : List SdpLine → Prop
  | plain {lines : List SdpLine} (h : ∀ p q, SdpLine.fmtp p q ∉ lines) : AttributesShape payloadType lines
  | params {pre : List SdpLine} {params : Text} (hpre : 'f' ∉ linesText pre) (hparams : '\r' ∉ params) :
      AttributesShape payloadType (pre ++ [.fmtp payloadType params])

theorem notMem_printInt {c : Char} (hc : c.isDigit = false) (hminus : c ≠ '-') (n : Int) : c ∉ printInt n := by
  unfold printInt
  split
  · rw [List.mem_cons, not_or]
    exact ⟨hminus, notMem_printNat hc _⟩
  · exact notMem_printNat hc _

theorem rtpmap_clean {encoding : Text} (h : 'f' ∉ encoding) :
    'f' ∉ linesText [.rtpmap payloadType encoding] := by
  have hpt := @notMem_printNat 'f' (by decide) payloadType
  change 'f' ∉ (("a=rtpmap:".toList ++ printNat payloadType ++ ' ' :: encoding) ++ ['\r', '\n']) ++ []
  simp [hpt, h]

theorem shape_rtpmap (encoding : Text) : AttributesShape payloadType [.rtpmap payloadType encoding] :=
  .plain fun p q h => by simp at h

theorem shape_pair {encoding params : Text} (hencoding : 'f' ∉ encoding) (hparams : '\r' ∉ params) :
    AttributesShape payloadType [.rtpmap payloadType encoding, .fmtp payloadType params] :=
  @AttributesShape.params payloadType [.rtpmap payloadType encoding] params (rtpmap_clean hencoding) hparams

theorem audioEncoding_clean (name : String) (h : 'f' ∉ name.toList) (par : AVCodecParameters) :
    'f' ∉ audioEncoding name par := by
  have hnumber := @notMem_printInt 'f' (by decide) (by decide)
  simp [audioEncoding, h, hnumber]

theorem Config.oneLine' (c : Config) : '\r' ∉ c.text := fun h => (c.oneLine _ h).1 rfl

theorem bind_ok {α β : Type} {x : Except Int α} {f : α → Except Int β} {y : β} (h : x.bind f = .ok y) :
    ∃ a, x = .ok a ∧ f a = .ok y := by
  cases x with
  | error e => cases h
  | ok a => exact ⟨a, rfl, h⟩

theorem configText_oneLine {text : Text} (h : par.configText = .ok text) : '\r' ∉ text := by
  unfold AVCodecParameters.configText at h
  split at h
  · cases hconfig : par.config with
    | error e =>
        rw [hconfig] at h
        cases h
    | ok config =>
        rw [hconfig] at h
        obtain rfl := Except.ok.inj h
        exact config.oneLine'
  · obtain rfl := Except.ok.inj h
    exact List.not_mem_nil

theorem shape_dynamic {encoding : Text}
    (h : Except.ok (if payloadType ≥ rtpPtPrivate then [SdpLine.rtpmap payloadType encoding] else []) =
      (Except.ok lines : Except Int (List SdpLine))) : AttributesShape payloadType lines := by
  obtain rfl := Except.ok.inj h
  split
  · exact shape_rtpmap encoding
  · exact .plain fun p q => List.not_mem_nil

theorem theoraPixFmt_oneLine {f : AVPixelFormat} {s : String} (h : theoraPixFmt f = some s) : '\r' ∉ s.toList := by
  cases f with
  | yuv420p | yuv422p | yuv444p =>
      obtain rfl := Option.some.inj h
      decide
  | uyvy422 | yuv422p10 | rgb24 | bgr24 | other => cases h

theorem rawPixFmt_oneLine {f : AVPixelFormat} {raw : String × Nat} (h : rawPixFmt f = some raw) :
    '\r' ∉ raw.1.toList := by
  cases f with
  | uyvy422 | yuv422p10 | yuv420p | rgb24 | bgr24 =>
      obtain rfl := Option.some.inj h
      decide
  | yuv422p | yuv444p | other => cases h

theorem attributes_shape (h : sdpWriteMediaAttributes fmt par payloadType = .ok lines) :
    AttributesShape payloadType lines := by
  have hnumber := @notMem_printInt '\r' (by decide) (by decide)
  have hcount := @notMem_printNat '\r' (by decide)
  unfold sdpWriteMediaAttributes at h
  generalize par.codecId = codec at h
  cases codec with
  | dirac | vp8 | vp9 | speex =>
      obtain rfl := Except.ok.inj h
      exact shape_rtpmap _
  | pcmS16be | pcmS24be | pcmMulaw | pcmAlaw | mjpeg | adpcmG722 | adpcmG726 | adpcmG726le =>
      exact shape_dynamic h
  | g723_1 | qcelp | mp2 | mp3 | mpeg1video | mpeg2video | mpeg2ts | other =>
      obtain rfl := Except.ok.inj h
      exact .plain fun p q => List.not_mem_nil
  | h264 =>
      obtain ⟨config, hconfig, h⟩ := bind_ok h
      obtain rfl := Except.ok.inj h
      have hline := configText_oneLine hconfig
      exact shape_pair (by decide) (by simp [hcount, hline])
  | mpeg4 =>
      obtain ⟨config, hconfig, h⟩ := bind_ok h
      obtain rfl := Except.ok.inj h
      have hline := configText_oneLine hconfig
      exact shape_pair (by decide) (by simp [hline])
  | hevc =>
      dsimp only at h
      split at h
      · obtain ⟨config, -, h⟩ := bind_ok h
        obtain rfl := Except.ok.inj h
        exact shape_pair (by decide) config.oneLine'
      · obtain rfl := Except.ok.inj h
        exact shape_rtpmap _
  | h261 =>
      dsimp only at h
      obtain rfl := Except.ok.inj h
      have hhead : 'f' ∉ linesText
          (if payloadType ≥ rtpPtPrivate then [SdpLine.rtpmap payloadType "H261/90000".toList] else []) := by
        split
        · exact rtpmap_clean (by decide)
        · exact List.not_mem_nil
      have hplain : ∀ p q, SdpLine.fmtp p q ∉
          (if payloadType ≥ rtpPtPrivate then [SdpLine.rtpmap payloadType "H261/90000".toList] else []) := by
        intro p q hmem
        split at hmem <;> simp at hmem
      generalize (if payloadType ≥ rtpPtPrivate then [SdpLine.rtpmap payloadType "H261/90000".toList] else []) =
        head at hhead hplain ⊢
      split
      · exact @AttributesShape.params payloadType head "QCIF=1".toList hhead (by decide)
      · split
        · exact @AttributesShape.params payloadType head "CIF=1".toList hhead (by decide)
        · exact .plain fun p q hmem => hplain p q (by simpa using hmem)
  | h263 =>
      obtain rfl := Except.ok.inj h
      refine .plain fun p q hmem => ?_
      split at hmem <;> simp at hmem
  | h263p =>
      obtain rfl := Except.ok.inj h
      exact .plain fun p q hmem => by simp at hmem
  | aac =>
      dsimp only at h
      split at h
      · obtain ⟨config, -, h⟩ := bind_ok h
        obtain rfl := Except.ok.inj h
        have hline := config.oneLine'
        exact shape_pair (audioEncoding_clean _ (by decide) par) (by simp [hnumber, hline])
      · split at h
        · obtain ⟨config, -, h⟩ := bind_ok h
          obtain rfl := Except.ok.inj h
          have hline := config.oneLine'
          exact shape_pair (audioEncoding_clean _ (by decide) par) (by simp [hline])
        · cases h
  | amrNb | amrWb =>
      obtain rfl := Except.ok.inj h
      exact shape_pair (audioEncoding_clean _ (by decide) par) (by decide)
  | vorbis =>
      dsimp only at h
      split at h
      · obtain ⟨config, -, h⟩ := bind_ok h
        obtain rfl := Except.ok.inj h
        have hline := config.oneLine'
        exact shape_pair (audioEncoding_clean _ (by decide) par) (by simp [hline])
      · cases h
  | theora =>
      dsimp only at h
      cases hfmt : theoraPixFmt par.format with
      | none =>
          rw [hfmt] at h
          cases h
      | some pixFmt =>
          rw [hfmt] at h
          have hpix : '\r' ∉ pixFmt.toList := theoraPixFmt_oneLine hfmt
          dsimp only at h
          split at h
          · obtain ⟨config, -, h⟩ := bind_ok h
            obtain rfl := Except.ok.inj h
            have hline := config.oneLine'
            exact shape_pair (by decide) (by simp [hnumber, hpix, hline])
          · cases h
  | bitpacked | rawvideo =>
      dsimp only at h
      cases hfmt : rawPixFmt par.format with
      | none =>
          rw [hfmt] at h
          cases h
      | some raw =>
          rw [hfmt] at h
          have hpix : '\r' ∉ raw.1.toList := rawPixFmt_oneLine hfmt
          obtain rfl := Except.ok.inj h
          refine shape_pair (by decide) ?_
          cases par.progressive <;> simp [hnumber, hcount, hpix]
  | ilbc =>
      obtain rfl := Except.ok.inj h
      have hrate := @notMem_printInt 'f' (by decide) (by decide) par.sampleRate
      exact shape_pair (by simp [hrate]) (by simp [hcount])
  | opus =>
      obtain rfl := Except.ok.inj h
      split
      · exact shape_pair (by decide) (by decide)
      · exact shape_rtpmap _

theorem mediaType_clean (t : AVMediaType) : 'f' ∉ mediaType t := by
  cases t <;> decide

theorem media_clean (t : AVMediaType) : 'f' ∉ (SdpLine.media (mediaType t) payloadType).text := by
  have hpt := @notMem_printNat 'f' (by decide) payloadType
  have htype := mediaType_clean t
  change 'f' ∉ ("m=".toList ++ mediaType t ++ " 0 RTP/AVP ".toList ++ printNat payloadType) ++ ['\r', '\n']
  simp [hpt, htype]

theorem bandwidth_clean (kbps : Int) : 'f' ∉ (SdpLine.bandwidth kbps).text := by
  have hnumber := @notMem_printInt 'f' (by decide) (by decide) kbps
  change 'f' ∉ ("b=AS:".toList ++ printInt kbps) ++ ['\r', '\n']
  simp [hnumber]

theorem mediaLines_shape {idx p : Nat} {params : Text} (h : mediaLines fmt par idx = .ok lines)
    (hfmtp : SdpLine.fmtp p params ∈ lines) : p = ffRtpGetPayloadType fmt par idx ∧ '\r' ∉ params ∧
      ∃ pre, lines = pre ++ [.fmtp p params] ∧ 'f' ∉ linesText pre := by
  obtain ⟨attributes, hattributes, h⟩ := bind_ok h
  obtain rfl := Except.ok.inj h
  generalize ffRtpGetPayloadType fmt par idx = payloadType at *
  have hbandwidth : ∀ line ∈ (if par.bitRate ≠ 0 then [SdpLine.bandwidth (par.bitRate.tdiv 1000)] else []),
      line = .bandwidth (par.bitRate.tdiv 1000) := by
    intro line hline
    split at hline
    · exact List.mem_singleton.mp hline
    · cases hline
  generalize (if par.bitRate ≠ 0 then [SdpLine.bandwidth (par.bitRate.tdiv 1000)] else []) = bandwidth at *
  have hin : SdpLine.fmtp p params ∈ attributes := by
    rw [List.mem_cons, List.mem_append] at hfmtp
    rcases hfmtp with hmedia | hline | hin
    · cases hmedia
    · cases hbandwidth _ hline
    · exact hin
  cases attributes_shape hattributes with
  | plain hplain => exact absurd hin (hplain _ _)
  | @params pre params' hpre hparams =>
      have hlast : SdpLine.fmtp p params = .fmtp payloadType params' := by
        rw [List.mem_append, List.mem_singleton] at hin
        rcases hin with hbefore | hlast
        · refine absurd (List.mem_flatMap.mpr ⟨_, hbefore, ?_⟩) hpre
          rw [SdpLine.text, SdpLine.content_fmtp]
          simp [fmtpTag]
        · exact hlast
      obtain ⟨rfl, rfl⟩ := SdpLine.fmtp.inj hlast
      refine ⟨rfl, hparams, .media (mediaType par.codecType) p :: (bandwidth ++ pre), by simp, ?_⟩
      rw [linesText, List.flatMap_cons, List.flatMap_append, List.mem_append, List.mem_append]
      rintro (hmem | hmem | hmem)
      · exact media_clean _ hmem
      · obtain ⟨line, hline, hmem⟩ := List.mem_flatMap.mp hmem
        rw [hbandwidth line hline] at hmem
        exact bandwidth_clean _ hmem
      · exact hpre hmem

theorem foldl_avStrlcat {size : Nat} {buff : Text} (h : (buff ++ linesText lines).length < size) :
    lines.foldl (fun buff line => avStrlcat size buff line.text) buff = buff ++ linesText lines := by
  induction lines generalizing buff with
  | nil => exact (List.append_nil buff).symm
  | cons line lines ih =>
      rw [linesText, List.flatMap_cons, ← List.append_assoc] at h ⊢
      have hline : avStrlcat size buff line.text = buff ++ line.text := by
        rw [List.length_append, List.length_append] at h
        rw [avStrlcat, if_pos (by omega), List.take_of_length_le (by rw [List.length_append]; omega)]
      rw [List.foldl_cons, hline]
      exact ih h

end Sections

/-- create_track passes the payload type on with the format parameters, and whip_init
cuts them at the right place where the payload type has two digits. -/
theorem profiles_right_iff {size idx : Nat} {buff sdp params : Text} {par : AVCodecParameters}
    {fmt : Option RtpOptions} {lines : List SdpLine} (hlines : mediaLines fmt par idx = .ok lines)
    (hfmtp : SdpLine.fmtp (ffRtpGetPayloadType fmt par idx) params ∈ lines) (hbuff : 'f' ∉ buff)
    (hroom : (buff ++ linesText lines).length < size) (hsize : size ≤ 2147483647)
    (hsdp : ffSdpWriteMedia size buff par idx fmt = .ok sdp) :
    ¬ProfilesRight sdp params ∧
      createTrackProfile sdp = some (printNat (ffRtpGetPayloadType fmt par idx) ++ ' ' :: params ++ profileSuffix) ∧
      (whipInitProfile sdp = some (params ++ profileSuffix) ↔
        10 ≤ ffRtpGetPayloadType fmt par idx ∧ ffRtpGetPayloadType fmt par idx ≤ 99) := by
  obtain ⟨-, hparams, pre, rfl, hpre⟩ := mediaLines_shape hlines hfmtp
  generalize ffRtpGetPayloadType fmt par idx = payloadType at *
  rw [ffSdpWriteMedia, hlines, Except.map, foldl_avStrlcat hroom] at hsdp
  have hsplit : buff ++ linesText (pre ++ [.fmtp payloadType params]) =
      (buff ++ linesText pre) ++ ((SdpLine.fmtp payloadType params).text ++ []) := by
    rw [linesText, List.flatMap_append, List.flatMap_singleton, List.append_nil, List.append_assoc]
    rfl
  obtain rfl := (hsplit.symm.trans (Except.ok.inj hsdp)).symm
  have hhead : 'f' ∉ buff ++ linesText pre := by
    rw [List.mem_append, not_or]
    exact ⟨hbuff, hpre⟩
  have hp2p := @createTrackProfile_fmtp _ _ [] payloadType hhead hparams
  refine ⟨fun hright => ?_, hp2p, whipInitProfile_fmtp hhead hparams ?_⟩
  · have hsame := congrArg List.length (Option.some.inj (hp2p.symm.trans hright.createTrack))
    simp only [List.length_append, List.length_cons] at hsame
    omega
  · rw [hsplit] at hroom
    simp only [SdpLine.text, List.length_append] at hroom
    omega

section Examples

def plainH264 : AVCodecParameters where
  codecType := .video
  codecId := .h264
  bitRate := 0
  width := 640
  height := 480
  sampleRate := 0
  nbChannels := 0
  format := .yuv420p
  progressive := true
  bitsPerCodedSample := 0
  blockAlign := 0
  extradataSize := 0
  config := .error averrorInvaliddata
  latm := .error averrorEnosys

def plainH264Sdp : Text :=
  "m=video 0 RTP/AVP 96\r\na=rtpmap:96 H264/90000\r\na=fmtp:96 packetization-mode=1\r\n".toList

theorem profiles_right_iff_h264 : whipInitProfile plainH264Sdp = some "packetization-mode=1;level-asymmetry-allowed=1".toList :=
  (@profiles_right_iff 16384 0 [] plainH264Sdp "packetization-mode=1".toList plainH264 none
    [.media "video".toList 96, .rtpmap 96 "H264/90000".toList, .fmtp 96 "packetization-mode=1".toList]
    (by decide +kernel) (by decide +kernel) (by decide) (by decide +kernel) (by decide)
    (by decide +kernel)).2.2.mpr (by decide +kernel)

/-- The profile of the first H.264 track begins with its payload type. -/
theorem payload_type_in_profile :
    ¬ ∀ (par : AVCodecParameters) (idx : Nat) (lines : List SdpLine) (sdp params : Text),
      mediaLines none par idx = .ok lines → SdpLine.fmtp (ffRtpGetPayloadType none par idx) params ∈ lines →
      ffSdpWriteMedia 16384 [] par idx none = .ok sdp → ProfilesRight sdp params := by
  intro h
  have hright := h plainH264 0
    [.media "video".toList 96, .rtpmap 96 "H264/90000".toList, .fmtp 96 "packetization-mode=1".toList]
    plainH264Sdp "packetization-mode=1".toList (by decide +kernel) (by decide +kernel) (by decide +kernel)
  exact absurd hright.createTrack (by decide +kernel)

end Examples

end P2PFFmpeg.Sdp
