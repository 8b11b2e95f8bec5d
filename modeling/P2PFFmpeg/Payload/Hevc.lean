import P2PFFmpeg.Payload.RoundTrip
import P2PFFmpeg.Whep.ReadPacket

namespace P2PFFmpeg.Payload

open Util
open Rtp (AVStream)

def hevcHandleFragment (avNewPacket usingDonlField : Bool) (st : AVStream) (pkt : AVPacket)
    (rtpPl : List UInt8) : Int × AVPacket :=
  let firstFragment : UInt8 := byteAt rtpPl 2 &&& 0x80
  let lastFragment : UInt8 := byteAt rtpPl 2 &&& 0x40
  let fuType : UInt8 := byteAt rtpPl 2 &&& 0x3F
  let skip : Nat := if usingDonlField then 5 else 3
  let len : Int := rtpPl.length - skip
  if len < 0 then (averrorInvaliddata, pkt)
  else if len = 0 then (averrorEagain, pkt)
  else if firstFragment ≠ 0 ∧ lastFragment ≠ 0 then (averrorInvaliddata, pkt)
  else
    let newNalHeader := [byteAt rtpPl 0 &&& (0x81 : UInt8) ||| fuType <<< 1, byteAt rtpPl 1]
    let (res, pkt) :=
      ffH264HandleFragPacket avNewPacket pkt (rtpPl.drop skip) (firstFragment ≠ 0) newNalHeader
    (res, { pkt with streamIndex := st.index })

def hevcHandlePacket (avNewPacket usingDonlField : Bool) (st : AVStream) (pkt : AVPacket)
    (buf : List UInt8) : Int × AVPacket :=
  if buf.length < 3 then (averrorInvaliddata, pkt)
  else
    let nalType : UInt8 := byteAt buf 0 >>> 1 &&& 0x3F
    let lid : UInt8 := (byteAt buf 0 <<< 5 &&& (0x20 : UInt8)) ||| (byteAt buf 1 >>> 3 &&& (0x1F : UInt8))
    let tid : UInt8 := byteAt buf 1 &&& 0x07
    if lid ≠ 0 then (averrorPatchwelcome, pkt)
    else if tid = 0 then (averrorInvaliddata, pkt)
    else if nalType > 50 then (averrorInvaliddata, pkt)
    else if nalType = 49 then hevcHandleFragment avNewPacket usingDonlField st pkt buf
    else if nalType = 50 then (averrorPatchwelcome, { pkt with streamIndex := st.index })
    else
      let (res, pkt) :=
        if nalType = 48 then
          ffH264HandleAggregatedPacket avNewPacket pkt
            (buf.drop (if usingDonlField then 4 else 2)) (if usingDonlField then 1 else 0)
        else newPacket avNewPacket pkt (startSequence ++ buf)
      if res < 0 then (res, pkt) else (res, { pkt with streamIndex := st.index })

/-- A unit of the base layer, of a type that the payload format leaves to the codec. -/
structure HevcNal extends Nal where
  header : 2 ≤ bytes.length
  layer : byteAt bytes 0 &&& 0x01 = 0 ∧ byteAt bytes 1 &&& 0xF8 = 0
  type : byteAt bytes 0 >>> 1 &&& 0x3F ≤ 47
  temporal : byteAt bytes 1 &&& 0x07 ≠ 0

theorem lid_eq_zero {a b : UInt8} (ha : a &&& 0x01 = 0) (hb : b &&& 0xF8 = 0) :
    (a <<< 5 &&& (0x20 : UInt8)) ||| (b >>> 3 &&& (0x1F : UInt8)) = 0 := by
  have hleft := @forall_byte (fun a => a &&& 0x01 = 0 → a <<< 5 &&& 0x20 = 0) (by decide +kernel) a ha
  have hright :=
    @forall_byte (fun b => b &&& 0xF8 = 0 → b >>> 3 &&& 0x1F = 0) (by decide +kernel) b hb
  rw [hleft, hright]
  rfl

theorem hevc_whole (st : AVStream) (u : HevcNal) : output (hevcHandlePacket true false st) u.bytes =
      if u.bytes.length < 3 then none else some (startSequence ++ u.bytes) := by
  by_cases hshort : u.bytes.length < 3
  · simp [output, hevcHandlePacket, hshort, averrorInvaliddata]
  · have htype := u.type
    have hle : ¬byteAt u.bytes 0 >>> 1 &&& 0x3F > 50 := by
      rw [gt_iff_lt, UInt8.not_lt]
      exact UInt8.le_trans htype (by decide)
    have hne : ∀ t : UInt8, 47 < t → byteAt u.bytes 0 >>> 1 &&& 0x3F ≠ t := by
      intro t ht heq
      rw [heq] at htype
      exact absurd htype (UInt8.not_le.mpr ht)
    simp only [output, hevcHandlePacket, if_neg hshort, lid_eq_zero u.layer.1 u.layer.2,
      u.temporal, hle, hne 48 (by decide), hne 49 (by decide), hne 50 (by decide), newPacket]
    simp

theorem hevc_aggregate (st : AVStream) {units : List (List UInt8)} (hne : units ≠ [])
    (h : ∀ u ∈ units, Aggregable u) :
    output (hevcHandlePacket true false st) (aggregateHeader .hevc ++ aggregated units) =
      some (receivedUnits units) := by
  have hlen : ¬(aggregateHeader .hevc ++ aggregated units).length < 3 := by
    obtain ⟨u, hu⟩ := List.exists_mem_of_ne_nil units hne
    have hmem := mem_aggregated_length hu
    rw [List.length_append]
    simp only [aggregateHeader, List.length_cons, List.length_nil]
    omega
  have hfirst : byteAt (aggregateHeader .hevc ++ aggregated units) 0 = 96 := rfl
  have hsecond : byteAt (aggregateHeader .hevc ++ aggregated units) 1 = 1 := rfl
  have hlid := @lid_eq_zero 96 1 (by decide) (by decide)
  have htid : ((1 : UInt8) &&& 0x07) ≠ 0 := by decide
  have htype : (96 : UInt8) >>> 1 &&& 0x3F = 48 := by decide
  have hdrop : (aggregateHeader .hevc ++ aggregated units).drop 2 = aggregated units := rfl
  have hagg : hevcHandlePacket true false st .blank (aggregateHeader .hevc ++ aggregated units) =
      (0, { AVPacket.blank with data := receivedUnits units, streamIndex := st.index }) := by
    simp only [hevcHandlePacket, if_neg hlen, hfirst, hsecond, hlid, htid, htype]
    simp [hdrop, handleAggregated_eq h]
  rw [output, hagg]
  rfl

theorem hevc_fragment (st : AVStream) {header : UInt8} {data : List UInt8}
    (honce : ¬(header &&& 0x80 ≠ 0 ∧ header &&& 0x40 ≠ 0)) (hdata : data ≠ []) :
    output (hevcHandlePacket true false st) (98 :: 1 :: header :: data) =
      some ((if header &&& 0x80 ≠ 0 then startSequence ++ [(header &&& 0x3F) <<< 1, 1] else []) ++
        data) := by
  have hpos := List.length_pos_iff.mpr hdata
  have hlen : ¬(98 :: 1 :: header :: data).length < 3 := by simp
  have hlid := @lid_eq_zero 98 1 (by decide) (by decide)
  have htid : ((1 : UInt8) &&& 0x07) ≠ 0 := by decide
  have htype : (98 : UInt8) >>> 1 &&& 0x3F = 49 := by decide
  have hfirst : byteAt (98 :: 1 :: header :: data) 0 = 98 := rfl
  have hsecond : byteAt (98 :: 1 :: header :: data) 1 = 1 := rfl
  have hthird : byteAt (98 :: 1 :: header :: data) 2 = header := rfl
  have hheader : ((98 : UInt8) &&& (0x81 : UInt8)) ||| (header &&& (0x3F : UInt8)) <<< 1 =
      (header &&& 0x3F) <<< 1 := by
    rw [show ((98 : UInt8) &&& (0x81 : UInt8)) = 0 by decide, UInt8.zero_or]
  have hfrag : hevcHandlePacket true false st .blank (98 :: 1 :: header :: data) =
      (0, { AVPacket.blank with
        data := (if header &&& 0x80 ≠ 0 then startSequence ++ [(header &&& 0x3F) <<< 1, 1] else []) ++
          data
        streamIndex := st.index }) := by
    simp only [hevcHandlePacket, if_neg hlen, hfirst, hsecond, hlid, htid, htype]
    have hshort : ¬(data.length : Int) + 1 + 1 + 1 < 3 := by omega
    have hempty : ¬(data.length : Int) + 1 + 1 + 1 - 3 = 0 := by omega
    simp [hevcHandleFragment, hshort, hempty, hheader, hthird, hfirst, hsecond, honce, ffH264HandleFragPacket, newPacket]
  rw [output, hfrag]
  rfl

def IsHevc (u : List UInt8) : Prop := ∃ nal : HevcNal, nal.bytes = u

/-- What the receiver makes of the payloads of a group. A unit that has gone in fragments
comes back with the header of the fragments. -/
def hevcImage : Group → Option (List UInt8)
  | .single u => if u.length < 3 then none else some (startSequence ++ u)
  | .aggregate us => some (receivedUnits us)
  | .fragments u =>
      some (startSequence ++ [(byteAt u 0 >>> 1 &&& (0x3F : UInt8)) <<< 1, 1] ++ u.drop 2)

theorem fragmentByte_bits (b : UInt8) (first last : Bool) :
    let header := fragmentByte ((b >>> 1) &&& 0x3F ||| 0x80) first last
    (header &&& 0x80 ≠ 0 ↔ first = true) ∧ (header &&& 0x40 ≠ 0 ↔ last = true) ∧
      header &&& (0x3F : UInt8) = b >>> 1 &&& (0x3F : UInt8) :=
  @forall_byte (fun b => ∀ first last : Bool,
    let header := fragmentByte ((b >>> 1) &&& 0x3F ||| 0x80) first last
    (header &&& 0x80 ≠ 0 ↔ first = true) ∧ (header &&& 0x40 ≠ 0 ↔ last = true) ∧
      header &&& (0x3F : UInt8) = b >>> 1 &&& (0x3F : UInt8)) (by decide +kernel) b first last

theorem hevc_receives (st : AVStream) {g : Group} (hg : ∀ u ∈ g.units, IsHevc u)
    {ps : List (List UInt8)} (h : Forms .hevc g ps) :
    depacketize (hevcHandlePacket true false st) ps = hevcImage g := by
  cases h with
  | single u =>
      obtain ⟨nal, rfl⟩ := hg u (by simp [Group.units])
      rw [depacketize, hevc_whole, hevcImage]
      split <;> simp [depacketize]
  | aggregate hne hlen =>
      refine depacketize_singleton (hevc_aggregate st hne fun u hu => ?_)
      obtain ⟨nal, rfl⟩ := hg u hu
      exact ⟨nal.length_pos, hlen _ hu⟩
  | @fragments u part data out hpart hdrop hfragmented =>
      have hdecode : ∀ data, data ≠ [] → ∀ first last : Bool, ¬(first = true ∧ last = true) →
          output (hevcHandlePacket true false st) ((fragmentHeader .hevc u).1 ++
            fragmentByte (fragmentHeader .hevc u).2 first last :: data) =
              some ((if first then
                startSequence ++ [(byteAt u 0 >>> 1 &&& (0x3F : UInt8)) <<< 1, 1] else []) ++ data) := by
        intro data hdata first last honce
        obtain ⟨hfirst, hlast, htype⟩ := fragmentByte_bits (byteAt u 0) first last
        have hout := @hevc_fragment st (fragmentByte ((byteAt u 0 >>> 1) &&& 0x3F ||| 0x80) first last)
          data (by rw [hfirst, hlast]; exact honce) hdata
        simp only [hfirst, htype] at hout
        exact hout
      have hlater := depacketize_fragmented hfragmented fun data hdata last =>
        hdecode data hdata false last (by simp)
      rw [depacketize, hdecode part hpart true false (by simp), Option.bind_some, hlater, hevcImage]
      have htail : u.drop 2 = part ++ data := hdrop
      simp [htail]

theorem hevcImage_length {g : Group} (hg : ∀ u ∈ g.units, IsHevc u) {xs : List UInt8}
    (h : hevcImage g = some xs) : xs.length = (receivedUnits g.units).length := by
  cases g with
  | single u =>
      rw [hevcImage] at h
      split at h
      · cases h
      · cases h
        simp [Group.units]
  | aggregate us =>
      cases h
      rfl
  | fragments u =>
      cases h
      obtain ⟨nal, rfl⟩ := hg u (by simp [Group.units])
      have hlen := nal.header
      simp only [Group.units, receivedUnits_cons, receivedUnits_nil, List.append_nil,
        List.length_append, List.length_drop, List.length_cons, List.length_nil]
      omega

/-- The header that a unit has after it has gone in fragments. -/
def HeaderKept (u : List UInt8) : Prop := byteAt u 0 &&& 0x80 = 0 ∧ byteAt u 1 &&& 0x07 = 1

theorem headerKept_iff (u : HevcNal) :
    HeaderKept u.bytes ↔ [(byteAt u.bytes 0 >>> 1 &&& (0x3F : UInt8)) <<< 1, 1] = u.bytes.take 2 := by
  have hfirst : ∀ b : UInt8, b &&& 0x01 = 0 → (b &&& 0x80 = 0 ↔ (b >>> 1 &&& 0x3F) <<< 1 = b) :=
    forall_byte (by decide +kernel)
  have hsecond : ∀ b : UInt8, b &&& 0xF8 = 0 → (b &&& 0x07 = 1 ↔ 1 = b) :=
    forall_byte (by decide +kernel)
  have htake : u.bytes.take 2 = [byteAt u.bytes 0, byteAt u.bytes 1] := by
    have hlen := u.header
    match u.bytes, hlen with
    | a :: b :: rest, _ => rfl
  rw [HeaderKept, hfirst _ u.layer.1, hsecond _ u.layer.2, htake]
  simp

theorem hevcImage_fragments (u : HevcNal) :
    hevcImage (.fragments u.bytes) = some (receivedUnits [u.bytes]) ↔ HeaderKept u.bytes := by
  rw [headerKept_iff, hevcImage, Option.some_inj, receivedUnits_cons, receivedUnits_nil,
    List.append_nil, List.append_assoc, List.append_right_inj]
  constructor
  · intro h
    have htake := congrArg (List.take 2) h
    simpa using htake
  · intro h
    rw [h, List.take_append_drop]

theorem hevcImage_single (u : HevcNal) :
    hevcImage (.single u.bytes) = some (receivedUnits [u.bytes]) ↔ u.bytes.length ≠ 2 := by
  have hlen := u.header
  rw [hevcImage]
  split
  · simp only [reduceCtorEq, false_iff, ne_eq, not_not]
    omega
  · simp only [receivedUnits_cons, receivedUnits_nil, List.append_nil, true_iff]
    omega

/-- The planned groups give the units back exactly if none of two bytes is alone and
those in fragments have the header of the fragments. -/
theorem decoded_hevcImage (max : Nat) (units : List HevcNal) :
    decoded hevcImage (plan max 2 [] (units.map fun u => u.bytes)) =
        some (receivedUnits (units.map fun u => u.bytes)) ↔
      (∀ u ∈ units, max < u.bytes.length → HeaderKept u.bytes) ∧
        ¬SentAlone max 2 2 (units.map fun u => u.bytes) := by
  have hunits := @plan_units max 2 [] (units.map fun u => u.bytes)
  rw [List.nil_append] at hunits
  have hmem : ∀ g ∈ plan max 2 [] (units.map fun u => u.bytes), ∀ u ∈ g.units,
      ∃ nal ∈ units, nal.bytes = u := by
    intro g hg u hu
    have hin : u ∈ units.map fun u => u.bytes := by
      rw [← hunits]
      exact List.mem_flatMap.mpr ⟨g, hg, hu⟩
    exact List.mem_map.mp hin
  have hhevc : ∀ g ∈ plan max 2 [] (units.map fun u => u.bytes), ∀ u ∈ g.units, IsHevc u :=
    fun g hg u hu => (hmem g hg u hu).imp fun _ h => h.2
  nth_rewrite 2 [← hunits]
  rw [decoded_eq_received fun g hg _ => hevcImage_length (hhevc g hg), sentAlone_iff (by decide)]
  constructor
  · intro h
    refine ⟨fun u hu hlong => ?_, ?_⟩
    · have hfragments := h _ ((fragments_mem_plan _).mpr ⟨List.mem_map.mpr ⟨u, hu, rfl⟩, hlong⟩)
      exact (hevcImage_fragments u).mp hfragments
    · rintro ⟨v, hv, hlen⟩
      obtain ⟨nal, _, rfl⟩ := hmem _ hv v (by simp [Group.units])
      exact (hevcImage_single nal).mp (h _ hv) hlen
  · rintro ⟨hkept, halone⟩ g hg
    cases g with
    | single v =>
        obtain ⟨nal, _, rfl⟩ := hmem _ hg v (by simp [Group.units])
        exact (hevcImage_single nal).mpr fun hlen => halone ⟨_, hg, hlen⟩
    | aggregate us => rfl
    | fragments v =>
        obtain ⟨nal, hnal, rfl⟩ := hmem _ hg v (by simp [Group.units])
        have hlong := ((fragments_mem_plan _).mp hg).2
        exact (hevcImage_fragments nal).mpr (hkept nal hnal hlong)

theorem hevc_depacketize {s : RTPMuxContext} (hs : packetizer.Reachable s)
    (hcodec : s.codecId = .hevc) (hmax : 4 ≤ s.maxPayloadSize ∧ s.maxPayloadSize ≤ 65535)
    (st : AVStream) (w : Write) {units : List HevcNal} (hne : units ≠ [])
    (hw : Serialized s.nalLengthSize (units.map HevcNal.toNal) w.data) :
    ∃ t new, packetizer.next s w = some t ∧ t.sent = s.sent ++ new ∧
      depacketize (hevcHandlePacket true false st) (new.map RtpPacket.payload) =
        decoded hevcImage (plan s.maxPayloadSize 2 [] (units.map fun u => u.bytes)) := by
  have ready : Ready .hevc s := ⟨hcodec, by simp [hcodec], hmax.1, hmax.2⟩
  obtain ⟨t, out, ht, hpass, _⟩ := next_passes hs ready w (by simpa using hne) hw
  rw [List.map_map] at hpass
  refine ⟨t, _, ht, hpass.emits.sent, ?_⟩
  rw [map_payload_stamp]
  refine depacketize_formed hpass.formed fun g hg ps hforms => ?_
  refine hevc_receives st (fun u hu => ?_) hforms
  have hmem : u ∈ [] ++ units.map fun u => u.bytes := by
    rw [← @plan_units s.maxPayloadSize 2]
    exact List.mem_flatMap.mpr ⟨g, hg, hu⟩
  obtain ⟨nal, _, rfl⟩ := List.mem_map.mp hmem
  exact ⟨nal, rfl⟩

/-- A receiver gets back the units of every access unit exactly if those that go in
fragments have the header of the fragments and none of two bytes is alone. -/
theorem hevc_round_trip {s : RTPMuxContext} (hs : packetizer.Reachable s)
    (hcodec : s.codecId = .hevc) (hmax : 4 ≤ s.maxPayloadSize ∧ s.maxPayloadSize ≤ 65535)
    (st : AVStream) (w : Write) {units : List HevcNal} (hne : units ≠ [])
    (hw : Serialized s.nalLengthSize (units.map HevcNal.toNal) w.data) :
    ∃ t new, packetizer.next s w = some t ∧ t.sent = s.sent ++ new ∧
      (depacketize (hevcHandlePacket true false st) (new.map RtpPacket.payload) =
          some (receivedUnits (units.map fun u => u.bytes)) ↔
        (∀ u ∈ units, s.maxPayloadSize < u.bytes.length → HeaderKept u.bytes) ∧
          ¬SentAlone s.maxPayloadSize 2 2 (units.map fun u => u.bytes)) := by
  obtain ⟨t, new, ht, hsent, hout⟩ := hevc_depacketize hs hcodec hmax st w hne hw
  refine ⟨t, new, ht, hsent, ?_⟩
  rw [hout]
  exact decoded_hevcImage s.maxPayloadSize units

def hevcMux : RTPMuxContext := { blankMux with codecId := .hevc, maxPayloadSize := 4 }

def baseSlice : HevcNal where
  bytes := [2, 1, 1, 3, 5, 7]
  nonempty := by decide
  noCode i hi := by
    have hall : ∀ i < 4, startCodeAt [2, 1, 1, 3, 5, 7] i = false := by decide
    have hlt : i + 2 < 6 := hi
    exact hall i (by omega)
  last := by decide
  header := by decide
  layer := by decide
  type := by decide
  temporal := by decide

/-- A slice of the lowest temporal layer in fragments. -/
theorem hevc_round_trip_base :
    ∃ t new, packetizer.next hevcMux ⟨3000, 0, [0, 0, 1, 2, 1, 1, 3, 5, 7]⟩ = some t ∧
      t.sent = [] ++ new ∧
      depacketize (hevcHandlePacket true false ⟨0, ⟨1, 90000⟩⟩) (new.map RtpPacket.payload) =
        some [0, 0, 0, 1, 2, 1, 1, 3, 5, 7] := by
  obtain ⟨t, new, ht, hsent, hout⟩ := @hevc_round_trip hevcMux (.init ⟨rfl, rfl, rfl⟩) rfl (by decide)
    ⟨0, ⟨1, 90000⟩⟩ ⟨3000, 0, [0, 0, 1, 2, 1, 1, 3, 5, 7]⟩ [baseSlice]
    (by decide) (.annexB [(false, baseSlice.toNal)])
  refine ⟨t, new, ht, hsent, hout.mpr ⟨fun u hu _ => ?_, ?_⟩⟩
  · rw [List.mem_singleton.mp hu]
    exact ⟨by decide, by decide⟩
  · rintro ⟨before, v, after, hunits, hlen, _⟩
    have hv : v ∈ [baseSlice].map fun u => u.bytes := by
      rw [hunits]
      exact List.mem_append_right before List.mem_cons_self
    rw [List.mem_singleton.mp hv] at hlen
    cases hlen

def upperSlice : HevcNal where
  bytes := [2, 2, 1, 3, 5, 7]
  nonempty := by decide
  noCode i hi := by
    have hall : ∀ i < 4, startCodeAt [2, 2, 1, 3, 5, 7] i = false := by decide
    have hlt : i + 2 < 6 := hi
    exact hall i (by omega)
  last := by decide
  header := by decide
  layer := by decide
  type := by decide
  temporal := by decide

/-- The slice comes back as one of the lowest layer. -/
theorem temporal_layer_lost :
    ∃ t new, packetizer.next hevcMux ⟨3000, 0, [0, 0, 1, 2, 2, 1, 3, 5, 7]⟩ = some t ∧
      t.sent = [] ++ new ∧
      depacketize (hevcHandlePacket true false ⟨0, ⟨1, 90000⟩⟩) (new.map RtpPacket.payload) ≠
        some (receivedUnits [upperSlice.bytes]) := by
  obtain ⟨t, new, ht, hsent, hout⟩ := @hevc_depacketize hevcMux (.init ⟨rfl, rfl, rfl⟩) rfl (by decide)
    ⟨0, ⟨1, 90000⟩⟩ ⟨3000, 0, [0, 0, 1, 2, 2, 1, 3, 5, 7]⟩ [upperSlice]
    (by decide) (.annexB [(false, upperSlice.toNal)])
  refine ⟨t, new, ht, hsent, ?_⟩
  rw [hout]
  decide

end P2PFFmpeg.Payload
