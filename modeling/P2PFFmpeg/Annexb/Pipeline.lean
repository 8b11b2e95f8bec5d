import P2PFFmpeg.Annexb.Avcc
import P2PFFmpeg.Annexb.ParameterSets
import P2PFFmpeg.Payload.RoundTrip

namespace P2PFFmpeg.Annexb

open Util Payload

theorem AnnexB.serialized {us : List (List UInt8)} {out : List UInt8} (h : AnnexB us out) {units : List Nal}
    (hus : us = units.map (·.bytes)) :
    ∃ coded : List (Bool × Nal), coded.map Prod.snd = units ∧ annexB coded = out := by
  induction h generalizing units with
  | nil => exact ⟨[], (List.map_eq_nil_iff.mp hus.symm).symm, rfl⟩
  | unit hcode _ ih =>
      obtain ⟨nal, rest, rfl, rfl, hrest⟩ := List.map_eq_cons_iff.mp hus.symm
      obtain ⟨coded, rfl, rfl⟩ := ih hrest.symm
      rcases hcode with rfl | rfl
      · exact ⟨(true, nal) :: coded, rfl, rfl⟩
      · exact ⟨(false, nal) :: coded, rfl, rfl⟩

/-- A unit that start codes delimit. -/
def Delimited (u : List UInt8) : Prop := ∃ nal : Nal, nal.bytes = u

/-- A unit that start codes delimit, of a type that RTP packets carry as it is. -/
def Sendable (u : List UInt8) : Prop := ∃ nal : H264Nal, nal.bytes = u

theorem exists_map_bytes {α : Type} {bytes : α → List UInt8} {us : List (List UInt8)}
    (h : ∀ u ∈ us, ∃ nal, bytes nal = u) : ∃ nals : List α, us = nals.map bytes := by
  induction us with
  | nil => exact ⟨[], rfl⟩
  | cons u us ih =>
      obtain ⟨nal, hnal⟩ := h u List.mem_cons_self
      obtain ⟨nals, hnals⟩ := ih fun v hv => h v (List.mem_cons_of_mem u hv)
      exact ⟨nal :: nals, by rw [List.map_cons, hnal, ← hnals]⟩

def outUnits (spsUnits ppsUnits : List (List UInt8)) (pieces : List (Insertion × List UInt8)) : List (List UInt8) :=
  pieces.flatMap fun piece => piece.1.units spsUnits ppsUnits ++ [piece.2]

/-- The units of a packet, with the parameter sets that the filter puts before them, come back from the
lengths that they are given again where start codes delimit them, and a receiver of the RTP packets gets
each behind a start code where its type is one that is sent as it is. -/
theorem filtered_packet_received {extradata extradataPadding data padding garbage out : List UInt8}
    {s₀ s t : H264BSFContext} {items : List Item}
    (hinit : h264Mp4toannexbInit extradata extradataPadding = some (.ok s₀)) (hparsed : s₀.extradataParsed = true)
    (hitems : Filtered s₀ items s) (hfilter : h264Mp4toannexbFilter s data padding garbage = some (.ok out, t)) :
    (∃ spsUnits ppsUnits pieces, SetsOf s₀ spsUnits ppsUnits ∧ Traced s padding s.flags data pieces out t.flags) ∧
    ∀ spsUnits ppsUnits pieces, SetsOf s₀ spsUnits ppsUnits → Traced s padding s.flags data pieces out t.flags →
      outUnits spsUnits ppsUnits pieces ≠ [] →
      ((∀ u ∈ outUnits spsUnits ppsUnits pieces, Delimited u) → ∀ addr, (ffAvcParseNalUnits addr out).map Prod.fst =
        some (withLengths 4 (outUnits spsUnits ppsUnits pieces))) ∧
      ((∀ u ∈ outUnits spsUnits ppsUnits pieces, Sendable u) →
        ∀ m : RTPMuxContext, packetizer.Reachable m → m.codecId = .h264 → m.mode0 = false →
          m.nalLengthSize = 0 → 3 ≤ m.maxPayloadSize → m.maxPayloadSize ≤ 65535 → ∀ st curTimestamp addr,
          ∃ m' new, packetizer.next m ⟨curTimestamp, addr, out⟩ = some m' ∧ m'.sent = m.sent ++ new ∧
            depacketize (h264HandlePacket true st) (new.map RtpPacket.payload) =
              some (startCoded (outUnits spsUnits ppsUnits pieces))) := by
  obtain ⟨hn, hn4, spsUnits, ppsUnits, hsps, hpps, hwhole⟩ := init_sets hinit hparsed
  have hsame := packets_sameSets hitems.reachable
  obtain ⟨pieces, htraced⟩ := filter_traced (by rw [hsame]; exact hn) (by rw [hsame]; exact hn4)
    (by rw [hsame]; exact hparsed) hfilter
  refine ⟨⟨spsUnits, ppsUnits, pieces, ⟨hsps, hpps, hwhole⟩, htraced⟩, ?_⟩
  intro spsUnits ppsUnits pieces hsets₀ htraced hne
  have hsets : SetsOf s spsUnits ppsUnits := by
    rw [hsame]
    exact ⟨hsets₀.sps, hsets₀.pps, hsets₀.whole⟩
  have hspelled := htraced.annexB hsets
  change AnnexB (outUnits spsUnits ppsUnits pieces) out at hspelled
  generalize outUnits spsUnits ppsUnits pieces = us at hspelled hne ⊢
  constructor
  · intro hall addr
    obtain ⟨nals, rfl⟩ := exists_map_bytes hall
    obtain ⟨coded, rfl, rfl⟩ := hspelled.serialized rfl
    have hcoded : coded ≠ [] := fun hnil => hne (by rw [hnil]; rfl)
    rw [ffAvcParseNalUnits_units addr _ hcoded, Option.map_some]
    rfl
  · intro hall m hm hcodec hmode hlengths hmin hmax st curTimestamp addr
    obtain ⟨nals, rfl⟩ := exists_map_bytes hall
    have hnals : (nals.map fun nal => nal.bytes) = (nals.map H264Nal.toNal).map (·.bytes) := by
      rw [List.map_map]
      rfl
    obtain ⟨coded, hcoded, rfl⟩ := hspelled.serialized hnals
    have hwritten := Serialized.annexB coded
    rw [← hlengths, hcoded] at hwritten
    exact write_received hm ⟨hcodec, by simp [hmode], hmin, hmax⟩ st ⟨curTimestamp, addr, _⟩
      (fun hnil => hne (by rw [hnil]; rfl)) hwritten

section Example

theorem sendable_short {u : List UInt8} (hne : u ≠ []) (hlast : u.getLast hne ≠ 0)
    (hcode : ∀ i < u.length, startCodeAt u i = false) (hsingle : 1 ≤ byteAt u 0 &&& 0x1F ∧ byteAt u 0 &&& 0x1F ≤ 23)
    (hforbidden : byteAt u 0 &&& 0x80 = 0) : Sendable u :=
  ⟨⟨⟨⟨u, hne, fun i hi => hcode i (by omega)⟩, hlast⟩, hsingle, hforbidden⟩, rfl⟩

theorem Sendable.delimited {u : List UInt8} (h : Sendable u) : Delimited u := by
  obtain ⟨nal, rfl⟩ := h
  exact ⟨nal.toNal, rfl⟩

/-- The first packet holds an IDR picture only. The filter puts both parameter sets before it, and all three
come back with their lengths and out of the RTP packets. -/
theorem filtered_packet_received_idr :
    (ffAvcParseNalUnits 3 [0, 0, 0, 1, 103, 66, 0, 30, 0, 0, 0, 1, 104, 206, 0, 0, 1, 101, 136]).map Prod.fst =
        some [0, 0, 0, 4, 103, 66, 0, 30, 0, 0, 0, 2, 104, 206, 0, 0, 0, 2, 101, 136] ∧
      ∃ m' new, packetizer.next blankMux ⟨3000, 3,
          [0, 0, 0, 1, 103, 66, 0, 30, 0, 0, 0, 1, 104, 206, 0, 0, 1, 101, 136]⟩ = some m' ∧
        m'.sent = [] ++ new ∧
        depacketize (h264HandlePacket true ⟨0, ⟨1, 90000⟩⟩) (new.map RtpPacket.payload) =
          some [0, 0, 0, 1, 103, 66, 0, 30, 0, 0, 0, 1, 104, 206, 0, 0, 0, 1, 101, 136] := by
  have hsets : SetsOf (filterWithSets true false) [[103, 66, 0, 30]] [[104, 206]] := ⟨rfl, rfl, rfl⟩
  have htraced : Traced (filterWithSets true false) (List.replicate 64 0) ⟨true, false, false⟩
      [0, 0, 0, 2, 101, 136] [(.extradata, [101, 136])]
      [0, 0, 0, 1, 103, 66, 0, 30, 0, 0, 0, 1, 104, 206, 0, 0, 1, 101, 136] ⟨false, false, false⟩ :=
    @Traced.unit _ _ _ [0, 0, 0, 2] [101, 136] [] .extradata [0, 0, 1] [] [] ⟨false, false, false⟩ _ rfl rfl
      (by decide) (by decide) (.inr rfl) .done
  have hunits : ∀ u ∈ outUnits [[103, 66, 0, 30]] [[104, 206]] [(.extradata, [101, 136])], Sendable u := by
    intro u hu
    change u ∈ [[103, 66, 0, 30], [104, 206], [101, 136]] at hu
    simp only [List.mem_cons, List.not_mem_nil, or_false] at hu
    rcases hu with rfl | rfl | rfl
    all_goals exact sendable_short (by decide) (by decide) (by decide) (by decide) (by decide)
  obtain ⟨-, hreceived⟩ := filtered_packet_received filterWithSets_init rfl .start filterWithSets_filter
  obtain ⟨hlengths, hsent⟩ := hreceived [[103, 66, 0, 30]] [[104, 206]] _ hsets htraced (by decide)
  refine ⟨hlengths (fun u hu => (hunits u hu).delimited) 3, ?_⟩
  exact hsent hunits blankMux (.init ⟨rfl, rfl, rfl⟩) rfl rfl rfl (by decide) (by decide) ⟨0, ⟨1, 90000⟩⟩ 3000 3

end Example

end P2PFFmpeg.Annexb
