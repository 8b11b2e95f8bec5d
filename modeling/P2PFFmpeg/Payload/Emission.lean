import Mathlib.Algebra.Order.BigOperators.Group.List
import P2PFFmpeg.Payload.Packetizer
import P2PFFmpeg.Payload.Grouping

namespace P2PFFmpeg.Payload

open Util

abbrev Payloads := List (List UInt8 × Bool)

def stamp (s : RTPMuxContext) (seq : UInt16) : Payloads → List RtpPacket
  | [] => []
  | (payload, m) :: out =>
      { marker := m
        payloadType := s.payloadType &&& 0x7F
        seq := seq
        timestamp := s.timestamp
        ssrc := s.ssrc
        payload := payload } :: stamp s (seq + 1) out

/-- `t` comes from `s` by sending `out`; `buf` and the counts are left open. -/
structure Emits (s t : RTPMuxContext) (out : Payloads) : Prop where
  sent : t.sent = s.sent ++ stamp s s.seq out
  seq : t.seq = s.seq + UInt16.ofNat out.length
  fits : ∀ p ∈ out, p.1.length ≤ s.maxPayloadSize
  codecId : t.codecId = s.codecId
  payloadType : t.payloadType = s.payloadType
  ssrc : t.ssrc = s.ssrc
  timestamp : t.timestamp = s.timestamp
  maxPayloadSize : t.maxPayloadSize = s.maxPayloadSize
  nalLengthSize : t.nalLengthSize = s.nalLengthSize
  mode0 : t.mode0 = s.mode0

theorem stamp_append (s : RTPMuxContext) (seq : UInt16) (out more : Payloads) :
    stamp s seq (out ++ more) = stamp s seq out ++ stamp s (seq + UInt16.ofNat out.length) more := by
  induction out generalizing seq with
  | nil => simp [stamp]
  | cons p out ih =>
      have hseq : seq + UInt16.ofNat (p :: out).length = seq + 1 + UInt16.ofNat out.length := by
        rw [List.length_cons, UInt16.ofNat_add, UInt16.add_comm (UInt16.ofNat out.length),
          ← UInt16.add_assoc]
        rfl
      rw [List.cons_append, stamp, stamp, ih, hseq, List.cons_append]

variable {s t : RTPMuxContext} {out : Payloads}

theorem stamp_congr (hpt : t.payloadType = s.payloadType) (hssrc : t.ssrc = s.ssrc)
    (hts : t.timestamp = s.timestamp) (seq : UInt16) (out : Payloads) :
    stamp t seq out = stamp s seq out := by
  induction out generalizing seq with
  | nil => rfl
  | cons p out ih => rw [stamp, stamp, ih, hpt, hssrc, hts]

@[simp] theorem length_stamp (s : RTPMuxContext) (seq : UInt16) (out : Payloads) :
    (stamp s seq out).length = out.length := by
  induction out generalizing seq with
  | nil => rfl
  | cons p out ih => rw [stamp, List.length_cons, ih, List.length_cons]

theorem map_payload_stamp (s : RTPMuxContext) (seq : UInt16) (out : Payloads) :
    (stamp s seq out).map RtpPacket.payload = out.map Prod.fst := by
  induction out generalizing seq with
  | nil => rfl
  | cons p out ih => rw [stamp, List.map_cons, ih, List.map_cons]

theorem map_marker_stamp (s : RTPMuxContext) (seq : UInt16) (out : Payloads) :
    (stamp s seq out).map RtpPacket.marker = out.map Prod.snd := by
  induction out generalizing seq with
  | nil => rfl
  | cons p out ih => rw [stamp, List.map_cons, ih, List.map_cons]

theorem stamp_seq (s : RTPMuxContext) (seq : UInt16) (out : Payloads) (i : Nat)
    (h : i < (stamp s seq out).length) : (stamp s seq out)[i].seq = seq + UInt16.ofNat i := by
  induction out generalizing seq i with
  | nil => simp [stamp] at h
  | cons p out ih =>
      cases i with
      | zero => simp [stamp]
      | succ i =>
          have hi : i < (stamp s (seq + 1) out).length := by simpa using h
          have hnext := ih (seq + 1) i hi
          simp only [stamp, List.getElem_cons_succ]
          rw [hnext, UInt16.ofNat_add, UInt16.add_comm (UInt16.ofNat i), ← UInt16.add_assoc]
          rfl

theorem Emits.nil (hsent : t.sent = s.sent) (hseq : t.seq = s.seq) (hcodec : t.codecId = s.codecId)
    (hpt : t.payloadType = s.payloadType) (hssrc : t.ssrc = s.ssrc) (hts : t.timestamp = s.timestamp)
    (hmax : t.maxPayloadSize = s.maxPayloadSize) (hlen : t.nalLengthSize = s.nalLengthSize)
    (hmode : t.mode0 = s.mode0) : Emits s t [] where
  sent := by rw [hsent, stamp, List.append_nil]
  seq := by simp [hseq]
  fits p hp := absurd hp (by simp)
  codecId := hcodec
  payloadType := hpt
  ssrc := hssrc
  timestamp := hts
  maxPayloadSize := hmax
  nalLengthSize := hlen
  mode0 := hmode

theorem Emits.trans {s t u : RTPMuxContext} {out more : Payloads} (h : Emits s t out)
    (g : Emits t u more) : Emits s u (out ++ more) where
  sent := by
    rw [g.sent, h.sent, h.seq, stamp_congr h.payloadType h.ssrc h.timestamp, stamp_append,
      List.append_assoc]
  seq := by
    rw [g.seq, h.seq, List.length_append, UInt16.ofNat_add, UInt16.add_assoc]
  fits p hp := by
    rcases List.mem_append.mp hp with hp | hp
    · exact h.fits p hp
    · rw [← h.maxPayloadSize]
      exact g.fits p hp
  codecId := g.codecId.trans h.codecId
  payloadType := g.payloadType.trans h.payloadType
  ssrc := g.ssrc.trans h.ssrc
  timestamp := g.timestamp.trans h.timestamp
  maxPayloadSize := g.maxPayloadSize.trans h.maxPayloadSize
  nalLengthSize := g.nalLengthSize.trans h.nalLengthSize
  mode0 := g.mode0.trans h.mode0

theorem ffRtpSendData_emits (s : RTPMuxContext) {buf payload : List UInt8} {len : Int} (m : Bool)
    (hpayload : buf.take len.toNat = payload) (hfits : payload.length ≤ s.maxPayloadSize) :
    Emits s (ffRtpSendData s buf len m) [(payload, m)] where
  sent := by simp [ffRtpSendData, stamp, hpayload]
  seq := rfl
  fits p hp := by
    rw [List.mem_singleton.mp hp]
    exact hfits
  codecId := rfl
  payloadType := rfl
  ssrc := rfl
  timestamp := rfl
  maxPayloadSize := rfl
  nalLengthSize := rfl
  mode0 := rfl

def fragmentByte (fuHeader : UInt8) (first last : Bool) : UInt8 :=
  let header := if first then fuHeader else fuHeader &&& 0x7F
  if last then header ||| 0x40 else header

theorem fragmentByte_later (fuHeader : UInt8) :
    fragmentByte fuHeader false false &&& 0x7F = fragmentByte fuHeader false false := by
  simp [fragmentByte, UInt8.and_assoc]

theorem fragmentByte_first (fuHeader : UInt8) :
    fragmentByte fuHeader true false &&& 0x7F = fragmentByte fuHeader false false := rfl

theorem fragmentByte_last (fuHeader : UInt8) (first : Bool) :
    fragmentByte fuHeader first false ||| 0x40 = fragmentByte fuHeader first true := rfl

inductive Fragmented (head : List UInt8) (fuHeader : UInt8) : List UInt8 → List (List UInt8) → Prop
  | last {data} : data ≠ [] →
      Fragmented head fuHeader data [head ++ fragmentByte fuHeader false true :: data]
  | more {part data out} : part ≠ [] → Fragmented head fuHeader data out →
      Fragmented head fuHeader (part ++ data) ((head ++ fragmentByte fuHeader false false :: part) :: out)

inductive Forms (codec : AVCodecID) : Group → List (List UInt8) → Prop
  | single (u) : Forms codec (.single u) [u]
  | aggregate {us} : us ≠ [] → (∀ u ∈ us, u.length < 65536) →
      Forms codec (.aggregate us) [aggregateHeader codec ++ aggregated us]
  | fragments {u part data out} : part ≠ [] →
      u.drop (aggregateHeader codec).length = part ++ data →
      Fragmented (fragmentHeader codec u).1 (fragmentHeader codec u).2 data out →
      Forms codec (.fragments u) (((fragmentHeader codec u).1 ++
        fragmentByte (fragmentHeader codec u).2 true false :: part) :: out)

inductive Formed (codec : AVCodecID) : List Group → List (List UInt8) → Prop
  | nil : Formed codec [] []
  | cons {g gs ps out} : Forms codec g ps → Formed codec gs out → Formed codec (g :: gs) (ps ++ out)

theorem Formed.one {codec : AVCodecID} {g : Group} {ps : List (List UInt8)} (h : Forms codec g ps) :
    Formed codec [g] ps := by
  have hcons := Formed.cons h .nil
  rwa [List.append_nil] at hcons

theorem Formed.append {codec : AVCodecID} {gs hs : List Group} {ps qs : List (List UInt8)}
    (h : Formed codec gs ps) (g : Formed codec hs qs) : Formed codec (gs ++ hs) (ps ++ qs) := by
  induction h with
  | nil => exact g
  | cons hforms _ ih =>
      rw [List.cons_append, List.append_assoc]
      exact .cons hforms ih

def Unmarked (out : Payloads) : Prop := ∀ p ∈ out, p.2 = false

/-- No payload but the last is marked, and that one is if `last` is set. -/
def Ends (last : Bool) (out : Payloads) : Prop :=
  ∃ before payload, out = before ++ [(payload, last)] ∧ Unmarked before

theorem Unmarked.nil : Unmarked [] := fun p hp => absurd hp (by simp)

theorem Unmarked.append {out more : Payloads} (h : Unmarked out) (g : Unmarked more) :
    Unmarked (out ++ more) := fun p hp => (List.mem_append.mp hp).elim (h p) (g p)

theorem Unmarked.ends {out more : Payloads} {last : Bool} (h : Unmarked out) (g : Ends last more) :
    Ends last (out ++ more) := by
  obtain ⟨before, payload, rfl, hbefore⟩ := g
  exact ⟨out ++ before, payload, (List.append_assoc ..).symm, h.append hbefore⟩

theorem Ends.singleton (payload : List UInt8) (last : Bool) : Ends last [(payload, last)] :=
  ⟨[], payload, rfl, .nil⟩

theorem Ends.unmarked (h : Ends false out) : Unmarked out := by
  obtain ⟨before, payload, rfl, hbefore⟩ := h
  refine hbefore.append fun p hp => ?_
  rw [List.mem_singleton.mp hp]

def Marks (last : Bool) (held : List (List UInt8)) (out : Payloads) : Prop :=
  (held ≠ [] → Unmarked out) ∧ (held = [] → Ends last out)

theorem Marks.unmarked {held : List (List UInt8)} (h : Marks false held out) : Unmarked out := by
  by_cases hheld : held = []
  · exact (h.2 hheld).unmarked
  · exact h.1 hheld

theorem Unmarked.marks {held : List (List UInt8)} {out more : Payloads} {last : Bool}
    (h : Unmarked out) (g : Marks last held more) : Marks last held (out ++ more) :=
  ⟨fun hheld => h.append (g.1 hheld), fun hheld => h.ends (g.2 hheld)⟩

structure Holds (s : RTPMuxContext) (held : List (List UInt8)) : Prop where
  buf : s.buf = if held = [] then [] else aggregateHeader s.codecId ++ aggregated held
  count : s.bufferedNals = held.length
  room : s.buf.length ≤ s.maxPayloadSize

/-- The packetizer sends the payloads of some groups, and `held` wait afterwards. -/
structure Passes (codec : AVCodecID) (s t : RTPMuxContext) (gs : List Group)
    (held : List (List UInt8)) (out : Payloads) : Prop where
  emits : Emits s t out
  holds : Holds t held
  formed : Formed codec gs (out.map Prod.fst)

section Passing

variable {codec : AVCodecID} {s t u : RTPMuxContext} {held held' : List (List UInt8)}
  {gs hs : List Group} {out out' : Payloads}

theorem Passes.trans (h : Passes codec s t gs held out) (g : Passes codec t u hs held' out') :
    Passes codec s u (gs ++ hs) held' (out ++ out') where
  emits := h.emits.trans g.emits
  holds := g.holds
  formed := by
    rw [List.map_append]
    exact h.formed.append g.formed

theorem Holds.passes (h : Holds s held) : Passes codec s s [] held [] where
  emits := .nil rfl rfl rfl rfl rfl rfl rfl rfl rfl
  holds := h
  formed := .nil

theorem Holds.nil (hbuf : s.buf = []) (hcount : s.bufferedNals = 0) : Holds s [] where
  buf := hbuf
  count := hcount
  room := by simp [hbuf]

theorem Holds.length (h : Holds s held) : s.buf.length = waiting (aggregateHeader s.codecId).length held := by
  rw [h.buf, waiting]
  split
  · rfl
  · rw [List.length_append, length_aggregated]

theorem mem_aggregated_length {v : List UInt8} (h : v ∈ held) : 2 + v.length ≤ (aggregated held).length := by
  rw [length_aggregated]
  exact List.single_le_sum (fun _ _ => Nat.zero_le _) _ (List.mem_map.mpr ⟨v, h, rfl⟩)

end Passing

/-- A packetizer whose payloads have room for more than a fragment header and that
may aggregate. -/
structure Ready (codec : AVCodecID) (s : RTPMuxContext) : Prop where
  codecId : s.codecId = codec
  aggregates : ¬(s.codecId = .h264 ∧ s.mode0 = true)
  least : (aggregateHeader codec).length + 1 < s.maxPayloadSize
  most : s.maxPayloadSize ≤ 65535

theorem Ready.of_emits {codec : AVCodecID} (h : Ready codec s) (g : Emits s t out) : Ready codec t where
  codecId := g.codecId.trans h.codecId
  aggregates := by
    rw [g.codecId, g.mode0]
    exact h.aggregates
  least := by
    rw [g.maxPayloadSize]
    exact h.least
  most := by
    rw [g.maxPayloadSize]
    exact h.most

@[simp] theorem length_fragmentHeader (codec : AVCodecID) (u : List UInt8) :
    (fragmentHeader codec u).1.length = (aggregateHeader codec).length := by
  cases codec <;> rfl

theorem aggregateHeader_ne_nil (codec : AVCodecID) : aggregateHeader codec ≠ [] := by
  cases codec <;> simp [aggregateHeader]

section Sending

variable {codec : AVCodecID} {s : RTPMuxContext} {held : List (List UInt8)}

theorem flushBuffered_nil (h : Holds s []) (last : Bool) :
    Passes codec s (flushBuffered s last) [] [] [] where
  emits := by
    have hbuf : s.buf = [] := by simpa using h.buf
    simp only [flushBuffered, if_pos hbuf]
    exact .nil rfl rfl rfl rfl rfl rfl rfl rfl rfl
  holds := .nil rfl rfl
  formed := .nil

variable {u : List UInt8}

theorem flushBuffered_one (ready : Ready codec s) (hbuf : s.buf = aggregateHeader codec ++ aggregated [u])
    (hcount : s.bufferedNals = 1) (hroom : s.buf.length ≤ s.maxPayloadSize) (last : Bool) :
    Emits s (flushBuffered s last) [(u, last)] := by
  have hne : s.buf ≠ [] := by
    rw [hbuf]
    exact List.append_ne_nil_of_left_ne_nil (aggregateHeader_ne_nil codec) _
  have hlen : s.buf.length = (aggregateHeader codec).length + 2 + u.length := by
    simp only [hbuf, List.length_append, length_aggregated, List.map_cons, List.map_nil,
      List.sum_cons, List.sum_nil]
    omega
  have hdrop : s.buf.drop ((aggregateHeader codec).length + 2) = u := by
    rw [hbuf, ← List.drop_drop, List.drop_left]
    simp only [aggregated, withLengths_cons, withLengths_nil, List.append_nil]
    exact List.drop_left' (length_beBytes 2 u.length)
  have htake : u.take ((s.buf.length : Int) - ((aggregateHeader codec).length + 2 : Nat)).toNat = u := by
    rw [List.take_of_length_le]
    omega
  have hemits : Emits s (ffRtpSendData s (s.buf.drop ((aggregateHeader codec).length + 2))
      (s.buf.length - ((aggregateHeader codec).length + 2 : Nat)) last) [(u, last)] := by
    rw [hdrop]
    exact ffRtpSendData_emits s last htake (by omega)
  have hsent : flushBuffered s last = { ffRtpSendData s
      (s.buf.drop ((aggregateHeader codec).length + 2))
      (s.buf.length - ((aggregateHeader codec).length + 2 : Nat)) last with
        buf := [], bufferedNals := 0 } := by
    simp only [flushBuffered, if_neg hne, if_pos hcount, ready.codecId]
    cases codec <;> rfl
  rw [hsent]
  exact ⟨hemits.sent, hemits.seq, hemits.fits, rfl, rfl, rfl, rfl, rfl, rfl, rfl⟩

theorem flushBuffered_many (hne : s.buf ≠ []) (hcount : s.bufferedNals ≠ 1)
    (hroom : s.buf.length ≤ s.maxPayloadSize) (last : Bool) :
    Emits s (flushBuffered s last) [(s.buf, last)] := by
  have hemits := @ffRtpSendData_emits s s.buf s.buf s.buf.length last (by simp) hroom
  simp only [flushBuffered, if_neg hne, if_neg hcount]
  exact ⟨hemits.sent, hemits.seq, hemits.fits, rfl, rfl, rfl, rfl, rfl, rfl, rfl⟩

theorem flushBuffered_holds (s : RTPMuxContext) (last : Bool) :
    Holds (flushBuffered s last) [] := .nil rfl rfl

theorem flushBuffered_cons (ready : Ready codec s) (h : Holds s held) (hheld : held ≠ []) (last : Bool) :
    ∃ payload, Passes codec s (flushBuffered s last) (flushed held) [] [(payload, last)] := by
  have hbuf : s.buf = aggregateHeader codec ++ aggregated held := by
    rw [h.buf, if_neg hheld, ready.codecId]
  match held, hheld with
  | [u], _ =>
      exact ⟨u, flushBuffered_one ready hbuf h.count h.room last, flushBuffered_holds s last,
        .one (.single u)⟩
  | u :: v :: us, hheld =>
      have hne : s.buf ≠ [] := by
        rw [hbuf]
        exact List.append_ne_nil_of_left_ne_nil (aggregateHeader_ne_nil codec) _
      have hshort : ∀ w ∈ u :: v :: us, w.length < 65536 := by
        intro w hw
        have hmem := mem_aggregated_length hw
        have hroom := h.room
        have hmost := ready.most
        rw [hbuf, List.length_append] at hroom
        omega
      refine ⟨s.buf, flushBuffered_many hne (by rw [h.count]; simp) h.room last,
        flushBuffered_holds s last, .one ?_⟩
      rw [hbuf]
      exact .aggregate hheld hshort

theorem flushBuffered_passes (ready : Ready codec s) (h : Holds s held) :
    ∃ out, Passes codec s (flushBuffered s false) (flushed held) [] out ∧ Unmarked out := by
  by_cases hheld : held = []
  · subst hheld
    exact ⟨[], flushBuffered_nil h false, .nil⟩
  · obtain ⟨payload, hpass⟩ := flushBuffered_cons ready h hheld false
    exact ⟨_, hpass, (Ends.singleton payload false).unmarked⟩

theorem sendFragments_more {head data : List UInt8} {fuHeader : UInt8} (first last : Bool)
    (hmore : s.maxPayloadSize < data.length + (head.length + 1))
    (hleast : head.length + 1 < s.maxPayloadSize) :
    ∃ t part rest, data = part ++ rest ∧ part ≠ [] ∧ rest ≠ [] ∧ rest.length < data.length ∧
      Emits s t [(head ++ fragmentByte fuHeader first false :: part, false)] ∧
      t.buf = s.buf ∧ t.bufferedNals = s.bufferedNals ∧
      sendFragments s head (fragmentByte fuHeader first false) data last =
        sendFragments t head (fragmentByte fuHeader false false) rest last := by
  have hsize : (head ++ fragmentByte fuHeader first false ::
      data.take (s.maxPayloadSize - (head.length + 1))).length = s.maxPayloadSize := by
    simp only [List.length_append, List.length_cons, List.length_take]
    omega
  have hlater : fragmentByte fuHeader first false &&& 0x7F = fragmentByte fuHeader false false := by
    cases first
    · exact fragmentByte_later fuHeader
    · exact fragmentByte_first fuHeader
  refine ⟨_, data.take (s.maxPayloadSize - (head.length + 1)),
    data.drop (s.maxPayloadSize - (head.length + 1)), (List.take_append_drop _ _).symm, ?_, ?_, ?_,
    @ffRtpSendData_emits s _ _ s.maxPayloadSize false
      (List.take_of_length_le (by rw [hsize]; simp)) (Nat.le_of_eq hsize), rfl, rfl, ?_⟩
  · intro hnil
    have hlen := congrArg List.length hnil
    rw [List.length_take, List.length_nil] at hlen
    omega
  · simp only [ne_eq, List.drop_eq_nil_iff]
    omega
  · rw [List.length_drop]
    omega
  · rw [sendFragments, if_pos hmore, if_neg (by omega), hlater]

theorem sendFragments_later {head : List UInt8} {fuHeader : UInt8} (s : RTPMuxContext)
    (hleast : head.length + 1 < s.maxPayloadSize) (data : List UInt8) (hdata : data ≠ []) (last : Bool) :
    ∃ t out, sendFragments s head (fragmentByte fuHeader false false) data last = some t ∧
      Emits s t out ∧ t.buf = s.buf ∧ t.bufferedNals = s.bufferedNals ∧ Ends last out ∧
      Fragmented head fuHeader data (out.map Prod.fst) := by
  induction hn : data.length using Nat.strong_induction_on generalizing s data with
  | _ n ih =>
    by_cases hmore : s.maxPayloadSize < data.length + (head.length + 1)
    · obtain ⟨t, part, rest, rfl, hpart, hrest, hlt, hemits, hbuf, hcount, hsend⟩ :=
        @sendFragments_more s head data fuHeader false last hmore hleast
      obtain ⟨u, out, hu, hemits', hbuf', hcount', hends, hfragmented⟩ :=
        ih rest.length (hn ▸ hlt) t (by rw [hemits.maxPayloadSize]; exact hleast) rest hrest rfl
      refine ⟨u, _, hsend.trans hu, hemits.trans hemits', hbuf'.trans hbuf, hcount'.trans hcount,
        (Ends.singleton _ false).unmarked.ends hends, ?_⟩
      exact .more hpart hfragmented
    · have hsize : (head ++ fragmentByte fuHeader false true :: data).length ≤ s.maxPayloadSize := by
        simp only [List.length_append, List.length_cons]
        omega
      have hone := @ffRtpSendData_emits s _ _ ((data.length : Int) + (head.length + 1 : Nat)) last
        (List.take_of_length_le (show (head ++ fragmentByte fuHeader false true :: data).length ≤ _ by
          simp only [List.length_append, List.length_cons]
          omega)) hsize
      refine ⟨_, _, ?_, hone, rfl, rfl, .singleton _ last, .last hdata⟩
      rw [sendFragments, if_neg hmore, fragmentByte_last]

theorem aggregate_passes (ready : Ready codec s) (h : Holds s held)
    (hroom : s.buf.length + 2 + (aggregateHeader codec).length + u.length ≤ s.maxPayloadSize) :
    Passes codec s { s with
      buf := (if s.buf = [] then aggregateHeader s.codecId else s.buf) ++ beBytes 2 u.length ++ u
      bufferedNals := s.bufferedNals + 1 } [] (held ++ [u]) [] where
  emits := .nil rfl rfl rfl rfl rfl rfl rfl rfl rfl
  holds :=
    { buf := by
        have hone : aggregated [u] = beBytes 2 u.length ++ u := by simp [aggregated]
        have hbuf := h.buf
        dsimp only
        rw [if_neg (show held ++ [u] ≠ [] by simp)]
        by_cases hheld : held = []
        · subst hheld
          have hempty : s.buf = [] := by simpa using hbuf
          rw [if_pos hempty, List.nil_append, hone, List.append_assoc]
        · rw [if_neg hheld] at hbuf
          have hne : s.buf ≠ [] := by simp [hbuf, aggregateHeader_ne_nil]
          rw [if_neg hne, hbuf]
          simp [aggregated]
      count := by
        rw [List.length_append, ← h.count]
        rfl
      room := by
        simp only [List.length_append, length_beBytes]
        split
        · rw [ready.codecId]
          omega
        · omega }
  formed := .nil

theorem whole_passes (h : Holds s []) {u : List UInt8} (hsize : u.length ≤ s.maxPayloadSize)
    (last : Bool) : Passes codec s (ffRtpSendData s u u.length last) [.single u] [] [(u, last)] where
  emits := ffRtpSendData_emits s last (by simp) hsize
  holds := .nil h.buf h.count
  formed := .one (.single u)

theorem makeRoom_passes (ready : Ready codec s) (h : Holds s held) (u : List UInt8) : ∃ out, Passes codec s
        (if s.buf.length + 2 + (u.length : Int) > s.maxPayloadSize then flushBuffered s false else s)
        (makeRoom s.maxPayloadSize (aggregateHeader codec).length held u).1
        (makeRoom s.maxPayloadSize (aggregateHeader codec).length held u).2 out ∧ Unmarked out := by
  have hlen := h.length
  rw [ready.codecId] at hlen
  unfold makeRoom
  by_cases hfull : s.maxPayloadSize <
      waiting (aggregateHeader codec).length held + 2 + u.length
  · rw [if_pos hfull, if_pos (by omega)]
    exact flushBuffered_passes ready h
  · rw [if_neg hfull, if_neg (by omega)]
    exact ⟨[], h.passes, .nil⟩

theorem sendWhole_passes (ready : Ready codec s) (h : Holds s held) (hsize : u.length ≤ s.maxPayloadSize)
    (last : Bool) : ∃ t out, sendWhole s u u.length last = some t ∧
      Passes codec s t (place s.maxPayloadSize (aggregateHeader codec).length held u).1
        (place s.maxPayloadSize (aggregateHeader codec).length held u).2 out ∧
      Marks last (place s.maxPayloadSize (aggregateHeader codec).length held u).2 out := by
  obtain ⟨out₁, hpass₁, hout₁⟩ := makeRoom_passes ready h u
  have hplace : place s.maxPayloadSize (aggregateHeader codec).length held u =
      let room := makeRoom s.maxPayloadSize (aggregateHeader codec).length held u
      if waiting (aggregateHeader codec).length room.2 + 2 + (aggregateHeader codec).length + u.length ≤
        s.maxPayloadSize then (room.1, room.2 ++ [u]) else (room.1 ++ flushed room.2 ++ [.single u], []) := by
    rw [place, if_neg (by omega)]
  rw [hplace]
  generalize hs₁ : (if s.buf.length + 2 + (u.length : Int) > s.maxPayloadSize then
    flushBuffered s false else s) = s₁ at hpass₁
  generalize makeRoom s.maxPayloadSize (aggregateHeader codec).length held u = room at hpass₁
  obtain ⟨gs, held₁⟩ := room
  have ready₁ := ready.of_emits hpass₁.emits
  have hmax := hpass₁.emits.maxPayloadSize
  have hlen := hpass₁.holds.length
  rw [ready₁.codecId] at hlen
  have hskip : ¬(decide (s.codecId = .h264) && s.mode0) = true := by
    simpa using ready.aggregates
  dsimp only at hpass₁ hlen ⊢
  by_cases hroom : waiting (aggregateHeader codec).length held₁ + 2 +
      (aggregateHeader codec).length + u.length ≤ s.maxPayloadSize
  · rw [if_pos hroom]
    have hpass₂ := aggregate_passes ready₁ hpass₁.holds (u := u) (by omega)
    refine ⟨_, _, ?_, by simpa using hpass₁.trans hpass₂,
      hout₁.marks ⟨fun _ => .nil, fun hheld => absurd hheld (by simp)⟩⟩
    have hfits : (s₁.buf.length : Int) + 2 + ((aggregateHeader codec).length : Int) + u.length ≤
        s₁.maxPayloadSize := by omega
    simp only [sendWhole, ready.codecId] at hskip ⊢
    simp only [hs₁, hfits, hskip, ready₁.codecId]
    simp
  · rw [if_neg hroom]
    obtain ⟨out₂, hpass₂, hout₂⟩ := flushBuffered_passes ready₁ hpass₁.holds
    have hsize₂ : u.length ≤ (flushBuffered s₁ false).maxPayloadSize := by
      rw [hpass₂.emits.maxPayloadSize, hmax]
      exact hsize
    have hpass₃ := @whole_passes codec _ hpass₂.holds u hsize₂ last
    refine ⟨_, _, ?_, (hpass₁.trans hpass₂).trans hpass₃,
      (hout₁.append hout₂).marks ⟨fun hheld => absurd rfl hheld, fun _ => .singleton u last⟩⟩
    have hfits : ¬(s₁.buf.length : Int) + 2 + ((aggregateHeader codec).length : Int) + u.length ≤
        s₁.maxPayloadSize := by omega
    simp only [sendWhole, ready.codecId, hs₁]
    simp [hfits]

theorem sendFragmented_passes (ready : Ready codec s) (h : Holds s held)
    (hsize : s.maxPayloadSize < u.length) (last : Bool) : ∃ t out, sendFragmented s u u.length last = some t ∧
      Passes codec s t (flushed held ++ [.fragments u]) [] out ∧ Ends last out := by
  obtain ⟨out₁, hpass₁, hout₁⟩ := flushBuffered_passes ready h
  have ready₁ := ready.of_emits hpass₁.emits
  have hmax := hpass₁.emits.maxPayloadSize
  have hleast : (fragmentHeader codec u).1.length + 1 < (flushBuffered s false).maxPayloadSize := by
    rw [length_fragmentHeader]
    exact ready₁.least
  have hmore : (flushBuffered s false).maxPayloadSize <
      (u.drop (fragmentHeader codec u).1.length).length + ((fragmentHeader codec u).1.length + 1) := by
    rw [hmax, List.length_drop]
    omega
  obtain ⟨t₁, part, rest, hdata, hpart, hrest, _, hemits, hbuf, hcount, hsend⟩ :=
    @sendFragments_more _ _ _ (fragmentHeader codec u).2 true last hmore hleast
  obtain ⟨t, out, ht, hemits', hbuf', hcount', hends, hfragmented⟩ :=
    @sendFragments_later (fragmentHeader codec u).1 (fragmentHeader codec u).2 t₁
      (by rw [hemits.maxPayloadSize]; exact hleast) rest hrest last
  have hpass₂ : Passes codec (flushBuffered s false) t [.fragments u] [] _ :=
    { emits := hemits.trans hemits'
      holds := .nil (hbuf'.trans hbuf) (hcount'.trans hcount)
      formed := by
        rw [length_fragmentHeader] at hdata
        exact .one (.fragments hpart hdata hfragmented) }
  refine ⟨t, _, ?_, hpass₁.trans hpass₂,
    hout₁.ends ((Ends.singleton _ false).unmarked.ends hends)⟩
  rw [sendFragmented, if_neg ready₁.aggregates]
  simp only [Int.toNat_natCast, List.take_length, ready₁.codecId]
  exact hsend.trans ht

theorem nalSend_passes (ready : Ready codec s) (h : Holds s held) (u : List UInt8) (last : Bool) :
    ∃ t out, nalSend s u u.length last = some t ∧
      Passes codec s t (place s.maxPayloadSize (aggregateHeader codec).length held u).1
        (place s.maxPayloadSize (aggregateHeader codec).length held u).2 out ∧
      Marks last (place s.maxPayloadSize (aggregateHeader codec).length held u).2 out := by
  by_cases hsize : u.length ≤ s.maxPayloadSize
  · rw [nalSend, if_pos (by omega)]
    exact sendWhole_passes ready h hsize last
  · obtain ⟨t, out, ht, hpass, hends⟩ :=
      sendFragmented_passes ready h (Nat.not_le.mp hsize) last
    rw [place, if_pos (Nat.not_le.mp hsize), nalSend, if_neg (by omega)]
    exact ⟨t, out, ht, hpass, fun hheld => absurd rfl hheld, fun _ => hends⟩

def sendAll (s : RTPMuxContext) : List (List UInt8) → Option RTPMuxContext
  | [] => some s
  | u :: units => (nalSend s u u.length (units = [])).bind fun s => sendAll s units

/-- After the last flush the planned groups have been sent. The induction is on the
units; what waits is carried along. -/
theorem sendAll_flush (ready : Ready codec s) (h : Holds s held) {units : List (List UInt8)}
    (hne : held ++ units ≠ []) : ∃ t out, (sendAll s units).map (flushBuffered · true) = some t ∧
      Passes codec s t (plan s.maxPayloadSize (aggregateHeader codec).length held units) [] out ∧
      Ends true out := by
  induction units generalizing s held with
  | nil =>
      obtain ⟨payload, hflush⟩ := flushBuffered_cons ready h (by simpa using hne) true
      exact ⟨_, _, rfl, hflush, .singleton payload true⟩
  | cons u units ih =>
      obtain ⟨t, out, ht, hpass, hmarks⟩ := nalSend_passes ready h u (decide (units = []))
      have ready₁ := ready.of_emits hpass.emits
      rw [sendAll, ht, Option.bind_some]
      by_cases hend : (place s.maxPayloadSize (aggregateHeader codec).length held u).2 ++ units = []
      · -- nothing is left, and the unit has been marked as the last
        obtain ⟨hheld, rfl⟩ := List.append_eq_nil_iff.mp hend
        rw [hheld] at hpass hmarks
        have hflush := hpass.trans (flushBuffered_nil hpass.holds true)
        rw [List.append_nil, List.append_nil] at hflush
        refine ⟨_, _, rfl, ?_, hmarks.2 rfl⟩
        rw [plan, plan, hheld, flushed, List.append_nil]
        exact hflush
      · have hout : Unmarked out := by
          by_cases hunits : units = []
          · subst hunits
            exact hmarks.1 (by simpa using hend)
          · rw [decide_eq_false hunits] at hmarks
            exact hmarks.unmarked
        obtain ⟨t₁, out₁, ht₁, hpass₁, hends⟩ := ih ready₁ hpass.holds hend
        rw [hpass.emits.maxPayloadSize] at hpass₁
        exact ⟨t₁, _, ht₁, hpass.trans hpass₁, hout.ends hends⟩

end Sending

section

def decoded (image : Group → Option (List UInt8)) : List Group → Option (List UInt8)
  | [] => some []
  | g :: gs => (image g).bind fun xs => (decoded image gs).map (xs ++ ·)

variable {handler : AVPacket → List UInt8 → Int × AVPacket} {codec : AVCodecID}

theorem depacketize_formed {image : Group → Option (List UInt8)} {gs : List Group}
    {out : List (List UInt8)} (h : Formed codec gs out)
    (himage : ∀ g ∈ gs, ∀ ps, Forms codec g ps → depacketize handler ps = image g) :
    depacketize handler out = decoded image gs := by
  induction h with
  | nil => rfl
  | @cons g gs ps out hforms _ ih =>
      rw [depacketize_append, himage g List.mem_cons_self ps hforms,
        ih fun g' hg => himage g' (List.mem_cons_of_mem g hg)]
      rfl

theorem depacketize_fragmented {head data : List UInt8} {fuHeader : UInt8}
    {out : List (List UInt8)} (h : Fragmented head fuHeader data out)
    (hdecode : ∀ data, data ≠ [] → ∀ last : Bool,
      output handler (head ++ fragmentByte fuHeader false last :: data) = some data) :
    depacketize handler out = some data := by
  induction h with
  | last hdata => exact depacketize_singleton (hdecode _ hdata true)
  | @more part data out hpart _ ih => rw [depacketize, hdecode part hpart false, ih]; rfl

theorem decoded_eq_received {image : Group → Option (List UInt8)} {gs : List Group}
    (hlen : ∀ g ∈ gs, ∀ xs, image g = some xs → xs.length = (receivedUnits g.units).length) :
    decoded image gs = some (receivedUnits (gs.flatMap Group.units)) ↔
      ∀ g ∈ gs, image g = some (receivedUnits g.units) := by
  induction gs with
  | nil => simp [decoded]
  | cons g gs ih =>
      have ih := ih fun g' hg => hlen g' (List.mem_cons_of_mem g hg)
      rw [decoded, List.flatMap_cons, receivedUnits_append, List.forall_mem_cons, ← ih]
      constructor
      · intro h
        obtain ⟨xs, hxs, h⟩ := Option.bind_eq_some_iff.mp h
        obtain ⟨ys, hys, h⟩ := Option.map_eq_some_iff.mp h
        obtain ⟨rfl, rfl⟩ := List.append_inj h (hlen g List.mem_cons_self xs hxs)
        exact ⟨hxs, hys⟩
      · rintro ⟨hg, hgs⟩
        rw [hg, hgs]
        rfl

theorem decoded_received (gs : List Group) : decoded (fun g => some (receivedUnits g.units)) gs =
      some (receivedUnits (gs.flatMap Group.units)) := by
  refine (decoded_eq_received fun g _ xs hxs => ?_).mpr fun g _ => rfl
  cases hxs
  rfl

end

end P2PFFmpeg.Payload
