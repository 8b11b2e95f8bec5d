import P2PFFmpeg.Library.Transition
import P2PFFmpeg.Whep.ReadPacket

namespace P2PFFmpeg.Whep

open Util Library.Transition

inductive WhepLabel
  | arrive (track : Nat) (pkt : AVPacket)
  | readPacket (stamp : Option Int → Option Int)

def WHEPContext.arrive (s : WHEPContext) (track : Nat) (pkt : AVPacket) : Option WHEPContext :=
  if track < s.tracks.length ∧ pkt.streamIndex = 0 then
    some { s with tracks := s.tracks.set track (s.tracks.getD track [] ++ [pkt]) }
  else none

def whepStart (nbTracks : Nat) (discardCorrupt : Bool) : WHEPContext :=
  ⟨List.replicate nbTracks [], discardCorrupt, []⟩

def whep (nbTracks : Nat) (discardCorrupt : Bool) : System WHEPContext WhepLabel where
  init s := s = whepStart nbTracks discardCorrupt
  next s l := match l with
    | .arrive track pkt => s.arrive track pkt
    | .readPacket stamp => some (ffReadPacket stamp s).2.2

/-- One call of `ff_read_packet`: whether a packet was queued on some track
before it, the reads it made, and the packet it handed to the caller. -/
structure Reading where
  waiting : Bool
  reads : List Read
  out : Option AVPacket
deriving DecidableEq, Repr

def observe (s : WHEPContext) : WhepLabel → List Reading
  | .arrive _ _ => []
  | .readPacket stamp =>
      let r := ffReadPacket stamp s
      [{ waiting := s.tracks.any (· ≠ [])
         reads := r.2.2.reads.drop s.reads.length
         out := if r.1 < 0 then none else some r.2.1 }]

def content (pkt : AVPacket) : AVPacket := { pkt with pts := none, dts := none, streamIndex := 0 }

def Reading.takenFrom (track : Nat) (r : Reading) : List AVPacket :=
  r.reads.filterMap fun read => if read.track = track then read.packet.map content else none

def Reading.handedFor (track : Nat) (r : Reading) : List AVPacket :=
  (r.out.toList.filter fun pkt => pkt.streamIndex = (track : Int)).map content

/-- Every packet taken from a track is handed on under the track's index and in
its order, and the calls take turns over the tracks. -/
structure Delivery (nbTracks : Nat) (history : List Reading) : Prop where
  handed : ∀ track < nbTracks,
    history.flatMap (·.handedFor track) = history.flatMap (·.takenFrom track)
  progress : ∀ before calls after, history = before ++ calls ++ after → calls.length = nbTracks →
    (∃ call, calls.head? = some call ∧ call.waiting = true) →
    ∃ call ∈ calls, ∃ read ∈ call.reads, read.packet.isSome
  turns : ∀ before calls after, history = before ++ calls ++ after → calls.length = nbTracks →
    ∀ track < nbTracks, ∃ call ∈ calls, ∃ read ∈ call.reads, read.track = track

theorem whepReadPacket_first (s : WHEPContext) {pkt : AVPacket} (h : pkt.streamIndex = 0) :
    ∃ read : Read, read.track = 0 ∧ (whepReadPacket s pkt).2.2.reads = s.reads ++ [read] := by
  unfold whepReadPacket
  dsimp only
  rw [h]
  split
  · exact ⟨_, rfl, rfl⟩
  · exact ⟨_, rfl, rfl⟩

theorem ffReadPacketLoop_first (stamp : Option Int → Option Int) (s : WHEPContext)
    (pkt : AVPacket) (h : pkt.streamIndex = 0) :
    ∃ new, (ffReadPacketLoop stamp s pkt).2.2.reads = s.reads ++ new ∧
      ∀ read ∈ new, read.track = 0 := by
  fun_induction ffReadPacketLoop stamp s pkt with
  | case1 s pkt r | case3 s pkt r =>
      obtain ⟨read, htrack, hreads⟩ := whepReadPacket_first s h
      exact ⟨[read], hreads, by simpa using htrack⟩
  | case2 s pkt r hneg hcorrupt ih =>
      obtain ⟨read, htrack, hreads⟩ := whepReadPacket_first s h
      obtain ⟨new, hnew, honly⟩ := ih rfl
      refine ⟨read :: new, ?_, ?_⟩
      · rw [hnew, hreads]
        simp
      · intro x hx
        rcases List.mem_cons.mp hx with rfl | hx
        · exact htrack
        · exact honly x hx

variable {s : WHEPContext}

theorem reading_first {l : WhepLabel} {call : Reading} (h : call ∈ observe s l) :
    ∀ read ∈ call.reads, read.track = 0 := by
  cases l with
  | arrive track pkt => cases h
  | readPacket stamp =>
      obtain ⟨new, hnew, honly⟩ := ffReadPacketLoop_first stamp s .blank rfl
      simp only [observe, List.mem_singleton] at h
      rw [h]
      simp only [ffReadPacket, hnew, List.drop_left]
      exact honly

theorem ffReadPacket_empty (stamp : Option Int → Option Int) (h : s.tracks.getD 0 [] = []) :
    ffReadPacket stamp s = (averrorEagain, .blank, { s with reads := s.reads ++ [⟨0, none⟩] }) := by
  have htrack : s.tracks.getD AVPacket.blank.streamIndex.toNat [] = [] := h
  have hread : whepReadPacket s .blank =
      (averrorEagain, { AVPacket.blank with streamIndex := 0 }, { s with reads := s.reads ++ [⟨0, none⟩] }) := by
    simp only [whepReadPacket, htrack]
    rfl
  unfold ffReadPacket ffReadPacketLoop
  rw [hread]
  rfl

theorem ffReadPacket_queued (stamp : Option Int → Option Int) {packet : AVPacket} {rest : List AVPacket}
    (h : s.tracks.getD 0 [] = packet :: rest) (hkeep : ¬(packet.corrupt = true ∧ s.discardCorrupt = true)) :
    ffReadPacket stamp s = (0, { packet with pts := stamp packet.pts, dts := stamp packet.dts },
      { s with
        tracks := s.tracks.set 0 rest
        reads := s.reads ++ [⟨0, some packet⟩] }) := by
  have htrack : s.tracks.getD AVPacket.blank.streamIndex.toNat [] = packet :: rest := h
  have hread : whepReadPacket s .blank = (0, packet,
      { s with
        tracks := s.tracks.set 0 rest
        reads := s.reads ++ [⟨0, some packet⟩] }) := by
    simp only [whepReadPacket, htrack]
    rfl
  unfold ffReadPacket ffReadPacketLoop
  rw [hread]
  dsimp only
  rw [dif_neg (by decide), if_neg hkeep]

structure Single (s : WHEPContext) : Prop where
  single : s.tracks.length = 1
  keeps : s.discardCorrupt = false
  index : ∀ pkt ∈ s.tracks.getD 0 [], pkt.streamIndex = 0

structure Delivers (call : Reading) : Prop where
  handed : call.handedFor 0 = call.takenFrom 0
  progress : call.waiting = true → ∃ read ∈ call.reads, read.packet.isSome
  turn : ∃ read ∈ call.reads, read.track = 0

theorem Single.call {s : WHEPContext} (h : Single s) (stamp : Option Int → Option Int) :
    Single (ffReadPacket stamp s).2.2 ∧ ∀ call ∈ observe s (.readPacket stamp), Delivers call := by
  obtain ⟨queue, htracks⟩ := List.length_eq_one_iff.mp h.single
  have hfirst : s.tracks.getD 0 [] = queue := by rw [htracks]; rfl
  have hindex := h.index
  simp only [observe, List.mem_singleton, forall_eq]
  cases queue with
  | nil =>
      rw [ffReadPacket_empty stamp hfirst]
      refine ⟨⟨h.single, h.keeps, h.index⟩, ?_, ?_, ?_⟩
      · simp [Reading.handedFor, Reading.takenFrom, averrorEagain]
      · simp [htracks]
      · simp
  | cons packet rest =>
      have hkeep : ¬(packet.corrupt = true ∧ s.discardCorrupt = true) := by simp [h.keeps]
      rw [ffReadPacket_queued stamp hfirst hkeep]
      rw [hfirst] at hindex
      have hzero := hindex packet (by simp)
      refine ⟨⟨by simp [h.single], h.keeps, fun pkt hpkt => hindex pkt ?_⟩, ?_, ?_, ?_⟩
      · simp only [htracks, List.set_cons_zero, List.getD_cons_zero] at hpkt
        exact List.mem_cons_of_mem _ hpkt
      · simp [Reading.handedFor, Reading.takenFrom, hzero, content]
      · simp
      · simp

theorem delivery_of_calls {history : List Reading} (h : ∀ call ∈ history, Delivers call) :
    Delivery 1 history where
  handed track htrack := by
    obtain rfl : track = 0 := by omega
    exact List.flatMap_congr fun call hcall => (h call hcall).handed
  progress before calls after hhistory hlength := by
    rintro ⟨call, hhead, hwaiting⟩
    obtain ⟨only, rfl⟩ := List.length_eq_one_iff.mp hlength
    cases hhead
    have hcall := h call (by simp [hhistory])
    exact ⟨call, by simp, hcall.progress hwaiting⟩
  turns before calls after hhistory hlength track htrack := by
    obtain ⟨call, rfl⟩ := List.length_eq_one_iff.mp hlength
    obtain rfl : track = 0 := by omega
    exact ⟨call, by simp, (h call (by simp [hhistory])).turn⟩

theorem single_of_reachable {history : List Reading}
    (h : ((whep 1 false).observed observe).Reachable (s, history)) :
    Single s ∧ ∀ call ∈ history, Delivers call := by
  refine System.Reachable.invariant (fun x => Single x.1 ∧ ∀ call ∈ x.2, Delivers call) ?_ ?_ h
  · rintro ⟨s, history⟩ ⟨hinit, hhistory⟩
    simp only at hinit hhistory
    subst hhistory
    cases hinit
    exact ⟨⟨rfl, rfl, by simp [whepStart]⟩, by simp⟩
  · rintro ⟨s, history⟩ l ⟨t, history'⟩ _ ⟨hsingle, hcalls⟩ hnext
    obtain ⟨hstep, hhistory⟩ := System.observed_next.mp hnext
    simp only at hhistory hsingle hcalls
    subst hhistory
    cases l with
    | arrive track pkt =>
        simp only [whep, WHEPContext.arrive, Option.ite_none_right_eq_some, Option.some.injEq] at hstep
        obtain ⟨⟨htrack, hzero⟩, rfl⟩ := hstep
        rw [hsingle.single] at htrack
        obtain rfl : track = 0 := by omega
        refine ⟨⟨by simp [hsingle.single], hsingle.keeps, ?_⟩, by simpa [observe] using hcalls⟩
        intro p hp
        obtain ⟨queue, htracks⟩ := List.length_eq_one_iff.mp hsingle.single
        have hindex := hsingle.index
        simp only [htracks, List.set_cons_zero, List.getD_cons_zero, List.mem_append,
          List.mem_singleton] at hp hindex
        rcases hp with hp | rfl
        · exact hindex p hp
        · exact hzero
    | readPacket stamp =>
        cases hstep
        obtain ⟨hafter, hcall⟩ := hsingle.call stamp
        refine ⟨hafter, fun call hmem => ?_⟩
        rcases List.mem_append.mp hmem with hmem | hmem
        · exact hcalls call hmem
        · exact hcall call hmem

theorem whepStart_init (nbTracks : Nat) (discardCorrupt : Bool) :
    ((whep nbTracks discardCorrupt).observed observe).init (whepStart nbTracks discardCorrupt, []) :=
  ⟨rfl, rfl⟩

theorem calls_reachable (nbTracks : Nat) (discardCorrupt : Bool) (n : Nat) :
    ∃ s history, ((whep nbTracks discardCorrupt).observed observe).Reachable (s, history) ∧
      history.length = n ∧ ∀ call ∈ history, ∀ read ∈ call.reads, read.track = 0 := by
  induction n with
  | zero => exact ⟨whepStart nbTracks discardCorrupt, [], .init (whepStart_init _ _), rfl, by simp⟩
  | succ n ih =>
      obtain ⟨s, history, hreach, hlength, hfirst⟩ := ih
      refine ⟨(ffReadPacket id s).2.2, history ++ observe s (.readPacket id), ?_, ?_, ?_⟩
      · exact hreach.step (System.observed_next.mpr ⟨rfl, rfl⟩)
      · simp [observe, hlength]
      · intro call hcall
        rcases List.mem_append.mp hcall with hcall | hcall
        · exact hfirst call hcall
        · exact reading_first hcall

theorem not_delivery_of_two (n : Nat) (discardCorrupt : Bool) :
    ∃ s history, ((whep (n + 2) discardCorrupt).observed observe).Reachable (s, history) ∧
      ¬Delivery (n + 2) history := by
  obtain ⟨s, history, hreach, hlength, hfirst⟩ := calls_reachable (n + 2) discardCorrupt (n + 2)
  refine ⟨s, history, hreach, fun hdelivery => ?_⟩
  obtain ⟨call, hcall, read, hread, htrack⟩ :=
    hdelivery.turns [] history [] (by simp) hlength 1 (by omega)
  have hzero := hfirst call hcall read hread
  omega

def mediaPacket (byte : UInt8) (corrupt : Bool) : AVPacket :=
  { AVPacket.blank with data := [byte], corrupt := corrupt }

theorem not_delivery_of_discard : ∃ s history, ((whep 1 true).observed observe).Reachable (s, history) ∧
      ¬Delivery 1 history := by
  have hview : ((((whep 1 true).observed observe).run
      [.arrive 0 (mediaPacket 7 true), .readPacket id] (whepStart 1 true, [])).map Prod.snd) =
      some [⟨true, [⟨0, some (mediaPacket 7 true)⟩, ⟨0, none⟩], none⟩] := by
    decide +kernel
  obtain ⟨⟨s, history⟩, hrun, hhistory⟩ := Option.map_eq_some_iff.mp hview
  refine ⟨s, history, .of_run (whepStart_init _ _) hrun, fun hdelivery => ?_⟩
  simp only at hhistory
  subst hhistory
  have hhanded := hdelivery.handed 0 (by decide)
  revert hhanded
  decide

/-- Every run delivers exactly when there is a single track and corrupt packets
are not discarded. -/
theorem whep_delivers_iff (n : Nat) (discardCorrupt : Bool) :
    (∀ s history, ((whep (n + 1) discardCorrupt).observed observe).Reachable (s, history) →
      Delivery (n + 1) history) ↔ n = 0 ∧ discardCorrupt = false := by
  constructor
  · intro h
    cases n with
    | succ n =>
        obtain ⟨s, history, hreach, hnot⟩ := not_delivery_of_two n discardCorrupt
        exact absurd (h s history hreach) hnot
    | zero =>
        refine ⟨rfl, ?_⟩
        cases discardCorrupt with
        | false => rfl
        | true =>
            obtain ⟨s, history, hreach, hnot⟩ := not_delivery_of_discard
            exact absurd (h s history hreach) hnot
  · rintro ⟨rfl, rfl⟩ s history hreach
    exact delivery_of_calls (single_of_reachable hreach).2

/-- With a video and an audio track, an audio packet waits while two calls read
the empty video track. -/
theorem second_track_never_read :
    ∃ s history, ((whep 2 false).observed observe).Reachable (s, history) ∧
      history = [⟨true, [⟨0, none⟩], none⟩, ⟨true, [⟨0, none⟩], none⟩] ∧
      s.tracks = [[], [mediaPacket 7 false]] ∧ ¬Delivery 2 history := by
  have hview : ((((whep 2 false).observed observe).run
      [.arrive 1 (mediaPacket 7 false), .readPacket id, .readPacket id]
      (whepStart 2 false, [])).map fun x => (x.2, x.1.tracks)) =
      some ([⟨true, [⟨0, none⟩], none⟩, ⟨true, [⟨0, none⟩], none⟩],
        [[], [mediaPacket 7 false]]) := by
    decide +kernel
  obtain ⟨⟨s, history⟩, hrun, heq⟩ := Option.map_eq_some_iff.mp hview
  simp only [Prod.mk.injEq] at heq
  obtain ⟨hhistory, htracks⟩ := heq
  refine ⟨s, history, .of_run (whepStart_init _ _) hrun, hhistory, htracks, fun hdelivery => ?_⟩
  subst hhistory
  obtain ⟨call, hcall, read, hread, hsome⟩ := hdelivery.progress []
    [⟨true, [⟨0, none⟩], none⟩, ⟨true, [⟨0, none⟩], none⟩] [] rfl rfl
    ⟨⟨true, [⟨0, none⟩], none⟩, rfl, rfl⟩
  simp only [List.mem_cons, List.not_mem_nil, or_false] at hcall
  rcases hcall with rfl | rfl
  · rw [List.mem_singleton.mp hread] at hsome
    cases hsome
  · rw [List.mem_singleton.mp hread] at hsome
    cases hsome

end P2PFFmpeg.Whep
