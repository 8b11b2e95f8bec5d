import P2PFFmpeg.Util.Error
import P2PFFmpeg.Util.Packet

namespace P2PFFmpeg.Whep

open Util

/-- One call of `av_read_frame` on a track's inner demuxer. -/
structure Read where
  track : Nat
  packet : Option AVPacket
deriving DecidableEq, Repr

structure WHEPContext where
  tracks : List (List AVPacket)
  discardCorrupt : Bool
  reads : List Read
deriving DecidableEq, Repr

/-- The track is the one the output packet's stream index names. -/
def whepReadPacket (s : WHEPContext) (pkt : AVPacket) : Int × AVPacket × WHEPContext :=
  let track := pkt.streamIndex.toNat
  let pkt := { pkt with streamIndex := 0 }
  match s.tracks.getD track [] with
  | [] => (averrorEagain, pkt, { s with reads := s.reads ++ [⟨track, none⟩] })
  | packet :: rest =>
      (0, packet, { s with
        tracks := s.tracks.set track rest
        reads := s.reads ++ [⟨track, some packet⟩] })

def WHEPContext.queued (s : WHEPContext) : Nat := (s.tracks.map List.length).sum

theorem sum_set_lt {tracks : List (List AVPacket)} {i : Nat} {packet : AVPacket}
    {rest : List AVPacket} (h : tracks.getD i [] = packet :: rest) :
    ((tracks.set i rest).map List.length).sum < (tracks.map List.length).sum := by
  induction tracks generalizing i with
  | nil => simp at h
  | cons queue tracks ih =>
      cases i with
      | zero =>
          simp only [List.getD_cons_zero] at h
          subst h
          simp
      | succ i =>
          rw [List.getD_cons_succ] at h
          have hlt := ih h
          simp only [List.set_cons_succ, List.map_cons, List.sum_cons]
          omega

theorem whepReadPacket_queued (s : WHEPContext) (pkt : AVPacket)
    (h : 0 ≤ (whepReadPacket s pkt).1) : (whepReadPacket s pkt).2.2.queued < s.queued := by
  unfold whepReadPacket at h ⊢
  dsimp only at h ⊢
  split at h
  · exact absurd h (by decide : ¬0 ≤ averrorEagain)
  · next packet rest htrack => exact sum_set_lt htrack

/-- The loop of `ff_read_packet` over a demuxer whose streams need no probing.
`stamp` is what the timestamp correction makes of a time. -/
def ffReadPacketLoop (stamp : Option Int → Option Int) (s : WHEPContext) (pkt : AVPacket) :
    Int × AVPacket × WHEPContext :=
  let r := whepReadPacket s pkt
  if _h : r.1 < 0 then (r.1, AVPacket.blank, r.2.2)
  else if r.2.1.corrupt ∧ s.discardCorrupt then ffReadPacketLoop stamp r.2.2 AVPacket.blank
  else (0, { r.2.1 with pts := stamp r.2.1.pts, dts := stamp r.2.1.dts }, r.2.2)
termination_by s.queued
decreasing_by exact whepReadPacket_queued s pkt (Int.not_lt.mp _h)

/-- The output packet is initialised before every read. -/
def ffReadPacket (stamp : Option Int → Option Int) (s : WHEPContext) :
    Int × AVPacket × WHEPContext :=
  ffReadPacketLoop stamp s AVPacket.blank

end P2PFFmpeg.Whep
