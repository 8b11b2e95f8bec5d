import Mathlib.Data.List.TakeWhile
import P2PFFmpeg.Peer.Signaling

namespace P2PFFmpeg.Peer

open Library Library.Program Message

def nodeOf (id : String) (c : P2PContext) : Option PeerConnectionNode :=
  (findPeerConnectionNodeByRemoteId c.peerConnectionNodeCaches (some id)).bind
    c.peerConnectionNodeCaches.get?

def RtcCall.describes (pcId : Int) : RtcCall → Bool
  | .setRemoteDescription id _ _ => id == pcId
  | _ => false

def RtcCall.added? (pcId : Int) : RtcCall → Option (String × String)
  | .addRemoteCandidate id candidate mid => if id = pcId then some (candidate, mid) else none
  | _ => none

def addedAfterDescription (pcId : Int) (calls : List RtcCall) : List (String × String) :=
  (calls.dropWhile fun call => !call.describes pcId).filterMap (RtcCall.added? pcId)

/-- The candidates of the peer that got to its connection in time. -/
def addedFrom (id : String) (c : P2PContext) : List (String × String) :=
  ((nodeOf id c).map fun n => addedAfterDescription n.pcId c.calls).getD []

def Described (id : String) (c : P2PContext) : Prop :=
  ∃ n, nodeOf id c = some n ∧ ∃ call ∈ c.calls, call.describes n.pcId = true

def HearsOnly (id : String) (c : P2PContext) : Prop :=
  ∀ pcId candidate mid, .addRemoteCandidate pcId candidate mid ∈ c.calls →
    ∃ n, nodeOf id c = some n ∧ n.pcId = pcId

structure Unheard (id : String) (c d : P2PContext) : Prop where
  hears : HearsOnly id d
  added : addedFrom id d = addedFrom id c
  described : Described id c → Described id d

variable {id : String} {c d : P2PContext} {w : Permit} {pcId : Int} {calls new : List RtcCall}

variable {n : PeerConnectionNode}

theorem nodeOf_eq_some (h : nodeOf id c = some n) :
    ∃ p, findPeerConnectionNodeByRemoteId c.peerConnectionNodeCaches (some id) = some p ∧
      c.peerConnectionNodeCaches.get? p = some n :=
  Option.bind_eq_some_iff.mp h

theorem nodeOf_of_find {p : Ptr}
    (h : findPeerConnectionNodeByRemoteId c.peerConnectionNodeCaches (some id) = some p) :
    ∃ n, nodeOf id c = some n ∧ c.peerConnectionNodeCaches.get? p = some n := by
  obtain ⟨n, hn, _⟩ := find_get h
  refine ⟨n, ?_, hn⟩
  rw [nodeOf, h, Option.bind_some, hn]

theorem nodeOf_of_linked {p : Ptr} (hn : c.peerConnectionNodeCaches.get? p = some n)
    (hid : n.remoteId = some id) : ∃ m, nodeOf id c = some m := by
  cases hf : findPeerConnectionNodeByRemoteId c.peerConnectionNodeCaches (some id) with
  | some q =>
      obtain ⟨m, hm, _⟩ := nodeOf_of_find hf
      exact ⟨m, hm⟩
  | none =>
      have hnot := Linked.find?_eq_none_iff.mp hf p n hn
      rw [hasRemoteId_iff.mpr ⟨hid, Option.some_ne_none id⟩] at hnot
      cases hnot

theorem nodeOf_frame (hf : Frame w c d) (hl : ∀ p, ¬ w.lost p) (h : nodeOf id c = some n) :
    ∃ m, nodeOf id d = some m ∧ m.pcId = n.pcId := by
  obtain ⟨p, hp, hn⟩ := nodeOf_eq_some h
  obtain ⟨m, hm, hsame⟩ := hf.kept p n (hl p) hn
  refine ⟨m, ?_, hsame.pcId⟩
  rw [nodeOf, hf.found _ p (hl p) hp, Option.bind_some, hm]

theorem added_append_of_none (h : ∀ call ∈ new, call.added? pcId = none) :
    addedAfterDescription pcId (calls ++ new) = addedAfterDescription pcId calls := by
  have hnone : ∀ rest : List RtcCall, (∀ call ∈ rest, call ∈ new) → rest.filterMap (RtcCall.added? pcId) = [] :=
    fun rest hsub => List.filterMap_eq_nil_iff.mpr fun call hm => h call (hsub call hm)
  rw [addedAfterDescription, addedAfterDescription, List.dropWhile_append]
  split
  · next hempty =>
      rw [List.isEmpty_iff.mp hempty, List.filterMap_nil]
      exact hnone _ fun call hm => (List.dropWhile_sublist _).subset hm
  · rw [List.filterMap_append, hnone new fun _ hm => hm, List.append_nil]

theorem added_append_of_described (h : ∃ call ∈ calls, call.describes pcId = true) :
    addedAfterDescription pcId (calls ++ new) =
      addedAfterDescription pcId calls ++ new.filterMap (RtcCall.added? pcId) := by
  obtain ⟨call, hm, hcall⟩ := h
  rw [addedAfterDescription, addedAfterDescription, List.dropWhile_append, if_neg,
    List.filterMap_append]
  rw [List.isEmpty_iff, List.dropWhile_eq_nil_iff]
  intro hall
  have hnot := hall call hm
  rw [hcall] at hnot
  cases hnot

theorem added_of_no_candidate (h : ∀ candidate mid, .addRemoteCandidate pcId candidate mid ∉ calls) :
    addedAfterDescription pcId calls = [] := by
  apply List.filterMap_eq_nil_iff.mpr
  intro call hm
  have hmem := (List.dropWhile_sublist _).subset hm
  cases call with
  | addRemoteCandidate id candidate mid =>
      rw [RtcCall.added?, if_neg]
      rintro rfl
      exact h candidate mid hmem
  | _ => rfl

theorem described_frame (hf : Frame w c d) (hl : ∀ p, ¬ w.lost p) (h : Described id c) : Described id d := by
  obtain ⟨n, hn, call, hm, hcall⟩ := h
  obtain ⟨m, hm', hsame⟩ := nodeOf_frame hf hl hn
  obtain ⟨new, hnew, _⟩ := hf.calls
  refine ⟨m, hm', call, ?_, hsame ▸ hcall⟩
  rw [hnew]
  exact List.mem_append_left new hm

theorem unheard_frame (hf : Frame w c d) (hl : ∀ p, ¬ w.lost p)
    (ha : ∀ pcId candidate mid, ¬ w.added pcId candidate mid) (h : HearsOnly id c) : Unheard id c d := by
  obtain ⟨new, hnew, hallows⟩ := hf.calls
  have hold : ∀ pcId candidate mid, .addRemoteCandidate pcId candidate mid ∈ d.calls →
      .addRemoteCandidate pcId candidate mid ∈ c.calls := by
    intro pcId candidate mid hm
    rw [hnew] at hm
    exact (List.mem_append.mp hm).resolve_right fun hm => ha _ _ _ (hallows _ hm)
  have hnone : ∀ pcId, ∀ call ∈ new, call.added? pcId = none := by
    intro pcId call hm
    cases call with
    | addRemoteCandidate id candidate mid => exact absurd (hallows _ hm) (ha _ _ _)
    | _ => rfl
  refine ⟨?_, ?_, ?_⟩
  · intro pcId candidate mid hm
    obtain ⟨n, hn, hid⟩ := h pcId candidate mid (hold _ _ _ hm)
    obtain ⟨m, hm, hsame⟩ := nodeOf_frame hf hl hn
    exact ⟨m, hm, hsame.trans hid⟩
  · cases hn : nodeOf id c with
    | some n =>
        obtain ⟨m, hm, hsame⟩ := nodeOf_frame hf hl hn
        rw [addedFrom, addedFrom, hm, hn, Option.map_some, Option.map_some, hsame, hnew]
        exact added_append_of_none (hnone n.pcId)
    | none =>
        -- without a node no candidate was ever added
        rw [addedFrom, addedFrom, hn]
        cases hm : nodeOf id d with
        | none => rfl
        | some m =>
            apply added_of_no_candidate
            intro candidate mid hmem
            obtain ⟨n, hsome, _⟩ := h _ _ _ (hold _ _ _ hmem)
            rw [hn] at hsome
            cases hsome
  · exact described_frame hf hl

theorem handleCandidate_added (hd : Described id c) (h : HearsOnly id c) (candidate mid : String) :
    ∃ d, after (handleCandidate (some id) (some candidate) (some mid)) c = d ∧ HearsOnly id d ∧
      addedFrom id d = addedFrom id c ++ [(candidate, mid)] ∧ Described id d := by
  obtain ⟨n, hn, hdescribed⟩ := hd
  obtain ⟨p, hp, hget⟩ := nodeOf_eq_some hn
  refine ⟨{ c with calls := c.calls ++ [.addRemoteCandidate n.pcId candidate mid] }, ?_, ?_, ?_, ?_⟩
  · simp only [handleCandidate, after_get_bind, hp]
    rw [after_bind, readNode_some hget, readNode_after]
    rfl
  · intro pcId cand m hm
    rcases List.mem_append.mp hm with hm | hm
    · exact h pcId cand m hm
    · cases List.mem_singleton.mp hm
      exact ⟨n, hn, rfl⟩
  · change ((nodeOf id c).map _).getD [] = ((nodeOf id c).map _).getD [] ++ _
    rw [hn, Option.map_some, Option.map_some, Option.getD_some, Option.getD_some,
      added_append_of_described hdescribed]
    simp [RtcCall.added?]
  · obtain ⟨call, hm, hcall⟩ := hdescribed
    exact ⟨n, hn, call, List.mem_append_left _ hm, hcall⟩

theorem handleAnswer_described (h : ∃ n, nodeOf id c = some n) (sdp : String) :
    Described id (after (handleAnswer (some id) (some sdp)) c) := by
  obtain ⟨n, hn⟩ := h
  obtain ⟨p, hp, hget⟩ := nodeOf_eq_some hn
  simp only [handleAnswer, after_get_bind, hp]
  rw [after_bind, readNode_some hget, readNode_after]
  exact ⟨n, hn, .setRemoteDescription n.pcId sdp "answer",
    List.mem_append_right _ (List.mem_singleton.mpr rfl), by simp [RtcCall.describes]⟩

def candidateMessage (senderId receiverId : Option String) (candidate mid : String) : P2PSignalMessage :=
  ⟨senderId, receiverId, .candidate (some candidate) (some mid)⟩

theorem onPcLocalCandidateCallback_after {env : Env} {node : Ptr}
    (hn : c.peerConnectionNodeCaches.get? node = some n) (candidate mid : String) :
    after (onPcLocalCandidateCallback env node candidate mid) c =
      if env.allocMessage = false then c
      else { c with calls := c.calls ++
        [.sendMessage (candidateMessage c.localId n.remoteId candidate mid)] } := by
  rw [onPcLocalCandidateCallback, after_bind, readNode_some hn, readNode_after]
  simp only [after_get_bind]
  split
  · rfl
  · rfl

end P2PFFmpeg.Peer
