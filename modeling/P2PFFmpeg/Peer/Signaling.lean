import P2PFFmpeg.Peer.Connection
import P2PFFmpeg.Signal.Codec

namespace P2PFFmpeg.Peer

open Library Library.Program Json Codec Message

def joinRoom (env : Env) (roomId localId : Option String) : PeerM Unit :=
  modify fun ctx =>
    { ctx with
      roomId := if roomId.isSome then (if env.strdup then roomId else none) else ctx.roomId
      localId := if localId.isSome then (if env.strdup then localId else none) else ctx.localId }

/-- The opening of the CONNECT_REQUEST and OFFER branches: the node is looked up
under one id and, where it is missing, created under another and looked up again. -/
def findOrCreateNode (env : Env) (lookupId createId : Option String) :
    PeerM (Except Int (Option Ptr)) := do
  let ctx ← get
  match findPeerConnectionNodeByRemoteId ctx.peerConnectionNodeCaches lookupId with
  | some p => pure (.ok (some p))
  | none => do
      let ret ← createPeerConnection env createId
      if ret < 0 then pure (.error ret)
      else do
        let ctx ← get
        pure (.ok (findPeerConnectionNodeByRemoteId ctx.peerConnectionNodeCaches lookupId))

def handleAnswer (senderId description : Option String) : PeerM Int := do
  let ctx ← get
  match findPeerConnectionNodeByRemoteId ctx.peerConnectionNodeCaches senderId, description with
  | some p, some sdp => do
      let n ← readNode (some p)
      call (.setRemoteDescription n.pcId sdp "answer")
      pure 0
  | _, _ => pure averrorEinval

def handleCandidate (senderId candidate mid : Option String) : PeerM Int := do
  let ctx ← get
  match findPeerConnectionNodeByRemoteId ctx.peerConnectionNodeCaches senderId, candidate, mid with
  | some p, some cand, some m => do
      let n ← readNode (some p)
      call (.addRemoteCandidate n.pcId cand m)
      pure 0
  | _, _, _ => pure averrorEinval

/-- The message is decoded and handed to the handler that the peer has registered. -/
def p2pHandleSignalMessage {σ : Type} (allocated : Bool)
    (onWsMessaged : P2PSignalMessage → EStateM Fault σ Int) (json : CJson) : EStateM Fault σ Int :=
  match parseSignalMessage json with
  | none => pure averrorEinval
  | some msg => if allocated then onWsMessaged msg else pure averrorEnomem

variable {id : Option String}

theorem find_some_iff {nodes : Linked PeerConnectionNode} :
    findPeerConnectionNodeByRemoteId nodes id = nodes.find? (hasRemoteId id) := by
  cases id with
  | some id => rfl
  | none =>
      symm
      apply Linked.find?_eq_none_iff.mpr
      intro p n _
      cases h : n.remoteId <;> simp [hasRemoteId, h]

theorem remove_value (id : String) (s : P2PContext) :
    value (removePeerConnectionNodeFromList (some id)) s = some 0 := by
  rw [removePeerConnectionNodeFromList, value_get_bind]
  cases h : s.peerConnectionNodeCaches.find? (hasRemoteId (some id)) with
  | none => rfl
  | some p => rfl

theorem remove_nodes (id : String) (s : P2PContext) :
    (after (removePeerConnectionNodeFromList (some id)) s).peerConnectionNodeCaches =
      s.peerConnectionNodeCaches.unlink (hasRemoteId (some id)) := by
  rw [removePeerConnectionNodeFromList, after_get_bind]
  cases h : s.peerConnectionNodeCaches.find? (hasRemoteId (some id)) with
  | none =>
      rw [Linked.unlink_of_find?_none h]
      rfl
  | some p => rfl

theorem append_nodes (n : PeerConnectionNode) (s : P2PContext) :
    (after (appendPeerConnectionNodeToList n) s).peerConnectionNodeCaches =
      (s.peerConnectionNodeCaches.unlink (hasRemoteId n.remoteId)).link n := by
  rw [appendPeerConnectionNodeToList, after_get_bind]
  cases hf : findPeerConnectionNodeByRemoteId s.peerConnectionNodeCaches n.remoteId with
  | none =>
      rw [find_some_iff] at hf
      rw [Linked.unlink_of_find?_none hf]
      rfl
  | some p =>
      cases hid : n.remoteId with
      | none =>
          rw [hid] at hf
          cases hf
      | some id =>
          simp only [after_bind, remove_value, ← remove_nodes]
          rfl

theorem append_value (n : PeerConnectionNode) (s : P2PContext) :
    value (appendPeerConnectionNodeToList n) s = some 0 := by
  rw [appendPeerConnectionNodeToList, value_get_bind]
  cases hf : findPeerConnectionNodeByRemoteId s.peerConnectionNodeCaches n.remoteId with
  | none => rfl
  | some p =>
      cases hid : n.remoteId with
      | none =>
          rw [hid] at hf
          cases hf
      | some id =>
          simp only [value_bind, remove_value, Option.bind_some]
          rfl

/-- After an append, an id that named no node names one exactly if it is the id
of the new node. -/
theorem find_append {n : PeerConnectionNode} {s : P2PContext}
    (h : findPeerConnectionNodeByRemoteId s.peerConnectionNodeCaches id = none) :
    findPeerConnectionNodeByRemoteId
        (after (appendPeerConnectionNodeToList n) s).peerConnectionNodeCaches id =
      if hasRemoteId id n then some s.peerConnectionNodeCaches.fresh else none := by
  rw [find_some_iff] at h ⊢
  have hgone : (s.peerConnectionNodeCaches.unlink (hasRemoteId n.remoteId)).find? (hasRemoteId id)
      = none := by
    apply Linked.find?_eq_none_iff.mpr
    intro p a ha
    have hp := Linked.unlink_addrs_subset _ _ (Linked.mem_addrs_iff.mpr ⟨a, ha⟩)
    obtain ⟨b, hb⟩ := Linked.mem_addrs_iff.mp hp
    have hab : b = a := by
      cases hf : s.peerConnectionNodeCaches.find? (hasRemoteId n.remoteId) with
      | none =>
          rw [Linked.unlink_of_find?_none hf, hb] at ha
          exact Option.some.inj ha
      | some q =>
          rw [Linked.get?_unlink hf] at ha
          split at ha
          · cases ha
          · rw [hb] at ha
            exact Option.some.inj ha
    subst hab
    exact Linked.find?_eq_none_iff.mp h p b hb
  rw [append_nodes, Linked.find?_link, hgone, Option.none_or]
  rfl

theorem hasRemoteId_iff {n : PeerConnectionNode} : hasRemoteId id n = true ↔ n.remoteId = id ∧ id ≠ none := by
  cases hn : n.remoteId <;> cases id <;> simp [hasRemoteId, hn]

theorem find_get {nodes : Linked PeerConnectionNode} {p : Ptr}
    (h : findPeerConnectionNodeByRemoteId nodes id = some p) :
    ∃ n, nodes.get? p = some n ∧ n.remoteId = id ∧ id ≠ none := by
  rw [find_some_iff] at h
  obtain ⟨n, hn, hid⟩ := Linked.find?_get h
  exact ⟨n, hn, hasRemoteId_iff.mp hid⟩

section Create

variable {env : Env} {s : P2PContext}

theorem createPeerConnection_value (id : Option String) (s : P2PContext) :
    value (createPeerConnection env id) s =
      if env.createPeerConnection ≤ 0 then some averrorExternal
      else if env.allocNode = false then some averrorEnomem
      else if id = none then none else some 0 := by
  unfold createPeerConnection
  rw [value_call_bind]
  split
  · rfl
  · split
    · rfl
    · cases id with
      | none => rfl
      | some id =>
          rw [value_bind, append_value]
          rfl

theorem createPeerConnection_fault (id : Option String) (s : P2PContext) :
    fault (createPeerConnection env id) s =
      if env.creates ∧ id = none then some .nullString else none := by
  unfold createPeerConnection
  rw [fault_call_bind]
  split
  · next h => rw [if_neg (fun hc => absurd hc.1.1 (Int.not_lt.mpr h))]; rfl
  · next h =>
      split
      · next ha => rw [if_neg (fun hc => by simp [hc.1.2] at ha)]; rfl
      · next ha =>
          have hcreates : env.creates := ⟨Int.not_le.mp h, by simpa using ha⟩
          cases id with
          | none => simp [hcreates]
          | some id =>
              rw [fault_bind, append_value]
              simp

/-- Where an id named no node, creating a connection makes it name one exactly
if the node gets this id. -/
theorem find_createPeerConnection {lookupId createId : Option String}
    (h : findPeerConnectionNodeByRemoteId s.peerConnectionNodeCaches lookupId = none)
    (hv : value (createPeerConnection env createId) s = some 0) : findPeerConnectionNodeByRemoteId
        (after (createPeerConnection env createId) s).peerConnectionNodeCaches lookupId =
      if env.strdup = true ∧ createId = lookupId then some s.peerConnectionNodeCaches.fresh
      else none := by
  rw [createPeerConnection_value] at hv
  split at hv
  · cases hv
  · next hc =>
      split at hv
      · cases hv
      · next ha =>
          cases createId with
          | none => cases hv
          | some id =>
              unfold createPeerConnection
              simp only [if_neg hc, if_neg ha, after_bind, append_value, after_pure]
              refine (find_append ?_).trans ?_
              · exact h
              simp only [hasRemoteId_iff]
              refine if_congr ?_ rfl rfl
              cases hd : env.strdup with
              | false =>
                  simp only [Bool.false_eq_true, if_false, false_and, iff_false, not_and, ne_eq,
                    Decidable.not_not]
                  exact fun he => he.symm
              | true =>
                  simp only [if_true, true_and]
                  exact ⟨fun he => he.1, fun he => ⟨he, by simp [← he]⟩⟩

theorem createPeerConnection_nodes {id : String} (hc : env.creates) (hd : env.strdup = true) :
    ∃ n, (after (createPeerConnection env (some id)) s).peerConnectionNodeCaches =
      (s.peerConnectionNodeCaches.unlink (hasRemoteId (some id))).link n := by
  unfold createPeerConnection
  simp only [if_neg (Int.not_le.mpr hc.1), hc.2, hd, if_true, after_bind, append_value,
    Bool.true_eq_false, if_false, after_pure]
  exact ⟨_, append_nodes _ _⟩

variable (env) {lookupId : Option String} (createId : Option String)

theorem findOrCreateNode_found {p : Ptr}
    (h : findPeerConnectionNodeByRemoteId s.peerConnectionNodeCaches lookupId = some p) :
    value (findOrCreateNode env lookupId createId) s = some (.ok (some p)) ∧
      after (findOrCreateNode env lookupId createId) s = s ∧
      fault (findOrCreateNode env lookupId createId) s = none := by
  simp only [findOrCreateNode, value_get_bind, after_get_bind, fault_get_bind, h]
  exact ⟨rfl, rfl, rfl⟩

theorem findOrCreateNode_missing
    (h : findPeerConnectionNodeByRemoteId s.peerConnectionNodeCaches lookupId = none) :
    value (findOrCreateNode env lookupId createId) s =
        ((value (createPeerConnection env createId) s).map fun ret =>
          if ret < 0 then .error ret
          else .ok (findPeerConnectionNodeByRemoteId
            (after (createPeerConnection env createId) s).peerConnectionNodeCaches lookupId)) ∧
      after (findOrCreateNode env lookupId createId) s =
        after (createPeerConnection env createId) s ∧
      fault (findOrCreateNode env lookupId createId) s =
        fault (createPeerConnection env createId) s := by
  refine ⟨?_, ?_, ?_⟩
  · rw [findOrCreateNode, value_get_bind]
    simp only [h]
    rw [value_bind]
    cases hv : value (createPeerConnection env createId) s with
    | none => rfl
    | some ret =>
        rw [Option.bind_some, Option.map_some]
        split
        · rfl
        · rfl
  · rw [findOrCreateNode, after_get_bind]
    simp only [h]
    rw [after_bind]
    cases hv : value (createPeerConnection env createId) s with
    | none => rfl
    | some ret =>
        simp only
        split
        · rfl
        · rfl
  · rw [findOrCreateNode, fault_get_bind]
    simp only [h]
    rw [fault_bind]
    cases hv : value (createPeerConnection env createId) s with
    | none => rfl
    | some ret =>
        rw [(fault_eq_none_iff _ _).mpr ⟨ret, hv⟩]
        simp only
        split
        · rfl
        · rfl

end Create

variable {w : Permit}

theorem frame_joinRoom (env : Env) (roomId localId : Option String)
    (h : localId.isSome → w.named (if env.strdup then localId else none)) :
    Keeps (Frame w) (joinRoom env roomId localId) := by
  apply keeps_modify
  intro s
  refine { Frame.refl s with localId := ?_ }
  change _ = _ ∨ w.named (if localId.isSome then _ else _)
  by_cases hl : localId.isSome
  · right
    rw [if_pos hl]
    exact h hl
  · left
    simp [hl]

theorem frame_findOrCreateNode (env : Env) (lookupId createId : Option String) (s : P2PContext)
    (hc : CreatePermit w env s)
    (hw : findPeerConnectionNodeByRemoteId s.peerConnectionNodeCaches lookupId = none →
      env.creates → env.strdup = true → ∀ p, findPeerConnectionNodeByRemoteId s.peerConnectionNodeCaches createId = some p → w.lost p) :
    Frame w s (after (findOrCreateNode env lookupId createId) s) := by
  rw [findOrCreateNode, after_get_bind]
  split
  · exact Frame.refl s
  · next hnone =>
      refine related_bind (frame_createPeerConnection env createId s hc (hw hnone)) ?_
      intro ret _
      split
      · exact Frame.refl _
      · exact Frame.refl _

theorem frame_handleAnswer (senderId description : Option String) :
    Keeps (Frame w) (handleAnswer senderId description) := by
  apply keeps_get_bind
  intro ctx
  split
  · apply keeps_bind (frame_readNode _)
    intro n
    exact keeps_bind (frame_call fun _ => by trivial) (fun _ => keeps_pure _)
  · exact keeps_pure _

theorem frame_handleCandidate (senderId candidate mid : Option String)
    (hw : ∀ pcId cand m, candidate = some cand → mid = some m → w.added pcId cand m) :
    Keeps (Frame w) (handleCandidate senderId candidate mid) := by
  apply keeps_get_bind
  intro ctx
  split
  · apply keeps_bind (frame_readNode _)
    intro n
    exact keeps_bind (frame_call fun _ => hw _ _ _ rfl rfl) (fun _ => keeps_pure _)
  · exact keeps_pure _

def opens (msg : P2PSignalMessage) : Prop := msg.type = .connectRequest ∨ msg.type = .offer

structure HandlesPermit (w : Permit) (env : Env) (msg : P2PSignalMessage) (s : P2PContext) :
    Prop where
  create : opens msg → CreatePermit w env s
  fails : opens msg → env.failsCallback → ∀ pcId, w.closed pcId
  added : ∀ pcId candidate mid, msg.body = .candidate (some candidate) (some mid) →
    w.added pcId candidate mid
  named : ∀ roomId role localId, msg.body = .roomJoined roomId role localId → localId.isSome →
    w.named (if env.strdup then localId else none)

def handled (env : Env) (msg : P2PSignalMessage) (s : P2PContext) (lost wiped : Ptr → Prop)
    (sent : P2PSignalMessage → Prop) : Permit :=
  { Permit.nothing with
    lost := lost
    wiped := wiped
    sent := sent
    named := fun id => ∃ roomId role localId, msg.body = .roomJoined roomId role localId ∧
      localId.isSome ∧ id = if env.strdup then localId else none
    opened := fun pcId => pcId = env.createPeerConnection ∧ opens msg
    linked := fun p pcId => p = s.peerConnectionNodeCaches.fresh ∧
      pcId = env.createPeerConnection ∧ env.creates ∧ opens msg
    closed := fun pcId => opens msg ∧
      ((pcId = env.createPeerConnection ∧ ¬ env.creates) ∨ env.failsCallback)
    added := fun _ candidate mid => msg.body = .candidate (some candidate) (some mid) }

theorem handled_permit (env : Env) (msg : P2PSignalMessage) (s : P2PContext)
    (lost wiped : Ptr → Prop) (sent : P2PSignalMessage → Prop) :
    HandlesPermit (handled env msg s lost wiped sent) env msg s where
  create := fun ho =>
    { opened := ⟨rfl, ho⟩
      linked := fun h => ⟨rfl, rfl, h, ho⟩
      closed := fun h => ⟨ho, Or.inl ⟨rfl, h⟩⟩ }
  fails := fun ho h _ => ⟨ho, Or.inr h⟩
  added := fun _ _ _ h => h
  named := fun roomId role localId hb hl => ⟨roomId, role, localId, hb, hl, rfl⟩

end P2PFFmpeg.Peer
