import P2PFFmpeg.Receiver.Runs
import P2PFFmpeg.Sender.Runs

namespace P2PFFmpeg

open Library Library.Program Library.Transition Json Codec Message Peer

/-- The faults of a NULL node that is read through and of a NULL id that is copied. -/
def NullFault (e : Fault) : Prop := e = .nullNode ∨ e = .nullString

namespace Peer

theorem avoids_call (c : RtcCall) : Avoids NullFault (call c) := avoids_modify _

theorem avoids_readNode (p : Ptr) : Avoids NullFault (readNode (some p)) := by
  apply avoids_get_bind
  intro ctx
  simp only
  split
  · exact avoids_pure _
  · exact avoids_throw (by simp [NullFault])

theorem avoids_modifyNode (p : Ptr) (f : PeerConnectionNode → PeerConnectionNode) :
    Avoids NullFault (modifyNode p f) := avoids_modify _

theorem avoids_registerCallbacks (env : Env) (pcId : Int) (callbacks : List PcCallback) :
    Avoids NullFault (registerCallbacks env pcId callbacks) := by
  induction callbacks with
  | nil => exact avoids_pure _
  | cons callback callbacks ih =>
      apply avoids_bind (avoids_call _)
      intro _
      split
      · exact avoids_bind (avoids_call _) (fun _ => avoids_pure _)
      · exact ih

theorem avoids_initPeerConnection (env : Env) (pcId : Int) :
    Avoids NullFault (initPeerConnection env pcId) := by
  apply avoids_get_bind
  intro _
  exact avoids_bind (avoids_call _) (fun _ => avoids_registerCallbacks _ _ _)

theorem avoids_sendSignalMessage (env : Env) (msg : P2PSignalMessage) :
    Avoids NullFault (sendSignalMessage env msg) :=
  avoids_bind (avoids_call _) (fun _ => avoids_pure _)

theorem avoids_setLocalDescription (node : Ptr) (role : String) :
    Avoids NullFault (setLocalDescription node role) :=
  avoids_bind (avoids_readNode node) (fun _ => avoids_call _)

theorem avoids_sendDescription (env : Env) (node : Ptr) (role : String) :
    Avoids NullFault (sendDescription env node role) := by
  apply avoids_bind (avoids_readNode node)
  intro n
  apply avoids_get_bind
  intro ctx
  split
  · exact avoids_throw (by simp [NullFault])
  · exact avoids_sendSignalMessage _ _

theorem avoids_handleAnswer (senderId description : Option String) :
    Avoids NullFault (handleAnswer senderId description) := by
  apply avoids_get_bind
  intro ctx
  split
  · apply avoids_bind (avoids_readNode _)
    intro n
    exact avoids_bind (avoids_call _) (fun _ => avoids_pure _)
  · exact avoids_pure _

theorem avoids_handleCandidate (senderId candidate mid : Option String) :
    Avoids NullFault (handleCandidate senderId candidate mid) := by
  apply avoids_get_bind
  intro ctx
  split
  · apply avoids_bind (avoids_readNode _)
    intro n
    exact avoids_bind (avoids_call _) (fun _ => avoids_pure _)
  · exact avoids_pure _

theorem avoids_markSelected (node : Ptr) : Avoids NullFault (markSelected node) :=
  avoids_bind (avoids_readNode node) (fun _ => avoids_modifyNode _ _)

theorem avoids_sendProbePacketsFrom (env : Env) (node : Ptr) (trackId : Int) (is : List Nat) :
    Avoids NullFault (sendProbePacketsFrom env node trackId is) := by
  induction is with
  | nil => exact avoids_pure _
  | cons i is ih =>
      apply avoids_bind (avoids_readNode node)
      intro n
      apply avoids_bind (avoids_call _)
      intro _
      split
      · exact avoids_pure _
      · exact avoids_bind (avoids_modifyNode _ _) (fun _ => ih)

theorem avoids_sendProbePackets (env : Env) (node : Ptr) : Avoids NullFault (sendProbePackets env node) := by
  apply avoids_bind (avoids_readNode node)
  intro n
  split
  · exact avoids_pure _
  · split
    · exact avoids_throw (by simp [NullFault])
    · split
      · exact avoids_pure _
      · exact avoids_bind (avoids_modifyNode _ _) (fun _ => avoids_sendProbePacketsFrom _ _ _ _)

theorem avoids_appendPeerConnectionTrackToList (node : Ptr) (track : PeerConnectionTrack) :
    Avoids NullFault (appendPeerConnectionTrackToList node track) := by
  apply avoids_bind (avoids_readNode node)
  intro n
  split
  · exact avoids_modify _
  · apply avoids_bind (avoids_modify _)
    intro _
    exact avoids_bind (avoids_call _) (fun _ => avoids_modify _)

theorem avoids_registerChannelCallbacks (env : Env) (trackId : Int) (callbacks : List ChannelCallback) :
    Avoids NullFault (registerChannelCallbacks env trackId callbacks) := by
  induction callbacks with
  | nil => exact avoids_pure _
  | cons callback callbacks ih =>
      apply avoids_bind (avoids_call _)
      intro _
      split
      · exact avoids_pure _
      · exact ih

theorem avoids_setupTrackCommonLogic (env : Env) (node : Ptr) (track : PeerConnectionTrack) :
    Avoids NullFault (setupTrackCommonLogic env node track) := by
  apply avoids_bind (avoids_appendPeerConnectionTrackToList _ _)
  intro _
  exact avoids_bind (avoids_call _) (fun _ => avoids_registerChannelCallbacks _ _ _)

theorem avoids_initSendTrackEx (env : Env) (stream : AVStream) (node : Ptr) (trackId : Int)
    (index : Nat) : Avoids NullFault (initSendTrackEx env stream node trackId index) := by
  apply avoids_bind (avoids_readNode node)
  intro n
  split
  · exact avoids_pure _
  · split
    · exact avoids_pure _
    · apply avoids_bind (avoids_modifyNode _ _)
      intro _
      apply avoids_bind (avoids_setupTrackCommonLogic _ _ _)
      intro ret
      split
      · exact avoids_bind (avoids_doWhen _ (avoids_call _)) (fun _ => avoids_pure _)
      · exact avoids_pure _

theorem avoids_createSendMediaTrack (env : Env) (stream : AVStream) (p : Ptr) (index : Nat) :
    Avoids NullFault (createSendMediaTrack env stream (some p) index) := by
  unfold createSendMediaTrack
  split
  · exact avoids_pure _
  · apply avoids_bind (avoids_readNode p)
    intro n
    split
    · split
      · exact avoids_throw (by simp [NullFault])
      · split
        · exact avoids_pure _
        · apply avoids_bind (avoids_call _)
          intro _
          apply avoids_bind (avoids_initSendTrackEx _ _ _ _ _)
          intro ret
          split
          · exact avoids_bind (avoids_call _) (fun _ => avoids_pure _)
          · exact avoids_pure _
    · exact avoids_pure _

theorem avoids_createSendMediaTracks (env : Env) (p : Ptr) (index : Nat) (streams : List AVStream) :
    Avoids NullFault (createSendMediaTracks env (some p) index streams) := by
  induction streams generalizing index with
  | nil => exact avoids_pure _
  | cons stream streams ih =>
      apply avoids_bind (avoids_createSendMediaTrack _ _ _ _)
      intro ret
      split
      · exact avoids_pure _
      · exact ih _

theorem avoids_initProbeTrackEx (env : Env) (node : Ptr) : Avoids NullFault (initProbeTrackEx env node) := by
  apply avoids_bind (avoids_readNode node)
  intro n
  apply avoids_bind (avoids_call _)
  intro _
  split
  · exact avoids_pure _
  · apply avoids_bind (avoids_setupTrackCommonLogic _ _ _)
    intro ret
    split
    · exact avoids_bind (avoids_call _) (fun _ => avoids_pure _)
    · exact avoids_pure _

theorem avoids_createProbeTrack (env : Env) (p : Ptr) : Avoids NullFault (createProbeTrack env (some p)) := by
  apply avoids_bind (avoids_readNode p)
  intro n
  split
  · split
    · exact avoids_pure _
    · apply avoids_bind (avoids_initProbeTrackEx _ _)
      intro ret
      split
      · exact avoids_bind (avoids_call _) (fun _ => avoids_pure _)
      · exact avoids_bind (avoids_modifyNode _ _) (fun _ => avoids_pure _)
  · exact avoids_pure _

inductive FoundOrCreated (env : Env) (lookupId createId : Option String) (c : P2PContext) : Prop
  | node (p : Ptr) :
      findPeerConnectionNodeByRemoteId c.peerConnectionNodeCaches lookupId = some p ∨
        (createId ≠ none ∧ env.strdup = true ∧ lookupId = createId) →
      value (findOrCreateNode env lookupId createId) c = some (.ok (some p)) →
      FoundOrCreated env lookupId createId c
  | failed (ret : Int) : ¬ env.creates →
      value (findOrCreateNode env lookupId createId) c = some (.error ret) →
      FoundOrCreated env lookupId createId c
  | otherId : findPeerConnectionNodeByRemoteId c.peerConnectionNodeCaches lookupId = none →
      env.creates → ¬ (env.strdup = true ∧ lookupId = createId) →
      value (findOrCreateNode env lookupId createId) c = some (.ok none) →
      FoundOrCreated env lookupId createId c
  | nullId : findPeerConnectionNodeByRemoteId c.peerConnectionNodeCaches lookupId = none →
      env.creates → createId = none →
      fault (findOrCreateNode env lookupId createId) c = some .nullString →
      FoundOrCreated env lookupId createId c

theorem foundOrCreated (env : Env) (lookupId createId : Option String) (c : P2PContext) :
    FoundOrCreated env lookupId createId c := by
  cases hf : findPeerConnectionNodeByRemoteId c.peerConnectionNodeCaches lookupId with
  | some p => exact .node p (Or.inl hf) (findOrCreateNode_found env createId hf).1
  | none =>
      obtain ⟨hvalue, _, hfault⟩ := findOrCreateNode_missing env createId hf
      have hcreate := @createPeerConnection_value env createId c
      by_cases hc : env.creates
      · rw [if_neg (Int.not_le.mpr hc.1), if_neg (by simp [hc.2])] at hcreate
        by_cases hid : createId = none
        · refine .nullId hf hc hid ?_
          rw [hfault, createPeerConnection_fault, if_pos ⟨hc, hid⟩]
        · rw [if_neg hid] at hcreate
          rw [hcreate, Option.map_some, find_createPeerConnection hf hcreate] at hvalue
          by_cases hsame : env.strdup = true ∧ createId = lookupId
          · rw [if_pos hsame] at hvalue
            exact .node _ (Or.inr ⟨hid, hsame.1, hsame.2.symm⟩) hvalue
          · rw [if_neg hsame] at hvalue
            exact .otherId hf hc (fun h => hsame ⟨h.1, h.2.symm⟩) hvalue
      · obtain ⟨ret, hret, hneg⟩ : ∃ ret, value (createPeerConnection env createId) c = some ret ∧
            ret < 0 := by
          by_cases hpc : env.createPeerConnection ≤ 0
          · rw [if_pos hpc] at hcreate
            exact ⟨_, hcreate, by decide⟩
          · have halloc : env.allocNode = false := by
              by_contra hne
              exact hc ⟨Int.not_le.mp hpc, by simpa using hne⟩
            rw [if_neg hpc, if_pos halloc] at hcreate
            exact ⟨_, hcreate, by decide⟩
        rw [hret, Option.map_some, if_pos hneg] at hvalue
        exact .failed ret hc hvalue

theorem fault_readNode_none (c : P2PContext) : fault (readNode none) c = some .nullNode := rfl

theorem createSendMediaTracks_none (env : Env) (index : Nat) (streams : List AVStream) (c : P2PContext) :
    fault (createSendMediaTracks env none index streams) c = some .nullNode ∨
      value (createSendMediaTracks env none index streams) c = some none := by
  induction streams generalizing index with
  | nil => exact Or.inr rfl
  | cons stream streams ih =>
      by_cases hother : stream.codecType = .other
      · have hskip : createSendMediaTracks env none index (stream :: streams) =
            createSendMediaTracks env none (index + 1) streams := by
          rw [createSendMediaTracks, createSendMediaTrack, if_pos hother, pure_bind]
        rw [hskip]
        exact ih (index + 1)
      · left
        rw [createSendMediaTracks, createSendMediaTrack, if_neg hother]
        rfl

end Peer

structure BranchIds where
  lookupId : Option String
  createId : Option String

/-- The branch hands a NULL id to create_peer_connection. -/
def BranchIds.HandsNull (ids : BranchIds) (c : P2PContext) : Prop :=
  findPeerConnectionNodeByRemoteId c.peerConnectionNodeCaches ids.lookupId = none ∧
    ids.createId = none

/-- Neither does the program die of a NULL pointer nor do the ids of its branch
lead to a NULL id. -/
def NullSafe {α : Type} (x : PeerM α) (ids : Option BranchIds) (c : P2PContext) : Prop :=
  AvoidsAt NullFault x c ∧ ∀ b, ids = some b → ¬ b.HandsNull c

theorem nullSafe_of_avoids {α : Type} {x : PeerM α} (h : Avoids NullFault x) (c : P2PContext) :
    NullSafe x none c := by
  constructor
  · exact h c
  · intro b hb
    cases hb

/-- A branch that starts with a node looked up or created is safe where a missing
node has an id and, if the branch requires the node, is found again. -/
theorem nullSafe_findOrCreateNode {α : Type} {env : Env} {lookupId createId : Option String}
    {f : Except Int (Option Ptr) → PeerM α} (required : Prop)
    (hnode : ∀ p, Avoids NullFault (f (.ok (some p)))) (hfailed : ∀ ret, Avoids NullFault (f (.error ret)))
    (hnone : ∀ c, AvoidsAt NullFault (f (.ok none)) c ↔ ¬ required) (c : P2PContext) :
    NullSafe (findOrCreateNode env lookupId createId >>= f) (some ⟨lookupId, createId⟩) c ↔
      (findPeerConnectionNodeByRemoteId c.peerConnectionNodeCaches lookupId = none →
        createId ≠ none ∧ (required → env.creates → env.strdup = true ∧ lookupId = createId)) := by
  have hids : (∀ b, some (⟨lookupId, createId⟩ : BranchIds) = some b → ¬ b.HandsNull c) ↔
      (findPeerConnectionNodeByRemoteId c.peerConnectionNodeCaches lookupId = none →
        createId ≠ none) := by
    constructor
    · intro h hf hid
      exact h _ rfl ⟨hf, hid⟩
    · rintro h b hb ⟨hf, hid⟩
      cases hb
      exact h hf hid
  rw [NullSafe, hids]
  cases foundOrCreated env lookupId createId c with
  | node p hp hvalue =>
      rw [avoidsAt_bind_of_value hvalue]
      simp only [hnode p _, true_and]
      constructor
      · intro h hf
        refine ⟨h hf, ?_⟩
        intro _ _
        rcases hp with hp | hp
        · rw [hf] at hp
          cases hp
        · exact hp.2
      · intro h hf
        exact (h hf).1
  | failed ret hc hvalue =>
      rw [avoidsAt_bind_of_value hvalue]
      simp only [hfailed ret _, true_and]
      constructor
      · intro h hf
        exact ⟨h hf, fun _ hc' => absurd hc' hc⟩
      · intro h hf
        exact (h hf).1
  | otherId hf hc hother hvalue =>
      rw [avoidsAt_bind_of_value hvalue, hnone]
      constructor
      · rintro ⟨hreq, h⟩ _
        exact ⟨h hf, fun hr => absurd hr hreq⟩
      · intro h
        obtain ⟨hid, hsame⟩ := h hf
        exact ⟨fun hr => hother (hsame hr hc), fun _ => hid⟩
  | nullId hf hc hid hfault =>
      rw [avoidsAt_bind_of_fault hfault]
      apply iff_of_false
      · intro h
        exact h.1 (Or.inr rfl)
      · intro h
        exact (h hf).1 hid

namespace Receiver

def branchIds (msg : P2PSignalMessage) : Option BranchIds :=
  match msg.body with
  | .connectRequest targetId => some ⟨targetId, msg.senderId⟩
  | .offer _ => some ⟨msg.senderId, msg.senderId⟩
  | _ => none

/-- A missing node of a CONNECT_REQUEST can be created so that it is found under
its target, and an OFFER that needs a node has a sender. -/
def NodeUsable (env : Env) (msg : P2PSignalMessage) (c : P2PContext) : Prop :=
  match msg.body with
  | .connectRequest targetId =>
      findPeerConnectionNodeByRemoteId c.peerConnectionNodeCaches targetId = none →
        msg.senderId ≠ none ∧ (env.creates → env.strdup = true ∧ targetId = msg.senderId)
  | .offer _ =>
      findPeerConnectionNodeByRemoteId c.peerConnectionNodeCaches msg.senderId = none →
        msg.senderId ≠ none
  | _ => True

theorem receiverHead_nullSafe (env : Env) (msg : P2PSignalMessage) (c : P2PContext) :
    NullSafe (receiverHead env msg) (branchIds msg) c ↔ NodeUsable env msg c := by
  cases hb : msg.body with
  | connectRequest targetId =>
      simp only [receiverHead, branchIds, NodeUsable, hb]
      refine (nullSafe_findOrCreateNode True ?_ ?_ ?_ c).trans ?_
      · intro p
        apply avoids_bind (avoids_readNode p)
        intro n
        exact avoids_bind (avoids_initPeerConnection _ _) (fun _ => avoids_pure _)
      · intro ret
        exact avoids_pure _
      · intro c
        rw [avoidsAt_bind_of_fault (fault_readNode_none c)]
        simp [NullFault]
      · rw [true_imp_iff]
  | offer description =>
      simp only [receiverHead, branchIds, NodeUsable, hb]
      refine (nullSafe_findOrCreateNode False ?_ ?_ ?_ c).trans ?_
      · intro p
        cases description with
        | none => exact avoids_pure _
        | some sdp =>
            apply avoids_bind (avoids_readNode p)
            intro n
            apply avoids_bind (avoids_call _)
            intro _
            apply avoids_bind (avoids_initPeerConnection _ _)
            intro _
            exact avoids_bind (avoids_setLocalDescription _ _) (fun _ => avoids_pure _)
      · intro ret
        exact avoids_pure _
      · intro c
        exact iff_of_true (avoids_pure _ c) not_false
      · rw [false_imp_iff, and_true]
  | roomJoined roomId role localId =>
      simp only [receiverHead, branchIds, NodeUsable, hb, iff_true]
      exact nullSafe_of_avoids (avoids_bind (avoids_modify _) (fun _ => avoids_pure _)) c
  | answer description =>
      simp only [receiverHead, branchIds, NodeUsable, hb, iff_true]
      exact nullSafe_of_avoids (avoids_bind (avoids_handleAnswer _ _) (fun _ => avoids_pure _)) c
  | candidate candidate mid =>
      simp only [receiverHead, branchIds, NodeUsable, hb, iff_true]
      exact nullSafe_of_avoids (avoids_bind (avoids_handleCandidate _ _ _) (fun _ => avoids_pure _)) c
  | streamReady streamId =>
      simp only [receiverHead, branchIds, NodeUsable, hb, iff_true]
      refine nullSafe_of_avoids (avoids_get_bind ?_) c
      intro ctx
      split
      · split
        · exact avoids_pure _
        · exact avoids_pure _
      · exact avoids_pure _
  | _ =>
      simp only [receiverHead, branchIds, NodeUsable, hb, iff_true]
      exact nullSafe_of_avoids (avoids_pure _) c

theorem avoids_runReceiverOps (env : Env) (ops : List ReceiverOp) :
    Avoids NullFault (runReceiverOps env ops) := by
  induction ops with
  | nil => exact avoids_pure _
  | cons op ops ih =>
      refine avoids_bind ?_ (fun _ => ih)
      cases op with
      | sendDescription node role =>
          exact avoids_zoom (avoids_bind (avoids_sendDescription _ _ _) (fun _ => avoids_pure _))
      | setState st => exact avoids_modify _

theorem handler_avoidsAt (env : Env) (msg : P2PSignalMessage) (ctx : P2PRtpDemuxContext) :
    AvoidsAt NullFault (p2pRtpDemuxSignalHandler env msg) ctx ↔
      AvoidsAt NullFault (receiverHead env msg) ctx.p2pContext := by
  refine (avoidsAt_bind_iff ?_ ctx).trans avoidsAt_zoom
  intro plan
  exact avoids_bind (avoids_runReceiverOps _ _) (fun _ => avoids_pure _)

end Receiver

namespace Sender

def branchIds (msg : P2PSignalMessage) : Option BranchIds :=
  match msg.body with
  | .connectRequest targetId => some ⟨targetId, targetId⟩
  | .offer _ => some ⟨msg.senderId, msg.senderId⟩
  | _ => none

/-- A missing node of a CONNECT_REQUEST or an OFFER has an id and can be created. -/
def NodeUsable (env : Env) (msg : P2PSignalMessage) (c : P2PContext) : Prop :=
  match msg.body with
  | .connectRequest targetId =>
      findPeerConnectionNodeByRemoteId c.peerConnectionNodeCaches targetId = none →
        targetId ≠ none ∧ (env.creates → env.strdup = true)
  | .offer _ =>
      findPeerConnectionNodeByRemoteId c.peerConnectionNodeCaches msg.senderId = none →
        msg.senderId ≠ none ∧ (env.creates → env.strdup = true)
  | _ => True

theorem avoids_senderStreamRequest (env : Env) (senderId : Option String) :
    Avoids NullFault (senderStreamRequest env senderId) := by
  apply avoids_get_bind
  intro ctx
  split
  · exact avoids_pure _
  · apply avoids_bind (avoids_readNode _)
    intro n
    split
    · exact avoids_pure _
    · split
      · exact avoids_pure _
      · refine avoids_bind (avoids_get_bind ?_) (fun _ => avoids_pure _)
        intro ctx'
        split
        · exact avoids_pure _
        · exact avoids_bind (avoids_sendSignalMessage _ _) (fun _ => avoids_pure _)

theorem senderHead_nullSafe (env : Env) (streams : List AVStream) (msg : P2PSignalMessage) (c : P2PContext) :
    NullSafe (senderHead env streams msg) (branchIds msg) c ↔ NodeUsable env msg c := by
  cases hb : msg.body with
  | connectRequest targetId =>
      simp only [senderHead, branchIds, NodeUsable, hb]
      refine (nullSafe_findOrCreateNode True ?_ ?_ ?_ c).trans ?_
      · intro p
        apply avoids_bind (avoids_createSendMediaTracks _ _ _ _)
        intro ret
        split
        · exact avoids_pure _
        · apply avoids_bind (avoids_createProbeTrack _ _)
          intro ret
          split
          · exact avoids_pure _
          · apply avoids_bind (avoids_readNode p)
            intro n
            apply avoids_bind (avoids_initPeerConnection _ _)
            intro _
            exact avoids_bind (avoids_setLocalDescription _ _) (fun _ => avoids_pure _)
      · intro ret
        exact avoids_pure _
      · intro c
        refine iff_of_false ?_ (not_not_intro trivial)
        rcases createSendMediaTracks_none env 0 streams c with hfault | hvalue
        · rw [avoidsAt_bind_of_fault hfault]
          simp [NullFault]
        · rw [avoidsAt_bind_of_value hvalue, createProbeTrack, bind_assoc,
            avoidsAt_bind_of_fault (fault_readNode_none _)]
          simp [NullFault]
      · simp
  | offer description =>
      simp only [senderHead, branchIds, NodeUsable, hb]
      refine (nullSafe_findOrCreateNode True ?_ ?_ ?_ c).trans ?_
      · intro p
        apply avoids_bind (avoids_readNode p)
        intro n
        split
        · exact avoids_bind (avoids_call _) (fun _ => avoids_pure _)
        · exact avoids_pure _
      · intro ret
        exact avoids_pure _
      · intro c
        rw [avoidsAt_bind_of_fault (fault_readNode_none c)]
        simp [NullFault]
      · simp
  | roomJoined roomId role localId =>
      simp only [senderHead, branchIds, NodeUsable, hb, iff_true]
      exact nullSafe_of_avoids (avoids_bind (avoids_modify _) (fun _ => avoids_pure _)) c
  | answer description =>
      simp only [senderHead, branchIds, NodeUsable, hb, iff_true]
      exact nullSafe_of_avoids (avoids_bind (avoids_handleAnswer _ _) (fun _ => avoids_pure _)) c
  | candidate candidate mid =>
      simp only [senderHead, branchIds, NodeUsable, hb, iff_true]
      exact nullSafe_of_avoids (avoids_bind (avoids_handleCandidate _ _ _) (fun _ => avoids_pure _)) c
  | probeRequest probeId packetSize expectedPackets timeoutMs =>
      simp only [senderHead, branchIds, NodeUsable, hb, iff_true]
      refine nullSafe_of_avoids (avoids_get_bind ?_) c
      intro ctx
      split
      · exact avoids_pure _
      · exact avoids_bind (avoids_modifyNode _ _) (fun _ => avoids_pure _)
  | streamRequest streamId =>
      simp only [senderHead, branchIds, NodeUsable, hb, iff_true]
      exact nullSafe_of_avoids (avoids_senderStreamRequest env msg.senderId) c
  | _ =>
      simp only [senderHead, branchIds, NodeUsable, hb, iff_true]
      exact nullSafe_of_avoids (avoids_pure _) c

theorem avoids_runSenderOp (env : Env) (op : SenderOp) : Avoids NullFault (runSenderOp env op) := by
  cases op with
  | setState st => exact avoids_modify _
  | sendDescription node role =>
      exact avoids_zoom (avoids_bind (avoids_sendDescription _ _ _) (fun _ => avoids_pure _))
  | initPeerConnection pcId =>
      exact avoids_zoom (avoids_bind (avoids_initPeerConnection _ _) (fun _ => avoids_pure _))
  | sendProbePackets node =>
      exact avoids_zoom (avoids_bind (avoids_sendProbePackets _ _) (fun _ => avoids_pure _))
  | storeSelected node =>
      rw [runSenderOp, onPeer]
      exact avoids_zoom (avoids_modify _)
  | storeStatus node => exact avoids_zoom (avoids_markSelected node)

theorem avoids_runSenderOps (env : Env) (ops : List SenderOp) : Avoids NullFault (runSenderOps env ops) := by
  induction ops with
  | nil => exact avoids_pure _
  | cons op ops ih => exact avoids_bind (avoids_runSenderOp env op) (fun _ => ih)

theorem handler_avoidsAt (env : Env) (msg : P2PSignalMessage) (ctx : P2PRtpMuxContext) :
    AvoidsAt NullFault (p2pRtpMuxSignalHandler env msg) ctx ↔
      AvoidsAt NullFault (senderHead env ctx.streams msg) ctx.p2pContext := by
  rw [p2pRtpMuxSignalHandler, avoidsAt_get_bind]
  refine (avoidsAt_bind_iff ?_ ctx).trans avoidsAt_zoom
  intro plan
  exact avoids_bind (avoids_runSenderOps _ _) (fun _ => avoids_pure _)

end Sender

/-- A peer handles a JSON message without reading through a NULL node, copying a
NULL id or handing one to create_peer_connection. -/
def HandledSafely {σ : Type} (allocated : Bool) (handler : P2PSignalMessage → EStateM Fault σ Int)
    (branchIds : P2PSignalMessage → Option BranchIds) (peer : σ → P2PContext) (json : CJson)
    (s : σ) : Prop :=
  AvoidsAt NullFault (p2pHandleSignalMessage allocated handler json) s ∧
    ∀ msg, parseSignalMessage json = some msg → allocated = true →
      ∀ b, branchIds msg = some b → ¬ b.HandsNull (peer s)

theorem handledSafely_iff {σ : Type} {allocated : Bool} {handler : P2PSignalMessage → EStateM Fault σ Int}
    {branchIds : P2PSignalMessage → Option BranchIds} {peer : σ → P2PContext} {json : CJson} {s : σ} :
    HandledSafely allocated handler branchIds peer json s ↔
      ∀ msg, parseSignalMessage json = some msg → allocated = true →
        AvoidsAt NullFault (handler msg) s ∧ ∀ b, branchIds msg = some b → ¬ b.HandsNull (peer s) := by
  rw [HandledSafely, p2pHandleSignalMessage]
  cases hparse : parseSignalMessage json with
  | none =>
      simp only [reduceCtorEq, false_imp_iff, implies_true, and_true, iff_true]
      exact avoids_pure _ s
  | some msg =>
      simp only [Option.some.injEq, forall_eq']
      cases allocated with
      | false =>
          simp only [Bool.false_eq_true, if_false, false_imp_iff, and_true, iff_true]
          exact avoids_pure _ s
      | true => simp only [if_true, true_imp_iff]

/-- A peer handles a JSON message safely exactly if the node that its branch
needs, where it is missing, can be created under an id by which it is found. -/
theorem handled_safely_iff (env : Env) (allocated : Bool) (json : CJson) :
    (∀ ctx, HandledSafely allocated (Receiver.p2pRtpDemuxSignalHandler env) Receiver.branchIds
        Receiver.P2PRtpDemuxContext.p2pContext json ctx ↔
      ∀ msg, parseSignalMessage json = some msg → allocated = true →
        Receiver.NodeUsable env msg ctx.p2pContext) ∧
    ∀ ctx, HandledSafely allocated (Sender.p2pRtpMuxSignalHandler env) Sender.branchIds
        Sender.P2PRtpMuxContext.p2pContext json ctx ↔
      ∀ msg, parseSignalMessage json = some msg → allocated = true →
        Sender.NodeUsable env msg ctx.p2pContext := by
  constructor
  · intro ctx
    rw [handledSafely_iff]
    refine forall_congr' fun msg => imp_congr_right fun _ => imp_congr_right fun _ => ?_
    rw [Receiver.handler_avoidsAt]
    exact Receiver.receiverHead_nullSafe env msg ctx.p2pContext
  · intro ctx
    rw [handledSafely_iff]
    refine forall_congr' fun msg => imp_congr_right fun _ => imp_congr_right fun _ => ?_
    rw [Sender.handler_avoidsAt]
    exact Sender.senderHead_nullSafe env ctx.streams msg ctx.p2pContext

/-- A receiver without nodes that is asked to connect to another peer than the
sender of the request reads through a NULL node. -/
theorem null_node_read :
    ¬ ∀ s : Receiver.State, Receiver.system.Reachable s → ∀ env allocated json typeStr,
      stringField json "type" = some typeStr →
      HandledSafely allocated (Receiver.p2pRtpDemuxSignalHandler env) Receiver.branchIds
        Receiver.P2PRtpDemuxContext.p2pContext json s.context := by
  intro h
  have hsafe := h (.initial 60) (.init ⟨60, rfl⟩) (.succeeding 0 1) true
    (signalJson ⟨some "server", none, .connectRequest (some "a")⟩) "connect_request"
    (by decide +kernel)
  have hfault : fault (p2pHandleSignalMessage true
      (Receiver.p2pRtpDemuxSignalHandler (.succeeding 0 1))
      (signalJson ⟨some "server", none, .connectRequest (some "a")⟩))
      (Receiver.State.initial 60).context = some .nullNode := by decide +kernel
  exact hsafe.1 _ hfault (Or.inl rfl)

end P2PFFmpeg
