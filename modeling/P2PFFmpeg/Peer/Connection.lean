import P2PFFmpeg.Peer.Context

namespace P2PFFmpeg.Peer

open Library Library.Program Message

section

/-- What a program may do to the context: the nodes it may unlink, the statuses
it may give, the nodes whose metrics it may initialise, the nodes it may select,
the messages it may send, the local ids it may take, the connections it may open,
link a node for and close, and the candidates it may add. -/
structure Permit where
  lost : Ptr → Prop
  marked : Ptr → PeerConnectionStatus → Prop
  wiped : Ptr → Prop
  selected : Option Ptr → Prop
  sent : P2PSignalMessage → Prop
  named : Option String → Prop
  opened : Int → Prop
  linked : Ptr → Int → Prop
  closed : Int → Prop
  added : Int → String → String → Prop

def Permit.nothing : Permit where
  lost := fun _ => False
  marked := fun _ _ => False
  wiped := fun _ => False
  selected := fun _ => False
  sent := fun _ => False
  named := fun _ => False
  opened := fun _ => False
  linked := fun _ _ => False
  closed := fun _ => False
  added := fun _ _ _ => False

def Permit.Allows (w : Permit) (nodes : Linked PeerConnectionNode) : RtcCall → Prop
  | .sendMessage msg => w.sent msg
  | .createPeerConnection pcId => w.opened pcId
  | .deletePeerConnection pcId => w.closed pcId
  | .addRemoteCandidate pcId candidate mid => w.added pcId candidate mid
  | .setUserPointer _ (some p) => p ∈ nodes.addrs ∨ w.lost p
  | _ => True

structure SamePeer (w : Permit) (p : Ptr) (n m : PeerConnectionNode) : Prop where
  remoteId : m.remoteId = n.remoteId
  pcId : m.pcId = n.pcId
  status : m.status = n.status ∨ w.marked p m.status
  covered : n.networkQuality.Covered → m.networkQuality.Covered ∨ w.wiped p

/-- The frame of a program: apart from what is permitted, linked nodes stay
linked under the same id, new nodes are disconnected and have a connection of
their own, and the selection stays. -/
structure Frame (w : Permit) (c d : P2PContext) : Prop where
  selectedNode : d.selectedNode = c.selectedNode ∨ w.selected d.selectedNode
  localId : d.localId = c.localId ∨ w.named d.localId
  bound : c.peerConnectionNodeCaches.fresh ≤ d.peerConnectionNodeCaches.fresh
  kept : ∀ p n, ¬ w.lost p → c.peerConnectionNodeCaches.get? p = some n →
    ∃ m, d.peerConnectionNodeCaches.get? p = some m ∧ SamePeer w p n m
  origin : ∀ p m, d.peerConnectionNodeCaches.get? p = some m →
    (∃ n, c.peerConnectionNodeCaches.get? p = some n ∧ SamePeer w p n m) ∨
      (c.peerConnectionNodeCaches.fresh ≤ p ∧ (m.status = .disconnected ∨ w.marked p m.status) ∧
        w.linked p m.pcId ∧ .createPeerConnection m.pcId ∈ d.calls)
  found : ∀ id p, ¬ w.lost p →
    findPeerConnectionNodeByRemoteId c.peerConnectionNodeCaches id = some p →
    findPeerConnectionNodeByRemoteId d.peerConnectionNodeCaches id = some p
  calls : ∃ new, d.calls = c.calls ++ new ∧ ∀ call ∈ new, w.Allows d.peerConnectionNodeCaches call

variable {w : Permit}

theorem SamePeer.refl (p : Ptr) (n : PeerConnectionNode) : SamePeer w p n n :=
  ⟨rfl, rfl, Or.inl rfl, Or.inl⟩

variable {α : Type} {body : Ptr → PeerConnectionNode → α → PeerM α} {n : PeerConnectionNode} {p : Ptr}
  {s : P2PContext} {c : P2PContext}

theorem SamePeer.trans {n m k : PeerConnectionNode} (h : SamePeer w p n m) (g : SamePeer w p m k) :
    SamePeer w p n k where
  remoteId := g.remoteId.trans h.remoteId
  pcId := g.pcId.trans h.pcId
  status := by
    rcases g.status with hg | hg
    · rcases h.status with hh | hh
      · exact Or.inl (hg.trans hh)
      · exact Or.inr (hg ▸ hh)
    · exact Or.inr hg
  covered := fun hn => (h.covered hn).elim g.covered Or.inr

theorem linked_of_kept {nodes nodes' : Linked PeerConnectionNode}
    (h : ∀ p n, ¬ w.lost p → nodes.get? p = some n →
      ∃ m, nodes'.get? p = some m ∧ SamePeer w p n m) (hp : ¬ w.lost p) (hl : p ∈ nodes.addrs) :
    p ∈ nodes'.addrs := by
  obtain ⟨n, hn⟩ := Linked.mem_addrs_iff.mp hl
  obtain ⟨m, hm, _⟩ := h p n hp hn
  exact Linked.mem_addrs_iff.mpr ⟨m, hm⟩

theorem Permit.Allows.mono {nodes nodes' : Linked PeerConnectionNode} {c : RtcCall}
    (h : w.Allows nodes c) (hl : ∀ p, p ∈ nodes.addrs → ¬ w.lost p → p ∈ nodes'.addrs) :
    w.Allows nodes' c := by
  cases c with
  | setUserPointer id node =>
      cases node with
      | none => trivial
      | some p =>
          rcases h with hp | hp
          · by_cases hw : w.lost p
            · exact Or.inr hw
            · exact Or.inl (hl p hp hw)
          · exact Or.inr hp
  | _ => exact h

theorem Frame.refl (c : P2PContext) : Frame w c c where
  selectedNode := Or.inl rfl
  localId := Or.inl rfl
  bound := Nat.le_refl _
  kept := fun p n _ hn => ⟨n, hn, .refl p n⟩
  origin := fun p m hm => Or.inl ⟨m, hm, .refl p m⟩
  found := fun _ _ _ hp => hp
  calls := ⟨[], by simp, by simp⟩

theorem Frame.trans {c d e : P2PContext} (h : Frame w c d) (g : Frame w d e) : Frame w c e where
  selectedNode := by
    rcases g.selectedNode with he | he
    · rcases h.selectedNode with hd | hd
      · exact Or.inl (he.trans hd)
      · exact Or.inr (he ▸ hd)
    · exact Or.inr he
  localId := by
    rcases g.localId with he | he
    · rcases h.localId with hd | hd
      · exact Or.inl (he.trans hd)
      · exact Or.inr (he ▸ hd)
    · exact Or.inr he
  bound := Nat.le_trans h.bound g.bound
  kept := by
    intro p n hp hn
    obtain ⟨m, hm, hnm⟩ := h.kept p n hp hn
    obtain ⟨k, hk, hmk⟩ := g.kept p m hp hm
    exact ⟨k, hk, hnm.trans hmk⟩
  origin := by
    intro p k hk
    rcases g.origin p k hk with ⟨m, hm, hmk⟩ | ⟨hp, hs⟩
    · rcases h.origin p m hm with ⟨n, hn, hnm⟩ | ⟨hp, hs, hl, hcreated⟩
      · exact Or.inl ⟨n, hn, hnm.trans hmk⟩
      · obtain ⟨ys, hys, _⟩ := g.calls
        refine Or.inr ⟨hp, ?_, hmk.pcId ▸ hl, ?_⟩
        rotate_left
        · rw [hmk.pcId, hys]
          exact List.mem_append_left ys hcreated
        rcases hmk.status with hk' | hk'
        · rw [hk']
          exact hs
        · exact Or.inr hk'
    · exact Or.inr ⟨Nat.le_trans h.bound hp, hs⟩
  found := fun id p hp hf => g.found id p hp (h.found id p hp hf)
  calls := by
    obtain ⟨xs, hxs, hx⟩ := h.calls
    obtain ⟨ys, hys, hy⟩ := g.calls
    refine ⟨xs ++ ys, by rw [hys, hxs, List.append_assoc], ?_⟩
    intro call hm
    rcases List.mem_append.mp hm with hm | hm
    · exact (hx call hm).mono fun p hp hl => linked_of_kept g.kept hl hp
    · exact hy call hm

instance : IsPreorder P2PContext (Frame w) where
  refl := Frame.refl
  trans := fun _ _ _ => Frame.trans

theorem Frame.linked {c d : P2PContext} (h : Frame w c d) (hp : ¬ w.lost p)
    (hc : p ∈ c.peerConnectionNodeCaches.addrs) : p ∈ d.peerConnectionNodeCaches.addrs :=
  linked_of_kept h.kept hp hc

theorem frame_call_at {c : RtcCall} (hc : w.Allows s.peerConnectionNodeCaches c) :
    Frame w s (after (call c) s) := by
  refine { Frame.refl s with
    origin := fun p m hm => Or.inl ⟨m, hm, .refl p m⟩
    calls := ⟨[c], rfl, ?_⟩ }
  intro call hm
  rw [List.mem_singleton.mp hm]
  exact hc

theorem frame_call {c : RtcCall} (hc : ∀ nodes, w.Allows nodes c) : Keeps (Frame w) (call c) :=
  fun _ => frame_call_at (hc _)

theorem readNode_after (node : Option Ptr) (s : P2PContext) : after (readNode node) s = s := by
  simp only [readNode, after_get_bind]
  cases node with
  | none => rfl
  | some p => cases h : s.peerConnectionNodeCaches.get? p <;> simp [h]

theorem readNode_some (h : c.peerConnectionNodeCaches.get? p = some n) :
    value (readNode (some p)) c = some n := by
  rw [readNode, value_get_bind]
  simp only [h]
  rfl

theorem readNode_none (h : c.peerConnectionNodeCaches.get? p = none) :
    value (readNode (some p)) c = none := by
  rw [readNode, value_get_bind]
  simp only [h]
  rfl

theorem readNode_value (h : value (readNode (some p)) c = some n) :
    c.peerConnectionNodeCaches.get? p = some n := by
  cases hn : c.peerConnectionNodeCaches.get? p with
  | none =>
      rw [readNode_none hn] at h
      cases h
  | some m =>
      rw [readNode_some hn] at h
      exact h

theorem frame_readNode (node : Option Ptr) : Keeps (Frame w) (readNode node) :=
  keeps_of_after_eq (readNode_after node)

theorem frame_walkNodes (hbody : ∀ p n a, Keeps (Frame w) (body p n a)) (ps : List Ptr) (a : α) :
    Keeps (Frame w) (walkNodes body ps a) := by
  induction ps generalizing a with
  | nil => exact keeps_pure _
  | cons p ps ih =>
      apply keeps_bind (frame_readNode _)
      intro n
      exact keeps_bind (hbody p n a) (fun b => ih b)

/-- What holds of the accumulator at the start and is kept by every round holds
of the result of the loop. -/
theorem walkNodes_value {ps : List Ptr} (Q : α → Prop)
    (hbody : ∀ p ∈ ps, ∀ n a b t, Q a → value (body p n a) t = some b → Q b) {a b : α} (ha : Q a)
    (h : value (walkNodes body ps a) s = some b) : Q b := by
  induction ps generalizing a s with
  | nil =>
      cases h
      exact ha
  | cons p ps ih =>
      obtain ⟨n, _, h⟩ := value_bind_some h
      obtain ⟨c, hc, h⟩ := value_bind_some h
      have hc' := hbody p List.mem_cons_self n a c _ ha hc
      exact ih (fun q hq => hbody q (List.mem_cons_of_mem _ hq)) hc' h

/-- The induction over the rounds of a loop: the invariant knows the nodes that
were walked, the state and the accumulator. -/
theorem walkNodes_invariant (I : List Ptr → P2PContext → α → Prop)
    (hbody : ∀ done p n a b s, I done s a → s.peerConnectionNodeCaches.get? p = some n →
      value (body p n a) s = some b → I (done ++ [p]) (after (body p n a) s) b) {done ps : List Ptr}
    {a b : α} (ha : I done s a) (h : value (walkNodes body ps a) s = some b) :
    I (done ++ ps) (after (walkNodes body ps a) s) b := by
  induction ps generalizing done a s with
  | nil =>
      cases h
      rw [List.append_nil]
      exact ha
  | cons p ps ih =>
      obtain ⟨n, hn, h⟩ := value_bind_some h
      obtain ⟨c, hc, h⟩ := value_bind_some h
      rw [walkNodes, after_bind, hn]
      simp only [after_bind, hc]
      rw [readNode_after] at hc h ⊢
      have hround := hbody done p n a c s ha (readNode_value hn) hc
      rw [List.append_cons]
      exact ih hround h

theorem find_modify {nodes : Linked PeerConnectionNode} {f : PeerConnectionNode → PeerConnectionNode}
    (hf : ∀ n, (f n).remoteId = n.remoteId) (id : Option String) :
    findPeerConnectionNodeByRemoteId (nodes.modify p f) id =
      findPeerConnectionNodeByRemoteId nodes id := by
  cases id with
  | none => rfl
  | some id =>
      apply Linked.find?_modify
      intro n _
      simp only [hasRemoteId, hf]

theorem frame_modifyNode (p : Ptr) {f : PeerConnectionNode → PeerConnectionNode}
    (hf : ∀ n, SamePeer w p n (f n)) : Keeps (Frame w) (modifyNode p f) := by
  apply keeps_modify
  intro s
  refine { Frame.refl s with
    bound := Nat.le_refl _
    kept := ?_
    origin := ?_
    found := ?_
    calls := ⟨[], (List.append_nil _).symm, by simp⟩ }
  · intro q n _ hn
    simp only [Linked.get?_modify, hn]
    split
    · next hq =>
        subst hq
        exact ⟨f n, rfl, hf n⟩
    · exact ⟨n, rfl, .refl q n⟩
  · intro q m hm
    simp only [Linked.get?_modify] at hm
    split at hm
    · next hq =>
        subst hq
        obtain ⟨n, hn, rfl⟩ := Option.map_eq_some_iff.mp hm
        exact Or.inl ⟨n, hn, hf n⟩
    · exact Or.inl ⟨m, hm, .refl q m⟩
  · intro id q _ hq
    rw [← hq]
    exact find_modify (fun n => (hf n).remoteId) id

theorem frame_select {p : Option Ptr} (hw : w.selected p) :
    Keeps (Frame w) (modify fun c => { c with selectedNode := p } : PeerM PUnit) := by
  apply keeps_modify
  intro s
  exact { Frame.refl s with selectedNode := Or.inr hw }

theorem frame_link (s : P2PContext) (hn : n.status = .disconnected)
    (hw : w.linked s.peerConnectionNodeCaches.fresh n.pcId) (hc : .createPeerConnection n.pcId ∈ s.calls) :
    Frame w s (after (modifyNodes fun nodes => nodes.link n) s) := by
  refine { Frame.refl s with
    bound := Nat.le_succ _
    kept := ?_
    origin := ?_
    found := ?_
    calls := ⟨[], (List.append_nil _).symm, by simp⟩ }
  · intro q m _ hm
    have hq := Linked.lt_fresh (Linked.mem_addrs_iff.mpr ⟨m, hm⟩)
    refine ⟨m, ?_, .refl q m⟩
    change (s.peerConnectionNodeCaches.link n).get? q = some m
    rw [Linked.get?_link, if_neg (Nat.ne_of_lt hq), hm]
  · intro q m hm
    change (s.peerConnectionNodeCaches.link n).get? q = some m at hm
    rw [Linked.get?_link] at hm
    split at hm
    · next hq =>
        cases hm
        exact Or.inr ⟨Nat.le_of_eq hq.symm, Or.inl hn, hq ▸ hw, hc⟩
    · exact Or.inl ⟨m, hm, .refl q m⟩
  · intro id q _ hq
    cases id with
    | none => cases hq
    | some id =>
        change (s.peerConnectionNodeCaches.link n).find? _ = some q
        rw [Linked.find?_link, show s.peerConnectionNodeCaches.find? _ = some q from hq]
        rfl

theorem frame_unlink (s : P2PContext) {id : Option String} (hw : w.lost p)
    (hp : s.peerConnectionNodeCaches.find? (hasRemoteId id) = some p) :
    Frame w s (after (modifyNodes fun nodes => nodes.unlink (hasRemoteId id)) s) := by
  refine { Frame.refl s with
    bound := Nat.le_refl _
    kept := ?_
    origin := ?_
    found := ?_
    calls := ⟨[], (List.append_nil _).symm, by simp⟩ }
  · intro q m hq hm
    refine ⟨m, ?_, .refl q m⟩
    change (s.peerConnectionNodeCaches.unlink _).get? q = some m
    rw [Linked.get?_unlink hp, if_neg, hm]
    rintro rfl
    exact hq hw
  · intro q m hm
    change (s.peerConnectionNodeCaches.unlink _).get? q = some m at hm
    rw [Linked.get?_unlink hp] at hm
    split at hm
    · cases hm
    · exact Or.inl ⟨m, hm, .refl q m⟩
  · intro id' q hq hf
    cases id' with
    | none => cases hf
    | some id' =>
        apply Linked.find?_unlink hp hf
        rintro rfl
        exact hq hw

theorem find_of_hasRemoteId {nodes : Linked PeerConnectionNode} {id : Option String}
    (h : nodes.find? (hasRemoteId id) = some p) : findPeerConnectionNodeByRemoteId nodes id = some p := by
  cases id with
  | none =>
      obtain ⟨n, _, hn⟩ := Linked.find?_get h
      simp [hasRemoteId] at hn
      simp [hn] at hn
  | some id => exact h

theorem frame_append (s : P2PContext) (hn : n.status = .disconnected)
    (hl : w.linked s.peerConnectionNodeCaches.fresh n.pcId) (hc : .createPeerConnection n.pcId ∈ s.calls)
    (hw : ∀ p, findPeerConnectionNodeByRemoteId s.peerConnectionNodeCaches n.remoteId = some p →
      w.lost p) : Frame w s (after (appendPeerConnectionNodeToList n) s) := by
  have hlink : ∀ t : P2PContext,
      t.peerConnectionNodeCaches.fresh = s.peerConnectionNodeCaches.fresh →
      .createPeerConnection n.pcId ∈ t.calls →
      Frame w t (after (do modifyNodes fun nodes => nodes.link n; pure (0 : Int)) t) := by
    intro t hfresh hcalls
    apply related_bind (frame_link t hn (hfresh ▸ hl) hcalls)
    intro _ _
    exact Frame.refl _
  simp only [appendPeerConnectionNodeToList, after_get_bind]
  split
  · exact hlink s rfl hc
  · next p hp =>
      have hfresh : (after (removePeerConnectionNodeFromList n.remoteId) s).peerConnectionNodeCaches.fresh
          = s.peerConnectionNodeCaches.fresh := by
        simp only [removePeerConnectionNodeFromList, after_get_bind]
        split
        · rfl
        · split <;> rfl
      have hremove : Frame w s (after (removePeerConnectionNodeFromList n.remoteId) s) := by
        simp only [removePeerConnectionNodeFromList, after_get_bind]
        split
        · exact Frame.refl _
        · split
          · exact Frame.refl _
          · next q hq =>
              apply related_bind (frame_unlink s (hw q (find_of_hasRemoteId hq)) hq)
              intro _ _
              exact keeps_bind (frame_call fun _ => by trivial) (fun _ => keeps_pure _) _
      apply related_bind hremove
      intro ret _
      split
      · exact Frame.refl _
      · obtain ⟨new, hnew, _⟩ := hremove.calls
        refine hlink _ hfresh ?_
        rw [hnew]
        exact List.mem_append_left new hc

end

section

def Env.creates (env : Env) : Prop := 0 < env.createPeerConnection ∧ env.allocNode = true

instance (env : Env) : Decidable env.creates := inferInstanceAs (Decidable (_ ∧ _))

def createPeerConnection (env : Env) (remoteId : Option String) : PeerM Int := do
  call (.createPeerConnection env.createPeerConnection)
  if env.createPeerConnection ≤ 0 then do
    call (.deletePeerConnection env.createPeerConnection)
    pure averrorExternal
  else if env.allocNode = false then do
    call (.deletePeerConnection env.createPeerConnection)
    pure averrorEnomem
  else match remoteId with
    -- strdup reads through its argument
    | none => throw .nullString
    | some id => do
        let _ ← appendPeerConnectionNodeToList
          { remoteId := if env.strdup then some id else none
            pcId := env.createPeerConnection
            status := .disconnected
            trackCaches := .empty
            videoTrack := none
            audioTrack := none
            probeTrack := none
            networkQuality := .zero }
        pure 0

def registerCallbacks (env : Env) (pcId : Int) : List PcCallback → PeerM Int
  | [] => pure 0
  | callback :: callbacks => do
      call (.setCallback pcId callback)
      if env.setCallback callback < 0 then do
        call (.deletePeerConnection pcId)
        pure averrorExternal
      else registerCallbacks env pcId callbacks

def initPeerConnection (env : Env) (pcId : Int) : PeerM Int := do
  let ctx ← get
  call (.setUserPointer pcId (findPeerConnectionNodeByPcId ctx.peerConnectionNodeCaches pcId))
  registerCallbacks env pcId [.localDescription, .localCandidate, .stateChange, .iceStateChange,
    .gatheringStateChange, .signalingStateChange, .dataChannel, .track]

def sendSignalMessage (env : Env) (msg : P2PSignalMessage) : PeerM Int := do
  call (.sendMessage msg)
  pure env.sendMessage

def setLocalDescription (node : Ptr) (role : String) : PeerM Unit := do
  let n ← readNode (some node)
  call (.setLocalDescription n.pcId role)

def descriptionBody (role : String) (description : Option String) : Body :=
  if role = "offer" then .offer description else .answer description

def sendDescription (env : Env) (node : Ptr) (role : String) : PeerM Int := do
  let n ← readNode (some node)
  let ctx ← get
  if env.allocMessage = false then throw .nullMessage
  else do
    let msg : P2PSignalMessage :=
      { senderId := ctx.localId
        receiverId := n.remoteId
        body := descriptionBody role env.localDescription }
    sendSignalMessage env msg

def onPcLocalCandidateCallback (env : Env) (node : Ptr) (candidate mid : String) : PeerM Unit := do
  let n ← readNode (some node)
  let ctx ← get
  if env.allocMessage = false then pure ()
  else do
    let msg : P2PSignalMessage :=
      { senderId := ctx.localId
        receiverId := n.remoteId
        body := .candidate (some candidate) (some mid) }
    let _ ← sendSignalMessage env msg
    pure ()

def statusOfRtcState : RtcState → PeerConnectionStatus
  | .new => .disconnected
  | .connecting => .connecting
  | .connected => .connected
  | .disconnected => .disconnected
  | .failed => .failed
  | .closed => .closed
  | .other => .disconnected

def setStatus (status : PeerConnectionStatus) (n : PeerConnectionNode) : PeerConnectionNode :=
  { n with status := status }

def markSelected (node : Ptr) : PeerM Unit := do
  let _ ← readNode (some node)
  modifyNode node (setStatus .selected)

def setNetworkQuality (f : NetworkQualityMetrics → NetworkQualityMetrics) (n : PeerConnectionNode) :
    PeerConnectionNode :=
  { n with networkQuality := f n.networkQuality }

def iceScore : RtcIceState → Int
  | .new => 0
  | .checking => 25
  | .connected => 75
  | .completed => 100
  | .failed => 0
  | .disconnected => 10
  | .closed => 0
  | .other => 0

def onPcIceStateChangeCallback (node : Ptr) (state : RtcIceState) : PeerM Unit :=
  modifyNode node (setNetworkQuality fun data => { data with iceConnectivityScore := iceScore state })

variable {w : Permit}

def Env.failsCallback (env : Env) : Prop := ∃ callback, env.setCallback callback < 0

/-- What create_peer_connection may do: the connection is opened, and it gets a
node or is closed again. -/
structure CreatePermit (w : Permit) (env : Env) (s : P2PContext) : Prop where
  opened : w.opened env.createPeerConnection
  linked : env.creates → w.linked s.peerConnectionNodeCaches.fresh env.createPeerConnection
  closed : ¬ env.creates → w.closed env.createPeerConnection

theorem frame_createPeerConnection (env : Env) (id : Option String) (s : P2PContext)
    (hc : CreatePermit w env s) (hw : env.creates → env.strdup = true →
      ∀ p, findPeerConnectionNodeByRemoteId s.peerConnectionNodeCaches id = some p → w.lost p) :
    Frame w s (after (createPeerConnection env id) s) := by
  have hclosed : ¬ env.creates → Keeps (Frame w) (call (.deletePeerConnection env.createPeerConnection)) :=
    fun h => frame_call fun _ => hc.closed h
  have hopened : Keeps (Frame w) (call (.createPeerConnection env.createPeerConnection)) :=
    frame_call fun _ => hc.opened
  apply related_bind (hopened s)
  intro _ _
  have hnodes : (after (call (.createPeerConnection env.createPeerConnection)) s).peerConnectionNodeCaches
      = s.peerConnectionNodeCaches := rfl
  split
  · next hpc =>
      exact keeps_bind (hclosed fun h => absurd h.1 (Int.not_lt.mpr hpc)) (fun _ => keeps_pure _) _
  · next hpc =>
    split
    · next ha =>
        exact keeps_bind (hclosed fun h => by simp [h.2] at ha) (fun _ => keeps_pure _) _
    · next ha =>
      have hcreates : env.creates := ⟨Int.not_le.mp hpc, by simpa using ha⟩
      cases id with
      | none => exact Frame.refl _
      | some id =>
          refine related_bind (frame_append _ rfl (hc.linked hcreates) ?_ ?_) (fun _ _ => Frame.refl _)
          · exact List.mem_append_right s.calls (List.mem_singleton.mpr rfl)
          intro p hp
          rw [hnodes] at hp
          cases hd : env.strdup with
          | true => exact hw hcreates hd p (by simpa [hd] using hp)
          | false => simp [hd, findPeerConnectionNodeByRemoteId] at hp

theorem frame_registerCallbacks (env : Env) (pcId : Int) (callbacks : List PcCallback)
    (hw : env.failsCallback → w.closed pcId) : Keeps (Frame w) (registerCallbacks env pcId callbacks) := by
  induction callbacks with
  | nil => exact keeps_pure _
  | cons callback callbacks ih =>
      apply keeps_bind (frame_call fun _ => by trivial)
      intro _
      split
      · next hfails =>
          exact keeps_bind (frame_call fun _ => hw ⟨callback, hfails⟩) (fun _ => keeps_pure _)
      · exact ih

theorem findByPcId_linked {nodes : Linked PeerConnectionNode} {pcId : Int} {p : Ptr}
    (h : findPeerConnectionNodeByPcId nodes pcId = some p) : p ∈ nodes.addrs :=
  Linked.find?_mem h

theorem frame_initPeerConnection (env : Env) (pcId : Int) (hw : env.failsCallback → w.closed pcId) :
    Keeps (Frame w) (initPeerConnection env pcId) := by
  intro s
  rw [initPeerConnection, after_get_bind]
  have hpointer : w.Allows s.peerConnectionNodeCaches
      (.setUserPointer pcId (findPeerConnectionNodeByPcId s.peerConnectionNodeCaches pcId)) := by
    cases h : findPeerConnectionNodeByPcId s.peerConnectionNodeCaches pcId with
    | none => trivial
    | some p => exact Or.inl (findByPcId_linked h)
  exact related_bind (frame_call_at hpointer) (fun _ _ => frame_registerCallbacks env pcId _ hw _)

theorem frame_sendSignalMessage (env : Env) {msg : P2PSignalMessage} (h : w.sent msg) :
    Keeps (Frame w) (sendSignalMessage env msg) := by
  exact keeps_bind (frame_call fun _ => h) (fun _ => keeps_pure _)

theorem frame_setLocalDescription (node : Ptr) (role : String) :
    Keeps (Frame w) (setLocalDescription node role) :=
  keeps_bind (frame_readNode _) (fun _ => frame_call fun _ => by trivial)

theorem frame_sendDescription (env : Env) (node : Ptr) (role : String)
    (h : ∀ msg, msg.body = descriptionBody role env.localDescription → w.sent msg) :
    Keeps (Frame w) (sendDescription env node role) := by
  apply keeps_bind (frame_readNode _)
  intro n
  apply keeps_get_bind
  intro ctx
  split
  · exact keeps_throw _
  · exact frame_sendSignalMessage env (h _ rfl)

theorem frame_onPcLocalCandidateCallback (env : Env) (node : Ptr) (candidate mid : String)
    (h : ∀ msg, msg.body = .candidate (some candidate) (some mid) → w.sent msg) :
    Keeps (Frame w) (onPcLocalCandidateCallback env node candidate mid) := by
  apply keeps_bind (frame_readNode _)
  intro n
  apply keeps_get_bind
  intro ctx
  split
  · exact keeps_pure _
  · exact keeps_bind (frame_sendSignalMessage env (h _ rfl)) (fun _ => keeps_pure _)

theorem frame_setNetworkQuality (p : Ptr) {f : NetworkQualityMetrics → NetworkQualityMetrics}
    (hf : ∀ data, data.Covered → (f data).Covered ∨ w.wiped p) :
    Keeps (Frame w) (modifyNode p (setNetworkQuality f)) :=
  frame_modifyNode p (fun n => ⟨rfl, rfl, Or.inl rfl, hf n.networkQuality⟩)

theorem frame_setStatus (p : Ptr) {status : PeerConnectionStatus} (hw : w.marked p status) :
    Keeps (Frame w) (modifyNode p (setStatus status)) :=
  frame_modifyNode p (fun _ => ⟨rfl, rfl, Or.inr hw, Or.inl⟩)

theorem frame_markSelected {p : Ptr} (hw : w.marked p .selected) : Keeps (Frame w) (markSelected p) :=
  keeps_bind (frame_readNode _) (fun _ => frame_setStatus p hw)

end

end P2PFFmpeg.Peer
