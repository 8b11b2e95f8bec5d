import P2PFFmpeg.Sender.Handler

namespace P2PFFmpeg.Sender

open Library Library.Program Json Message Peer

def p2pJoinRoomAsSender (env : Env) (roomId : Option String) : PeerM Int := do
  let ctx ← get
  if env.allocMessage = false then pure averrorEnomem
  else do
    let msg : P2PSignalMessage :=
      { senderId := ctx.localId
        receiverId := none
        body := .joinRoom (some (roomId.getD "default_room")) (some "sender") none }
    sendSignalMessage env msg

def streamEndJson (localId : Option String) : CJson :=
  .object (addStringToObject (addStringToObject [] "type" (some "stream_end")) "sender_id" localId)

def p2pRtpMuxerWriteTrailer : PeerM Unit := do
  let ctx ← get
  if ctx.selectedNode.isSome then call (.sendJson (streamEndJson ctx.localId)) else pure ()

/-- Where the thread of the muxer is: in p2p_rtp_muxer_init, then write_header,
then write_packet for each packet, then write_trailer. Every lock section and
every read of the selected node is a step of its own. -/
inductive MuxPc
  | setIdle
  | setJoiningRoom
  | connect
  | setWaitingForReceiver
  | readState
  | wait
  | initReturned (ret : Int)
  | headerReturned (ret : Int)
  | packetState (streamIndex : Int)
  | packetNode (streamIndex : Int)
  | packetReturned (ret : Int)
  | trailerReturned
  deriving DecidableEq, Repr

/-- What the calls of one step of the muxer return, and the packet that comes
next: none is the end of the stream. -/
structure MuxInput where
  env : Env
  connect : Int
  timedOut : Bool
  packet : Option Int
  writeFrame : Int

def nextPacket (input : MuxInput) : SenderM MuxPc :=
  match input.packet with
  | some streamIndex => pure (.packetState streamIndex)
  | none => do
      onPeer p2pRtpMuxerWriteTrailer
      pure .trailerReturned

def writeHeader : SenderM MuxPc := do
  let ctx ← get
  match ctx.p2pContext.selectedNode with
  | none => pure (.headerReturned averrorEinval)
  | some p => do
      let _ ← onPeer (readNode (some p))
      pure (.headerReturned 0)

/-- The second half of write_packet. -/
def writePacket (input : MuxInput) (streamIndex : Int) : SenderM MuxPc := do
  let ctx ← get
  match ctx.p2pContext.selectedNode with
  | none => pure (.packetReturned averrorEinval)
  | some p => do
      let n ← onPeer (readNode (some p))
      match n.trackCaches.find? (fun track => track.streamIndex == streamIndex) with
      | none => pure (.packetReturned averrorEinval)
      | some _ => pure (.packetReturned input.writeFrame)

def muxStep (input : MuxInput) (pc : MuxPc) : SenderM MuxPc := do
  let ctx ← get
  match pc with
  | .setIdle => do
      modify (setSenderState input.env.now .idle)
      pure .setJoiningRoom
  | .setJoiningRoom => do
      modify (setSenderState input.env.now .joiningRoom)
      pure .connect
  | .connect =>
      if input.connect < 0 then pure (.initReturned input.connect)
      else do
        let _ ← onPeer (p2pJoinRoomAsSender input.env ctx.roomId)
        pure .setWaitingForReceiver
  | .setWaitingForReceiver => do
      modify (setSenderState input.env.now .waitingForReceiver)
      pure .readState
  | .readState => pure (if ctx.currentState = .streaming then .initReturned 0 else .wait)
  | .wait =>
      pure (if input.timedOut then .initReturned averrorEtimedout
        else if ctx.currentState = .error then .initReturned averrorExternal
        else .readState)
  | .initReturned ret => if ret = 0 then writeHeader else pure (.initReturned ret)
  | .headerReturned ret => if ret = 0 then nextPacket input else pure (.headerReturned ret)
  | .packetState streamIndex =>
      pure (if ctx.currentState = .streaming then .packetNode streamIndex
        else .packetReturned averrorEinval)
  | .packetNode streamIndex => writePacket input streamIndex
  | .packetReturned _ => nextPacket input
  | .trailerReturned => pure .trailerReturned

/-- The next step calls get_state_thread_safe. -/
def MuxPc.ReadsState : MuxPc → Prop
  | .readState | .packetState _ => True
  | _ => False

def MuxPc.sets : MuxPc → Option SenderState
  | .setIdle => some .idle
  | .setJoiningRoom => some .joiningRoom
  | .setWaitingForReceiver => some .waitingForReceiver
  | _ => none

theorem nextPacket_currentState (input : MuxInput) (s : P2PRtpMuxContext) :
    (after (nextPacket input) s).currentState = s.currentState := by
  unfold nextPacket
  split
  · rfl
  · rw [after_bind_pure, after_onPeer]

theorem writeHeader_after (s : P2PRtpMuxContext) : after writeHeader s = s := by
  rw [writeHeader, after_get_bind]
  split
  · rfl
  · rw [after_bind_pure, after_onPeer, readNode_after]

theorem writePacket_after (input : MuxInput) (streamIndex : Int) (s : P2PRtpMuxContext) :
    after (writePacket input streamIndex) s = s := by
  rw [writePacket, after_get_bind]
  split
  · rfl
  · rw [after_bind, value_onPeer, after_onPeer, readNode_after]
    split
    · split
      · rfl
      · rfl
    · rfl

theorem muxStep_currentState (input : MuxInput) (pc : MuxPc) (s : P2PRtpMuxContext) :
    (after (muxStep input pc) s).currentState = raised s.currentState pc.sets := by
  rw [muxStep, after_get_bind]
  cases pc with
  | setIdle | setJoiningRoom | setWaitingForReceiver => exact setSenderState_currentState _ _ _
  | connect =>
      simp only
      split
      · rfl
      · simp only [after_bind_pure, after_onPeer]
        rfl
  | initReturned ret =>
      simp only
      split
      · rw [writeHeader_after]
        rfl
      · rfl
  | headerReturned ret =>
      simp only
      split
      · exact nextPacket_currentState input s
      · rfl
  | packetNode streamIndex =>
      simp only
      rw [writePacket_after]
      rfl
  | packetReturned ret => exact nextPacket_currentState input s
  | _ => rfl

inductive MuxEdge (c : P2PRtpMuxContext) : MuxPc → MuxPc → Prop
  | idle : MuxEdge c .setIdle .setJoiningRoom
  | joining : MuxEdge c .setJoiningRoom .connect
  | connectFailed (ret : Int) : ret < 0 → MuxEdge c .connect (.initReturned ret)
  | connected : MuxEdge c .connect .setWaitingForReceiver
  | waiting : MuxEdge c .setWaitingForReceiver .readState
  | streaming : c.currentState = .streaming → MuxEdge c .readState (.initReturned 0)
  | notStreaming : c.currentState ≠ .streaming → MuxEdge c .readState .wait
  | timeout : MuxEdge c .wait (.initReturned averrorEtimedout)
  | failed : c.currentState = .error → MuxEdge c .wait (.initReturned averrorExternal)
  | woken : c.currentState ≠ .error → MuxEdge c .wait .readState
  | noHeader (ret : Int) : ret ≠ 0 → MuxEdge c (.initReturned ret) (.initReturned ret)
  | noReceiver : c.p2pContext.selectedNode = none →
      MuxEdge c (.initReturned 0) (.headerReturned averrorEinval)
  | header : MuxEdge c (.initReturned 0) (.headerReturned 0)
  | noPacket (ret : Int) : ret ≠ 0 → MuxEdge c (.headerReturned ret) (.headerReturned ret)
  | firstPacket (streamIndex : Int) : MuxEdge c (.headerReturned 0) (.packetState streamIndex)
  | firstTrailer : MuxEdge c (.headerReturned 0) .trailerReturned
  | packet (streamIndex : Int) : c.currentState = .streaming →
      MuxEdge c (.packetState streamIndex) (.packetNode streamIndex)
  | notReady (streamIndex : Int) : c.currentState ≠ .streaming →
      MuxEdge c (.packetState streamIndex) (.packetReturned averrorEinval)
  | written (streamIndex ret : Int) : MuxEdge c (.packetNode streamIndex) (.packetReturned ret)
  | nextPacket (ret streamIndex : Int) : MuxEdge c (.packetReturned ret) (.packetState streamIndex)
  | trailer (ret : Int) : MuxEdge c (.packetReturned ret) .trailerReturned
  | ended : MuxEdge c .trailerReturned .trailerReturned

variable {c : P2PRtpMuxContext} {input : MuxInput}

theorem nextPacket_value {pc : MuxPc} (h : value (nextPacket input) c = some pc) :
    (∃ streamIndex, pc = .packetState streamIndex) ∨ pc = .trailerReturned := by
  unfold nextPacket at h
  split at h
  · next streamIndex _ =>
      cases h
      exact Or.inl ⟨streamIndex, rfl⟩
  · obtain ⟨_, _, h⟩ := value_bind_some h
    cases h
    exact Or.inr rfl

theorem writePacket_value {streamIndex : Int} {pc : MuxPc}
    (h : value (writePacket input streamIndex) c = some pc) : ∃ ret, pc = .packetReturned ret := by
  rw [writePacket, value_get_bind] at h
  split at h
  · cases h
    exact ⟨_, rfl⟩
  · obtain ⟨n, _, h⟩ := value_bind_some h
    split at h
    · cases h
      exact ⟨_, rfl⟩
    · cases h
      exact ⟨_, rfl⟩

theorem muxStep_edge {pc pc' : MuxPc} (h : value (muxStep input pc) c = some pc') : MuxEdge c pc pc' := by
  rw [muxStep, value_get_bind] at h
  cases pc with
  | setIdle =>
      cases h
      exact .idle
  | setJoiningRoom =>
      cases h
      exact .joining
  | setWaitingForReceiver =>
      cases h
      exact .waiting
  | connect =>
      simp only at h
      split at h
      · next hneg =>
          cases h
          exact .connectFailed _ hneg
      · obtain ⟨_, _, h⟩ := value_bind_some h
        cases h
        exact .connected
  | readState =>
      cases h
      split
      · next hs => exact .streaming hs
      · next hs => exact .notStreaming hs
  | wait =>
      cases h
      split
      · exact .timeout
      · split
        · next hs => exact .failed hs
        · next hs => exact .woken hs
  | initReturned ret =>
      simp only at h
      split at h
      · next hret =>
          subst hret
          rw [writeHeader, value_get_bind] at h
          split at h
          · next hnone =>
              cases h
              exact .noReceiver hnone
          · obtain ⟨_, _, h⟩ := value_bind_some h
            cases h
            exact .header
      · next hret =>
          cases h
          exact .noHeader ret hret
  | headerReturned ret =>
      simp only at h
      split at h
      · next hret =>
          subst hret
          rcases nextPacket_value h with ⟨streamIndex, rfl⟩ | rfl
          · exact .firstPacket streamIndex
          · exact .firstTrailer
      · next hret =>
          cases h
          exact .noPacket ret hret
  | packetState streamIndex =>
      cases h
      split
      · next hs => exact .packet streamIndex hs
      · next hs => exact .notReady streamIndex hs
  | packetNode streamIndex =>
      obtain ⟨ret, rfl⟩ := writePacket_value h
      exact .written streamIndex ret
  | packetReturned ret =>
      rcases nextPacket_value h with ⟨streamIndex, rfl⟩ | rfl
      · exact .nextPacket ret streamIndex
      · exact .trailer ret
  | trailerReturned =>
      cases h
      exact .ended

section Frames

variable {w : Permit}

theorem frame_joinRoomAsSender (env : Env) (roomId : Option String)
    (h : ∀ msg, msg.type = .joinRoom → w.sent msg) : Keeps (Frame w) (p2pJoinRoomAsSender env roomId) := by
  apply keeps_get_bind
  intro ctx
  split
  · exact keeps_pure _
  · exact frame_sendSignalMessage env (h _ rfl)

theorem frame_nextPacket (input : MuxInput) : Keeps (PeerFrame w) (nextPacket input) := by
  unfold nextPacket
  split
  · exact keeps_pure _
  · refine keeps_bind (frame_onPeer ?_) (fun _ => keeps_pure _)
    apply keeps_get_bind
    intro ctx
    split
    · exact frame_call fun _ => by trivial
    · exact keeps_pure _

theorem frame_muxStep (input : MuxInput) (pc : MuxPc)
    (h : ∀ msg, msg.type = .joinRoom → w.sent msg) : Keeps (PeerFrame w) (muxStep input pc) := by
  apply keeps_get_bind
  intro ctx
  cases pc with
  | setIdle | setJoiningRoom | setWaitingForReceiver =>
      exact keeps_bind (frame_setSenderState _ _) (fun _ => keeps_pure _)
  | connect =>
      simp only
      split
      · exact keeps_pure _
      · exact keeps_bind (frame_onPeer (frame_joinRoomAsSender _ _ h)) (fun _ => keeps_pure _)
  | initReturned ret =>
      simp only
      split
      · exact keeps_of_after_eq writeHeader_after
      · exact keeps_pure _
  | headerReturned ret =>
      simp only
      split
      · exact frame_nextPacket input
      · exact keeps_pure _
  | packetNode streamIndex => exact keeps_of_after_eq (writePacket_after input streamIndex)
  | packetReturned ret => exact frame_nextPacket input
  | _ => exact keeps_pure _

end Frames

end P2PFFmpeg.Sender
