import P2PFFmpeg.Receiver.Runs
import P2PFFmpeg.Sender.Runs

namespace P2PFFmpeg

open Library Library.Program Library.Transition Json Codec Message Peer

/-- The type string of a message with a string in its type field decodes to the
error type where it is not the string of another type. -/
def IsErrorString (typeStr : String) : Prop :=
  ∀ t ∈ wireTypes, typeStr = messageTypeToString t → t = .error

namespace Receiver

theorem runReceiverOps_error (env : Env) (ops : List ReceiverOp)
    (hops : ReceiverOp.setState .error ∉ ops) (s : P2PRtpDemuxContext) :
    (after (runReceiverOps env ops) s).currentState = .error ↔ s.currentState = .error := by
  induction ops generalizing s with
  | nil => rfl
  | cons op ops ih =>
      have hop : (after (runReceiverOp env op) s).currentState = .error ↔ s.currentState = .error := by
        rw [runReceiverOp_currentState]
        refine (raised_eq_top _ _).trans (or_iff_left ?_)
        intro hset
        cases op with
        | sendDescription node role => cases hset
        | setState st =>
            cases hset
            exact hops List.mem_cons_self
      rw [runReceiverOps, after_bind]
      cases value (runReceiverOp env op) s with
      | none => exact hop
      | some u =>
          refine (ih ?_ _).trans hop
          exact fun hmem => hops (List.mem_cons_of_mem _ hmem)

theorem handler_error_iff (env : Env) (msg : P2PSignalMessage) (ctx : P2PRtpDemuxContext) :
    (after (p2pRtpDemuxSignalHandler env msg) ctx).currentState = .error ↔
      ctx.currentState = .error ∨ msg.type = .error := by
  by_cases htype : msg.type = .error
  · obtain ⟨errorCode, errorMsg, hb⟩ := type_eq_error htype
    simp only [htype, or_true, iff_true]
    have hset := setReceiverState_currentState env.now .error ctx
    rw [p2pRtpDemuxSignalHandler, receiverHead, hb]
    exact hset.trans (max_eq_right (le_error _))
  · simp only [htype, or_false]
    rw [p2pRtpDemuxSignalHandler, after_bind, value_onPeer, after_onPeer]
    cases hv : value (receiverHead env msg) ctx.p2pContext with
    | none => rfl
    | some plan =>
        simp only [after_bind_pure]
        apply runReceiverOps_error
        intro hmem
        rcases receiverHead_setState hv hmem with ⟨h, _⟩ | ⟨h, _⟩ | ⟨_, h⟩ | ⟨h, _⟩
        · cases h
        · cases h
        · exact htype h
        · cases h

end Receiver

namespace Sender

theorem runSenderOps_error (env : Env) (ops : List SenderOp)
    (hops : SenderOp.setState .error ∉ ops) (s : P2PRtpMuxContext) :
    (after (runSenderOps env ops) s).currentState = .error ↔ s.currentState = .error := by
  induction ops generalizing s with
  | nil => rfl
  | cons op ops ih =>
      have hop : (after (runSenderOp env op) s).currentState = .error ↔ s.currentState = .error := by
        rw [runSenderOp_currentState]
        refine (raised_eq_top _ _).trans (or_iff_left ?_)
        intro hset
        cases op with
        | setState st =>
            cases hset
            exact hops List.mem_cons_self
        | _ => cases hset
      rw [runSenderOps, after_bind]
      cases value (runSenderOp env op) s with
      | none => exact hop
      | some u =>
          refine (ih ?_ _).trans hop
          exact fun hmem => hops (List.mem_cons_of_mem _ hmem)

theorem handler_error_iff (env : Env) (msg : P2PSignalMessage) (ctx : P2PRtpMuxContext) :
    (after (p2pRtpMuxSignalHandler env msg) ctx).currentState = .error ↔
      ctx.currentState = .error ∨ msg.type = .error := by
  by_cases htype : msg.type = .error
  · obtain ⟨errorCode, errorMsg, hb⟩ := type_eq_error htype
    simp only [htype, or_true, iff_true]
    have hset := setSenderState_currentState env.now .error ctx
    rw [p2pRtpMuxSignalHandler, after_get_bind, senderHead, hb]
    exact hset.trans (max_eq_right (le_error _))
  · simp only [htype, or_false]
    rw [p2pRtpMuxSignalHandler, after_get_bind, after_bind, value_onPeer, after_onPeer]
    cases hv : value (senderHead env ctx.streams msg) ctx.p2pContext with
    | none => rfl
    | some plan =>
        simp only [after_bind_pure]
        apply runSenderOps_error
        intro hmem
        have hplan := senderHead_planned hv
        generalize plan.2 = ops at hmem hplan
        cases hplan with
        | error h => exact htype h
        | _ => simp at hmem

end Sender

section Messages

variable {json : CJson} {typeStr : String}

theorem parse_type (ht : stringField json "type" = some typeStr) :
    ∃ msg, parseSignalMessage json = some msg ∧ msg.type = stringToMessageType typeStr := by
  rw [parseSignalMessage, ht]
  exact ⟨_, rfl, parseBody_type json _⟩

/-- A JSON message with a string in its type field leaves a peer in the ERROR
state exactly if the peer was there before, or the message could be allocated
and its type string decodes to the error type. -/
theorem error_state_iff (env : Env) (allocated : Bool) (ht : stringField json "type" = some typeStr) :
    (∀ ctx, (after (p2pHandleSignalMessage allocated (Receiver.p2pRtpDemuxSignalHandler env) json)
        ctx).currentState = .error ↔
      ctx.currentState = .error ∨ (allocated = true ∧ IsErrorString typeStr)) ∧
    (∀ ctx, (after (p2pHandleSignalMessage allocated (Sender.p2pRtpMuxSignalHandler env) json)
        ctx).currentState = .error ↔
      ctx.currentState = .error ∨ (allocated = true ∧ IsErrorString typeStr)) := by
  obtain ⟨msg, hparse, htype⟩ := parse_type ht
  have herror : msg.type = .error ↔ IsErrorString typeStr := by
    rw [htype]
    exact stringToMessageType_eq_error typeStr
  constructor
  · intro ctx
    simp only [p2pHandleSignalMessage, hparse]
    cases allocated with
    | false => simp
    | true =>
        simp only [if_true, true_and]
        exact (Receiver.handler_error_iff env msg ctx).trans (or_congr_right herror)
  · intro ctx
    simp only [p2pHandleSignalMessage, hparse]
    cases allocated with
    | false => simp
    | true =>
        simp only [if_true, true_and]
        exact (Sender.handler_error_iff env msg ctx).trans (or_congr_right herror)

end Messages

/-- The string of the error type itself is one of those that lead there. -/
theorem error_state_iff_error :
    (after (p2pHandleSignalMessage true (Sender.p2pRtpMuxSignalHandler (.succeeding 0 1))
      (signalJson ⟨none, none, .error none none⟩)) (Sender.State.initial [] none 30).context).currentState =
        .error :=
  ((error_state_iff (.succeeding 0 1) true (by decide +kernel)).2 _).mpr
    (Or.inr ⟨rfl, (stringToMessageType_eq_error "error").mp (by decide +kernel)⟩)

/-- The message that the trailer of the sender emits drives a receiver into the
ERROR state, although its type string is another one. -/
theorem streamEnd_is_error :
    ¬ ∀ s : Receiver.State, Receiver.system.Reachable s → ∀ env json typeStr,
      stringField json "type" = some typeStr → typeStr ≠ "error" →
      s.context.currentState ≠ .error →
      (after (p2pHandleSignalMessage true (Receiver.p2pRtpDemuxSignalHandler env) json)
        s.context).currentState ≠ .error := by
  intro h
  have hstay := h (.initial 60) (.init ⟨60, rfl⟩) (.succeeding 0 1)
    (Sender.streamEndJson (some "sender")) "stream_end" (by decide +kernel) (by decide)
    (by decide)
  exact hstay (by decide +kernel)

end P2PFFmpeg
