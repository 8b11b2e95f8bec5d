import P2PFFmpeg.Signal.Json

namespace P2PFFmpeg.Message

inductive P2PMessageType
  | joinRoom | leaveRoom | roomJoined | roomLeft | connectRequest | offer | answer | candidate
  | probeRequest | probeResponse | streamRequest | streamReady | error | unknown
  deriving DecidableEq, Repr

/-- A message type with the member of the payload union that belongs to it. A
string field is none where the C field is NULL. -/
inductive Body
  | joinRoom (roomId role capabilities : Option String)
  | leaveRoom
  | roomJoined (roomId role localId : Option String)
  | roomLeft
  | connectRequest (targetId : Option String)
  | offer (description : Option String)
  | answer (description : Option String)
  | candidate (candidate mid : Option String)
  | probeRequest (probeId : Option String) (packetSize expectedPackets timeoutMs : Int32)
  | probeResponse (probeId status : Option String) (timestamp : Int64) (crc : UInt32)
  | streamRequest (streamId : Option String)
  | streamReady (streamId : Option String)
  | error (errorCode errorMsg : Option String)
  | unknown
  deriving DecidableEq

def Body.type : Body → P2PMessageType
  | .joinRoom .. => .joinRoom
  | .leaveRoom => .leaveRoom
  | .roomJoined .. => .roomJoined
  | .roomLeft => .roomLeft
  | .connectRequest .. => .connectRequest
  | .offer .. => .offer
  | .answer .. => .answer
  | .candidate .. => .candidate
  | .probeRequest .. => .probeRequest
  | .probeResponse .. => .probeResponse
  | .streamRequest .. => .streamRequest
  | .streamReady .. => .streamReady
  | .error .. => .error
  | .unknown => .unknown

structure P2PSignalMessage where
  senderId : Option String
  receiverId : Option String
  body : Body
  deriving DecidableEq

def P2PSignalMessage.type (msg : P2PSignalMessage) : P2PMessageType := msg.body.type

theorem type_eq_error {msg : P2PSignalMessage} (h : msg.type = .error) :
    ∃ errorCode errorMsg, msg.body = .error errorCode errorMsg := by
  cases hb : msg.body with
  | error errorCode errorMsg => exact ⟨errorCode, errorMsg, rfl⟩
  | _ =>
      rw [P2PSignalMessage.type, hb] at h
      cases h

def messageTypeToString : P2PMessageType → String
  | .joinRoom => "join_room"
  | .leaveRoom => "leave_room"
  | .roomJoined => "room_joined"
  | .roomLeft => "room_left"
  | .connectRequest => "connect_request"
  | .offer => "offer"
  | .answer => "answer"
  | .candidate => "candidate"
  | .probeRequest => "probe_request"
  | .probeResponse => "probe_response"
  | .streamRequest => "stream_request"
  | .streamReady => "stream_ready"
  | .error => "error"
  | .unknown => "unknown"

/-- A string outside the table decodes to the error type, as the declaration of
p2p_string_to_message_type documents. -/
def stringToMessageType (typeStr : String) : P2PMessageType :=
  if typeStr = "join_room" then .joinRoom
  else if typeStr = "leave_room" then .leaveRoom
  else if typeStr = "room_joined" then .roomJoined
  else if typeStr = "room_left" then .roomLeft
  else if typeStr = "connect_request" then .connectRequest
  else if typeStr = "offer" then .offer
  else if typeStr = "answer" then .answer
  else if typeStr = "candidate" then .candidate
  else if typeStr = "probe_request" then .probeRequest
  else if typeStr = "probe_response" then .probeResponse
  else if typeStr = "stream_request" then .streamRequest
  else if typeStr = "stream_ready" then .streamReady
  else if typeStr = "error" then .error
  else .error

def wireTypes : List P2PMessageType :=
  [.joinRoom, .leaveRoom, .roomJoined, .roomLeft, .connectRequest, .offer, .answer, .candidate,
    .probeRequest, .probeResponse, .streamRequest, .streamReady, .error]

theorem mem_wireTypes (t : P2PMessageType) : t ∈ wireTypes ↔ t ≠ .unknown := by
  cases t <;> simp [wireTypes]

theorem find?_cons_getD {α : Type} (p : α → Bool) (a d : α) (as : List α) :
    ((a :: as).find? p).getD d = if p a then a else (as.find? p).getD d := by
  cases h : p a <;> simp [h]

theorem stringToMessageType_eq_find (s : String) :
    stringToMessageType s = (wireTypes.find? (fun t => s == messageTypeToString t)).getD .error := by
  simp only [stringToMessageType, wireTypes, find?_cons_getD, messageTypeToString, beq_iff_eq,
    List.find?_nil, Option.getD_none]

theorem stringToMessageType_toString {t : P2PMessageType} (h : t ∈ wireTypes) :
    stringToMessageType (messageTypeToString t) = t := by
  cases t <;> simp_all [wireTypes, stringToMessageType, messageTypeToString]

theorem stringToMessageType_mem (s : String) : stringToMessageType s ∈ wireTypes := by
  rw [stringToMessageType_eq_find]
  cases hf : wireTypes.find? (fun t => s == messageTypeToString t) with
  | none => simp [wireTypes]
  | some t => exact List.mem_of_find?_eq_some hf

theorem toString_stringToMessageType {s : String} (h : stringToMessageType s ≠ .error) :
    messageTypeToString (stringToMessageType s) = s := by
  rw [stringToMessageType_eq_find] at h ⊢
  cases hf : wireTypes.find? (fun t => s == messageTypeToString t) with
  | none => simp [hf] at h
  | some t =>
      have hs := List.find?_some hf
      exact (beq_iff_eq.mp hs).symm

/-- The strings outside the table, and only they together with the error string
itself, decode to the error type. -/
theorem stringToMessageType_eq_error (s : String) :
    stringToMessageType s = .error ↔ ∀ t ∈ wireTypes, s = messageTypeToString t → t = .error := by
  constructor
  · rintro h t ht rfl
    rw [← stringToMessageType_toString ht, h]
  · intro h
    by_contra hne
    have hs := toString_stringToMessageType hne
    exact hne (h _ (stringToMessageType_mem s) hs.symm)

end P2PFFmpeg.Message
