import P2PFFmpeg.Signal.Message

namespace P2PFFmpeg.Codec

open Json Message

def bodyItems (items : Items) : Body → Items
  | .joinRoom roomId role capabilities =>
      addStringToObject (addStringToObject (addStringToObject items "room_id" roomId)
        "role" role) "capabilities" capabilities
  | .roomJoined roomId role localId =>
      addStringToObject (addStringToObject (addStringToObject items "room_id" roomId)
        "role" role) "local_id" localId
  | .connectRequest targetId => addStringToObject items "target_id" targetId
  | .offer description => addStringToObject items "description" description
  | .answer description => addStringToObject items "description" description
  | .candidate candidate mid =>
      addStringToObject (addStringToObject items "candidate" candidate) "mid" mid
  | .probeRequest probeId packetSize expectedPackets timeoutMs =>
      addNumberToObject (addNumberToObject (addNumberToObject
        (addStringToObject items "probe_id" probeId) "packet_size" packetSize.toInt)
        "expected_packets" expectedPackets.toInt) "timeout_ms" timeoutMs.toInt
  | .probeResponse probeId status timestamp crc =>
      addNumberToObject (addNumberToObject (addStringToObject
        (addStringToObject items "probe_id" probeId) "status" status)
        "timestamp" timestamp.toInt) "crc" crc.toNat
  | .error errorCode errorMsg =>
      addStringToObject (addStringToObject items "error_code" errorCode) "error_msg" errorMsg
  | .leaveRoom | .roomLeft | .streamRequest _ | .streamReady _ | .unknown => items

def headItems (msg : P2PSignalMessage) : Items :=
  addStringToObject (addStringToObject
    (addStringToObject [] "type" (some (messageTypeToString msg.type)))
    "sender_id" msg.senderId) "receiver_id" msg.receiverId

/-- The JSON object that p2p_send_signal_message builds and prints. -/
def signalJson (msg : P2PSignalMessage) : CJson := .object (bodyItems (headItems msg) msg.body)

def intField (json : CJson) (name : String) : Int32 :=
  match numberItem (getObjectItem json name) with
  | some v => valueint v
  | none => 0

def stringField (json : CJson) (name : String) : Option String :=
  stringItem (getObjectItem json name)

/-- The payload that p2p_handle_signal_message reads for a type. The error type
has no case of its own there, so its payload stays zeroed. -/
def parseBody (json : CJson) : P2PMessageType → Body
  | .joinRoom =>
      .joinRoom (stringField json "room_id") (stringField json "role") (stringField json "capabilities")
  | .roomJoined =>
      .roomJoined (stringField json "room_id") (stringField json "role") (stringField json "local_id")
  | .connectRequest => .connectRequest (stringField json "target_id")
  | .offer => .offer (stringField json "description")
  | .answer => .answer (stringField json "description")
  | .candidate => .candidate (stringField json "candidate") (stringField json "mid")
  | .probeRequest =>
      .probeRequest (stringField json "probe_id") (intField json "packet_size")
        (intField json "expected_packets") (intField json "timeout_ms")
  | .probeResponse =>
      .probeResponse (stringField json "probe_id") (stringField json "status")
        (intField json "timestamp").toInt64 (intField json "crc").toUInt32
  | .streamRequest => .streamRequest (stringField json "stream_id")
  | .streamReady => .streamReady (stringField json "stream_id")
  | .leaveRoom => .leaveRoom
  | .roomLeft => .roomLeft
  | .error => .error none none
  | .unknown => .unknown

/-- The message that p2p_handle_signal_message hands to on_ws_messaged; none
where it gives up because the type field is not a string. -/
def parseSignalMessage (json : CJson) : Option P2PSignalMessage :=
  (stringField json "type").map fun typeStr =>
    { senderId := stringField json "sender_id"
      receiverId := stringField json "receiver_id"
      body := parseBody json (stringToMessageType typeStr) }

theorem parseBody_type (json : CJson) (t : P2PMessageType) : (parseBody json t).type = t := by
  cases t <;> rfl

theorem getItem_head (msg : P2PSignalMessage) (name : String) : getItem (headItems msg) name =
      ((if sameKey "type" name then some (.string (messageTypeToString msg.type)) else none).or
        (if sameKey "sender_id" name then msg.senderId.map .string else none)).or
        (if sameKey "receiver_id" name then msg.receiverId.map .string else none) := by
  simp only [headItems, getItem_addString, getItem_nil, Option.none_or, Option.map_some]

theorem getItem_body {name : String} (hn : name ∈ ["type", "sender_id", "receiver_id"])
    (items : Items) (body : Body) : getItem (bodyItems items body) name = getItem items name := by
  simp only [List.mem_cons, List.not_mem_nil, or_false] at hn
  rcases hn with rfl | rfl | rfl <;> cases body <;>
    simp [bodyItems, getItem_addString, getItem_addNumber, sameKey]

theorem signalJson_type (msg : P2PSignalMessage) :
    stringField (signalJson msg) "type" = some (messageTypeToString msg.type) := by
  simp [stringField, signalJson, getObjectItem, getItem_body, getItem_head, stringItem, sameKey]

theorem signalJson_senderId (msg : P2PSignalMessage) :
    stringField (signalJson msg) "sender_id" = msg.senderId := by
  simp [stringField, signalJson, getObjectItem, getItem_body, getItem_head, stringItem_map, sameKey]

theorem signalJson_receiverId (msg : P2PSignalMessage) :
    stringField (signalJson msg) "receiver_id" = msg.receiverId := by
  simp [stringField, signalJson, getObjectItem, getItem_body, getItem_head, stringItem_map, sameKey]

/-- What is left of a payload on the other side. An error message loses its
strings, a stream request and a stream ready message lose the stream id, and the
numbers of a probe response pass through an int. -/
def received : Body → Body
  | .error _ _ => .error none none
  | .streamRequest _ => .streamRequest none
  | .streamReady _ => .streamReady none
  | .probeResponse probeId status timestamp crc =>
      .probeResponse probeId status (valueint timestamp.toInt).toInt64 (valueint crc.toNat).toUInt32
  | .unknown => .error none none
  | body => body

theorem received_type {body : Body} (hb : body ≠ .unknown) : (received body).type = body.type := by
  cases body <;> first | rfl | exact absurd rfl hb

theorem parseBody_signalJson (msg : P2PSignalMessage) (hb : msg.body ≠ .unknown) :
    parseBody (signalJson msg) msg.type = received msg.body := by
  cases h : msg.body with
  | unknown => exact absurd h hb
  | _ =>
      simp [parseBody, P2PSignalMessage.type, h, Body.type, received, stringField, intField,
        signalJson, bodyItems, getObjectItem, getItem_addString, getItem_addNumber, getItem_head,
        numberItem, stringItem_none, stringItem_map, sameKey, valueint_int32]

/-- What p2p_handle_signal_message reads from the object that
p2p_send_signal_message builds. -/
theorem parseSignalMessage_signalJson (msg : P2PSignalMessage) :
    parseSignalMessage (signalJson msg) = some { msg with body := received msg.body } := by
  obtain ⟨senderId, receiverId, body⟩ := msg
  simp only [parseSignalMessage, signalJson_type, signalJson_senderId, signalJson_receiverId,
    Option.map_some, Option.some.injEq, P2PSignalMessage.mk.injEq, true_and]
  by_cases hb : body = .unknown
  · subst hb
    simp [P2PSignalMessage.type, Body.type, messageTypeToString, stringToMessageType, parseBody,
      received]
  · have ht : stringToMessageType (messageTypeToString body.type) = body.type := by
      refine stringToMessageType_toString ((mem_wireTypes _).mpr ?_)
      intro h
      apply hb
      cases body <;> first | rfl | cases h
    simp only [P2PSignalMessage.type, ht]
    exact parseBody_signalJson ⟨senderId, receiverId, body⟩ hb

/-- The payloads that come back as they were sent. -/
def Survives : Body → Prop
  | .error errorCode errorMsg => errorCode = none ∧ errorMsg = none
  | .streamRequest streamId => streamId = none
  | .streamReady streamId => streamId = none
  | .probeResponse _ _ timestamp crc =>
      (int32Min ≤ timestamp.toInt ∧ timestamp.toInt ≤ int32Max) ∧ (crc.toNat : Int) ≤ int32Max
  | .unknown => False
  | _ => True

theorem received_eq_iff (body : Body) : received body = body ↔ Survives body := by
  cases body with
  | probeResponse probeId status timestamp crc =>
      simp only [received, Survives, Body.probeResponse.injEq, true_and, valueint_int64,
        valueint_uint32]
  | _ => simp [received, Survives, eq_comm]

/-- The round trip of the signalling protocol restores exactly the messages
whose payload survives it. -/
theorem signal_round_trip_iff (msg : P2PSignalMessage) :
    parseSignalMessage (signalJson msg) = some msg ↔ Survives msg.body := by
  rw [parseSignalMessage_signalJson, ← received_eq_iff]
  obtain ⟨senderId, receiverId, body⟩ := msg
  simp only [Option.some.injEq, P2PSignalMessage.mk.injEq, true_and]

def streamReadyMessage : P2PSignalMessage :=
  ⟨some "sender", some "receiver", .streamReady (some "main_stream")⟩

/-- The stream_ready message that a sender really sends does not come back: its
stream id is not written. -/
theorem streamReady_loses_streamId :
    streamReadyMessage.type ∈ wireTypes ∧
      parseSignalMessage (signalJson streamReadyMessage) ≠ some streamReadyMessage ∧
      parseSignalMessage (signalJson streamReadyMessage) =
        some { streamReadyMessage with body := .streamReady none } := by
  decide

end P2PFFmpeg.Codec
