import P2PFFmpeg.Peer.Classification
import P2PFFmpeg.Util.AvString
import P2PFFmpeg.Util.Error

namespace P2PFFmpeg.Sdp

open Library Library.Program Util Peer Message

/-- rtcGetLocalDescription and rtcGetTrackDescription with a zeroed buffer: what
they return, and the text in the buffer. -/
def rtcGetDescription (size : Nat) (text : String) : Int × String :=
  if text.utf8ByteSize + 1 ≤ size then (text.utf8ByteSize + 1, text) else (-4, "")

theorem trackSdp_eq (description : String) : trackSdp description = (rtcGetDescription 1024 description).2 := by
  unfold trackSdp rtcGetDescription
  split <;> rfl

/-- The environment whose peer connections have a local description; without a buffer
for it the message has none. -/
def describing (buffer : Bool) (description : String) (env : Env) : Env :=
  { env with localDescription := if buffer then some (rtcGetDescription 4096 description).2 else none }

def sendLocalDescription (env : Env) (node : Ptr) (role : String) : PeerM Int := do
  setLocalDescription node role
  sendDescription env node role

def sentMessages (env : Env) (s s' : P2PContext) : List P2PSignalMessage :=
  if env.sendMessage < 0 then []
  else (s'.calls.drop s.calls.length).filterMap fun
    | .sendMessage msg => some msg
    | _ => none

/-- send_local_description sends the whole description, or returns an error and
sends nothing. -/
def SendsWhole (env : Env) (buffer : Bool) (node : Ptr) (role description : String) (s : P2PContext) : Prop :=
  ∃ ret, value (sendLocalDescription (describing buffer description env) node role) s = some ret ∧
    let sent := sentMessages env s (after (sendLocalDescription (describing buffer description env) node role) s)
    (∃ msg, sent = [msg] ∧ msg.body = descriptionBody role (some description)) ∨ (ret < 0 ∧ sent = [])

def classifiedFrom (a : RemoteTrack) : Option String :=
  if a.direction = .sendonly then none else some (trackSdp a.description)

theorem onPcTrackCallback_classifies (a : RemoteTrack) (node : Ptr) : onPcTrackCallback a node = (do
    let _ ← onNodes (readNode (some node))
    match classifiedFrom a with
    | none => pure ()
    | some sdp => classifyTrack sdp a node) := by
  unfold onPcTrackCallback classifiedFrom
  by_cases hdir : a.direction = .sendonly
  · simp only [if_pos hdir]
  · simp only [if_neg hdir]

/-- A track is only classified from its whole description. -/
def ClassifiesWhole (a : RemoteTrack) : Prop := ∀ text, classifiedFrom a = some text → text = a.description

def sdpMaxSize : Nat := 16384

/-- What the calls of webrtc_create_resource return: the server's answer with the
error that ends it early, and what rtcSetRemoteDescription returns for the text
it is given, or for a buffer without a NUL. -/
structure ResourceEnv where
  setLocalDescription : Int
  offer : String
  ffurlAlloc : Int
  ffurlConnect : Int
  answer : List UInt8
  readError : Option Int
  setRemoteDescription : Option (List UInt8) → Int
  ffurlClosep : Int

/-- The ways in which webrtc_create_resource ends without a result. -/
inductive ResourceFault
  /-- `headers` is freed before it is set. -/
  | wildFree
deriving DecidableEq, Repr

def ffurlReadComplete (size : Nat) (env : ResourceEnv) : Int :=
  if size ≤ env.answer.length then size
  else match env.readError with
    | some err => err
    | none => if env.answer = [] then averrorEof else env.answer.length

def responseSdp (answer : List UInt8) : List UInt8 :=
  answer.take sdpMaxSize ++ List.replicate (sdpMaxSize - answer.length) 0

def bufferText (buf : List UInt8) : Option (List UInt8) := (strchr buf 0).map buf.take

/-- What webrtc_create_resource returns, and the text it gives to
rtcSetRemoteDescription. -/
def webrtcCreateResource (env : ResourceEnv) : Except ResourceFault (Int × Option (Option (List UInt8))) :=
  if env.setLocalDescription ≠ 0 then .error .wildFree
  else if (rtcGetDescription sdpMaxSize env.offer).1 < 0 then .error .wildFree
  else if env.ffurlAlloc < 0 then .error .wildFree
  else if env.ffurlConnect < 0 then .ok (env.ffurlConnect, none)
  else
    let ret := ffurlReadComplete sdpMaxSize env
    if ret < 0 then .ok (ret, none)
    else
      let text := bufferText (responseSdp env.answer)
      let ret := env.setRemoteDescription text
      if ret < 0 then .ok (ret, some text)
      else if env.ffurlClosep < 0 then .ok (env.ffurlClosep, some text)
      else .ok (0, some text)

/-- webrtc_create_resource gives the whole answer to rtcSetRemoteDescription, or
returns an error. -/
def AnswersWhole (env : ResourceEnv) : Prop :=
  ∃ ret given, webrtcCreateResource env = .ok (ret, given) ∧ (given = some (some env.answer) ∨ ret < 0)

def Fits (size : Nat) (text : String) : Prop := text.utf8ByteSize < size

/-- The message has memory, and the description a buffer and room in its 4096 bytes,
or the socket does not take the message. -/
def Describes (env : Env) (buffer : Bool) (description : String) : Prop :=
  env.allocMessage = true ∧ (buffer = true ∧ Fits 4096 description ∨ env.sendMessage < 0)

/-- The offer has room, and the answer too and holds no NUL, or a call fails once
the headers are set. -/
structure Answers (env : ResourceEnv) : Prop where
  described : env.setLocalDescription = 0
  offer : Fits sdpMaxSize env.offer
  alloc : 0 ≤ env.ffurlAlloc
  answer : env.ffurlConnect < 0 ∨ ffurlReadComplete sdpMaxSize env < 0 ∨
    (env.answer.length < sdpMaxSize ∧ 0 ∉ env.answer) ∨
    env.setRemoteDescription (bufferText (responseSdp env.answer)) < 0 ∨ env.ffurlClosep < 0

section Send

variable {env : Env} {buffer : Bool} {node : Ptr} {role description : String} {s : P2PContext} {n : PeerConnectionNode}

theorem rtcGetDescription_eq_iff {size : Nat} (hsize : 0 < size) (text : String) :
    (rtcGetDescription size text).2 = text ↔ Fits size text := by
  unfold rtcGetDescription Fits
  split
  · next hroom => exact iff_of_true rfl hroom
  · next hroom =>
      refine iff_of_false (fun hempty => hroom ?_) hroom
      rw [← hempty]
      exact hsize

theorem rtcGetDescription_neg_iff (size : Nat) (text : String) :
    (rtcGetDescription size text).1 < 0 ↔ ¬Fits size text := by
  unfold rtcGetDescription Fits
  split
  · next hroom => exact iff_of_false (by omega) (not_not.mpr hroom)
  · next hroom => exact iff_of_true (by decide) hroom

def describedState (n : PeerConnectionNode) (role : String) (s : P2PContext) : P2PContext :=
  { s with calls := s.calls ++ [.setLocalDescription n.pcId role] }

theorem setLocalDescription_value (hnode : nodeAt node s = some n) :
    value (setLocalDescription node role) s = some () := by
  rw [setLocalDescription, value_bind, readNode_some hnode, readNode_after]
  rfl

theorem setLocalDescription_after (hnode : nodeAt node s = some n) :
    after (setLocalDescription node role) s = describedState n role s := by
  rw [setLocalDescription, after_bind, readNode_some hnode, readNode_after]
  rfl

def descriptionMessage (env : Env) (n : PeerConnectionNode) (role : String) (s : P2PContext) : P2PSignalMessage where
  senderId := s.localId
  receiverId := n.remoteId
  body := descriptionBody role env.localDescription

theorem sendLocalDescription_value (hnode : nodeAt node s = some n) :
    value (sendLocalDescription env node role) s =
      if env.allocMessage = false then none else some env.sendMessage := by
  have hnode' : (describedState n role s).peerConnectionNodeCaches.get? node = some n := hnode
  rw [sendLocalDescription, value_bind, setLocalDescription_value hnode, setLocalDescription_after hnode,
    Option.bind_some, sendDescription, value_bind, readNode_some hnode', readNode_after, Option.bind_some,
    value_get_bind]
  split
  · rfl
  · rfl

theorem sendLocalDescription_after (hnode : nodeAt node s = some n) (halloc : env.allocMessage ≠ false) :
    after (sendLocalDescription env node role) s =
      { s with calls := s.calls ++ [.setLocalDescription n.pcId role] ++
        [.sendMessage (descriptionMessage env n role s)] } := by
  have hnode' : (describedState n role s).peerConnectionNodeCaches.get? node = some n := hnode
  rw [sendLocalDescription, after_bind, setLocalDescription_value hnode, setLocalDescription_after hnode]
  dsimp only
  rw [sendDescription, after_bind, readNode_some hnode', readNode_after]
  dsimp only
  rw [after_get_bind, if_neg halloc]
  rfl

theorem descriptionBody_inj {d d' : Option String} :
    descriptionBody role d = descriptionBody role d' ↔ d = d' := by
  unfold descriptionBody
  split <;> simp

theorem sentMessages_after (msg : P2PSignalMessage) (pcId : Int) :
    sentMessages env s { s with calls := s.calls ++ [.setLocalDescription pcId role] ++ [.sendMessage msg] } =
      if env.sendMessage < 0 then [] else [msg] := by
  rw [sentMessages, List.append_assoc, List.drop_left]
  rfl

theorem sendsWhole_iff (hnode : nodeAt node s = some n) :
    SendsWhole env buffer node role description s ↔ Describes env buffer description := by
  unfold SendsWhole
  rw [sendLocalDescription_value hnode]
  change (∃ ret, (if env.allocMessage = false then none else some env.sendMessage) = some ret ∧ _) ↔ _
  by_cases halloc : env.allocMessage = false
  · rw [if_pos halloc]
    refine iff_of_false ?_ fun h => ?_
    · rintro ⟨ret, hret, -⟩
      cases hret
    · rw [h.1] at halloc
      cases halloc
  have hafter := @sendLocalDescription_after (describing buffer description env) node role s n hnode halloc
  rw [if_neg halloc, hafter, sentMessages_after]
  simp only [Option.some_inj, exists_eq_left']
  have hwhole := @rtcGetDescription_eq_iff 4096 (by decide) description
  have hbody : (descriptionMessage (describing buffer description env) n role s).body =
      descriptionBody role (some description) ↔ buffer = true ∧ Fits 4096 description := by
    rw [← hwhole]
    refine descriptionBody_inj.trans ?_
    cases buffer with
    | true => exact Option.some_inj.trans (and_iff_right rfl).symm
    | false => exact iff_of_false (Option.some_ne_none _).symm fun hno => Bool.noConfusion hno.1
  by_cases hsend : env.sendMessage < 0
  · rw [if_pos hsend]
    exact iff_of_true (Or.inr ⟨hsend, rfl⟩) ⟨(Bool.not_eq_false _).mp halloc, Or.inr hsend⟩
  · rw [if_neg hsend]
    constructor
    · rintro (⟨msg, hmsg, hcontent⟩ | ⟨hrefused, -⟩)
      · obtain rfl := List.singleton_inj.mp hmsg
        exact ⟨(Bool.not_eq_false _).mp halloc, Or.inl (hbody.mp hcontent)⟩
      · exact absurd hrefused hsend
    · rintro ⟨-, hfits⟩
      exact Or.inl ⟨_, rfl, hbody.mpr (hfits.resolve_right hsend)⟩

end Send

section Classify

variable {a : RemoteTrack}

theorem classifiesWhole_iff : ClassifiesWhole a ↔ a.direction = .sendonly ∨ Fits 1024 a.description := by
  have hwhole := @rtcGetDescription_eq_iff 1024 (by decide) a.description
  unfold ClassifiesWhole classifiedFrom
  rw [trackSdp_eq]
  by_cases hdir : a.direction = .sendonly
  · rw [if_pos hdir]
    exact iff_of_true nofun (Or.inl hdir)
  · rw [if_neg hdir, or_iff_right hdir, ← hwhole]
    constructor
    · intro h
      exact h _ rfl
    · rintro h text htext
      exact (Option.some.inj htext).symm.trans h

end Classify

section Answer

variable {env : ResourceEnv}

theorem bufferText_responseSdp (answer : List UInt8) :
    bufferText (responseSdp answer) = some answer ↔ answer.length < sdpMaxSize ∧ 0 ∉ answer := by
  unfold bufferText
  constructor
  · intro h
    obtain ⟨i, hi, htext⟩ := Option.map_eq_some_iff.mp h
    obtain ⟨hlt, hfirst, -⟩ := strchr_eq_some hi
    rw [htext] at hfirst
    refine ⟨?_, hfirst⟩
    by_contra hlong
    rw [responseSdp, Nat.sub_eq_zero_of_le (Nat.not_lt.mp hlong), List.replicate_zero, List.append_nil] at hlt htext
    have hlength := congrArg List.length htext
    rw [List.length_take, Nat.min_eq_left (Nat.le_of_lt hlt)] at hlength
    rw [List.length_take] at hlt
    omega
  · rintro ⟨hroom, hnul⟩
    obtain ⟨m, hm⟩ := Nat.exists_eq_succ_of_ne_zero (Nat.sub_ne_zero_of_lt hroom)
    rw [responseSdp, List.take_of_length_le (Nat.le_of_lt hroom), hm, List.replicate_succ, strchr_behind hnul,
      Option.map_some, List.take_left]

theorem answersWhole_iff : AnswersWhole env ↔ Answers env := by
  have hoffer := rtcGetDescription_neg_iff sdpMaxSize env.offer
  unfold AnswersWhole webrtcCreateResource
  by_cases hlocal : env.setLocalDescription ≠ 0
  · rw [if_pos hlocal]
    exact iff_of_false nofun fun h => hlocal h.described
  rw [if_neg hlocal]
  by_cases hfits : (rtcGetDescription sdpMaxSize env.offer).1 < 0
  · rw [if_pos hfits]
    exact iff_of_false nofun fun h => hoffer.mp hfits h.offer
  rw [if_neg hfits]
  rw [hoffer, not_not] at hfits
  by_cases halloc : env.ffurlAlloc < 0
  · rw [if_pos halloc]
    exact iff_of_false nofun fun h => absurd halloc (Int.not_lt.mpr h.alloc)
  rw [if_neg halloc]
  have hanswers := fun h => (⟨Decidable.not_not.mp hlocal, hfits, Int.not_lt.mp halloc, h⟩ : Answers env)
  by_cases hconnect : env.ffurlConnect < 0
  · rw [if_pos hconnect]
    exact iff_of_true ⟨_, _, rfl, Or.inr hconnect⟩ (hanswers (Or.inl hconnect))
  rw [if_neg hconnect]
  by_cases hread : ffurlReadComplete sdpMaxSize env < 0
  · simp only [if_pos hread]
    exact iff_of_true ⟨_, _, rfl, Or.inr hread⟩ (hanswers (Or.inr (Or.inl hread)))
  simp only [if_neg hread]
  by_cases hset : env.setRemoteDescription (bufferText (responseSdp env.answer)) < 0
  · simp only [if_pos hset]
    exact iff_of_true ⟨_, _, rfl, Or.inr hset⟩ (hanswers (Or.inr (Or.inr (Or.inr (Or.inl hset)))))
  simp only [if_neg hset]
  by_cases hclose : env.ffurlClosep < 0
  · simp only [if_pos hclose]
    exact iff_of_true ⟨_, _, rfl, Or.inr hclose⟩ (hanswers (Or.inr (Or.inr (Or.inr (Or.inr hclose)))))
  simp only [if_neg hclose]
  constructor
  · rintro ⟨ret, given, hret, hgiven⟩
    obtain ⟨rfl, rfl⟩ := Prod.mk.inj (Except.ok.inj hret)
    rcases hgiven with hwhole | hneg
    · exact hanswers (Or.inr (Or.inr (Or.inl ((bufferText_responseSdp _).mp (Option.some.inj hwhole)))))
    · cases hneg
  · intro h
    refine ⟨0, _, rfl, Or.inl (congrArg some ((bufferText_responseSdp _).mpr ?_))⟩
    simpa only [hconnect, hread, hset, hclose, false_or, or_false] using h.answer

end Answer

/-- The descriptions are never cut where each has room in its buffer. -/
theorem descriptions_whole_iff {env : Env} {buffer : Bool} {node : Ptr} {role description : String}
    {s : P2PContext} {n : PeerConnectionNode} (hnode : nodeAt node s = some n) (resource : ResourceEnv)
    (track : RemoteTrack) :
    (SendsWhole env buffer node role description s ∧ AnswersWhole resource ∧ ClassifiesWhole track) ↔
      Describes env buffer description ∧ Answers resource ∧
        (track.direction = .sendonly ∨ Fits 1024 track.description) :=
  and_congr (sendsWhole_iff hnode) (and_congr answersWhole_iff classifiesWhole_iff)

section Examples

/-- A resource whose calls all succeed. -/
def workingResource (answer : List UInt8) : ResourceEnv where
  setLocalDescription := 0
  offer := "v=0"
  ffurlAlloc := 0
  ffurlConnect := 0
  answer := answer
  readError := none
  setRemoteDescription := fun _ => 0
  ffurlClosep := 0

theorem descriptions_whole_short :
    SendsWhole (Env.succeeding 0 1) true 0 "offer" "v=0" oneNode.p2pContext ∧ AnswersWhole (workingResource [118]) ∧
      ClassifiesWhole (workingTrack 1 "m=video 9 UDP/TLS/RTP/SAVPF 96") := by
  refine (@descriptions_whole_iff (Env.succeeding 0 1) true 0 "offer" "v=0" oneNode.p2pContext (newNode (some "a") 1) rfl
    (workingResource [118]) (workingTrack 1 "m=video 9 UDP/TLS/RTP/SAVPF 96")).mpr ⟨⟨rfl, Or.inl ⟨rfl, ?_⟩⟩, ?_, Or.inr ?_⟩
  · unfold Fits
    decide
  · refine ⟨rfl, ?_, Int.le_refl 0, Or.inr (Or.inr (Or.inl (by decide)))⟩
    unfold Fits
    decide
  · unfold Fits
    decide

def letters : Nat → String
  | 0 => ""
  | n + 1 => (letters n).push 'a'

theorem utf8ByteSize_letters (n : Nat) : (letters n).utf8ByteSize = n := by
  induction n with
  | zero => rfl
  | succ n ih =>
      rw [letters, String.utf8ByteSize_push, ih]
      rfl

/-- In the place of a description of 4096 bytes an empty one is sent. -/
theorem long_description_sent_empty :
    ¬ ∀ (description : String) (resource : ResourceEnv) (track : RemoteTrack),
      SendsWhole (Env.succeeding 0 1) true 0 "offer" description oneNode.p2pContext ∧ AnswersWhole resource ∧
        ClassifiesWhole track := by
  intro h
  have hsends := (h (letters 4096) (workingResource []) (workingTrack 1 "m=video")).1
  rw [@sendsWhole_iff (Env.succeeding 0 1) true 0 "offer" _ oneNode.p2pContext (newNode (some "a") 1) rfl] at hsends
  rcases hsends.2 with ⟨-, hfits⟩ | hrefused
  · unfold Fits at hfits
    rw [utf8ByteSize_letters] at hfits
    exact absurd hfits (Nat.lt_irrefl 4096)
  · exact absurd hrefused (by decide)

end Examples

end P2PFFmpeg.Sdp
