import P2PFFmpeg.Rtp.Reordering

namespace P2PFFmpeg.Rtp

open Util Library.Transition

variable {σ : Type} {env : Env} {s t : RTPDemuxContext σ} {pkt : AVPacket} {buf : Buffer}
  {handler : RTPDynamicProtocolHandler σ} {held : σ → List (List UInt8)}

/-- A handler that may find several frames in one packet: it returns 1 while it
holds further frames, and gives the next one when it is asked without a buffer. -/
structure MultiFrame (handler : RTPDynamicProtocolHandler σ) (held : σ → List (List UInt8)) :
    Prop where
  bound : ∀ ctx pkt timestamp payload, (handler.parsePacket ctx pkt timestamp payload).rv ≤ 1
  more : ∀ ctx pkt timestamp payload, (handler.parsePacket ctx pkt timestamp payload).rv = 1 ↔
    held (handler.parsePacket ctx pkt timestamp payload).ctx ≠ []
  next : ∀ ctx pkt timestamp frame rest, held ctx = frame :: rest →
    0 ≤ (handler.parsePacket ctx pkt timestamp none).rv ∧
    (handler.parsePacket ctx pkt timestamp none).pkt.data = frame ∧
    held (handler.parsePacket ctx pkt timestamp none).ctx = rest

/-- No packet was given to the handler while it held frames. -/
def GivenEmpty (held : σ → List (List UInt8)) (calls : List (Call σ)) : Prop :=
  ∀ ctx payload, .parsePacket ctx (some payload) ∈ calls → held ctx = []

/-- What a parsing function owes: packets were given to an empty handler only,
and frames are held only under the result 1. -/
structure Faithful (handler : RTPDynamicProtocolHandler σ) (held : σ → List (List UInt8))
    (r : Parsed σ) : Prop where
  handler : r.ctx.handler = some handler
  given : GivenEmpty held r.ctx.calls
  bound : r.rv ≤ 1
  rest : held r.ctx.dynamicProtocolContext ≠ [] → r.rv = 1

structure Emptied (handler : RTPDynamicProtocolHandler σ) (held : σ → List (List UInt8))
    (s : RTPDemuxContext σ) : Prop where
  handler : s.handler = some handler
  given : GivenEmpty held s.calls
  empty : held s.dynamicProtocolContext = []

theorem Emptied.faithful (h : Emptied handler held s) {rv : Int} (hrv : rv ≤ 1) :
    Faithful handler held ⟨rv, pkt, s⟩ :=
  ⟨h.handler, h.given, hrv, fun hne => absurd h.empty hne⟩

variable {d : Decoder σ} {r : Parsed σ}

theorem Faithful.emptied (h : Faithful handler held r) (hrv : r.rv < 0) : Emptied handler held r.ctx := by
  refine ⟨h.handler, h.given, ?_⟩
  by_contra hne
  have hone := h.rest hne
  omega

theorem Still.emptied (h : Still s t) (g : Emptied handler held s) : Emptied handler held t where
  handler := by rw [h.handler]; exact g.handler
  given := by rw [h.calls]; exact g.given
  empty := by rw [h.dynamicProtocolContext]; exact g.empty

theorem Joins.emptied {packet : RTPPacket} (h : Joins s t packet) (g : Emptied handler held s) :
    Emptied handler held t where
  handler := by rw [h.handler]; exact g.handler
  given := by rw [h.calls]; exact g.given
  empty := by rw [h.dynamicProtocolContext]; exact g.empty

theorem GivenEmpty.append {calls new : List (Call σ)} (h : GivenEmpty held calls)
    (g : ∀ ctx payload, .parsePacket ctx (some payload) ∈ new → held ctx = []) :
    GivenEmpty held (calls ++ new) := by
  intro ctx payload hmem
  rcases List.mem_append.mp hmem with hmem | hmem
  · exact h ctx payload hmem
  · exact g ctx payload hmem

theorem internal_faithful (hm : MultiFrame handler held) (env : Env) (pkt : AVPacket)
    (buf : Buffer) (h : Emptied handler held s) :
    Faithful handler held (rtpParsePacketInternal env s pkt buf) := by
  have hhandler := (internal_keeps env s pkt buf).handler.trans h.handler
  cases internal_verdict env s pkt buf with
  | rejected rv seq calls ctx =>
      refine ⟨hhandler, ?_, by omega, fun hne => ?_⟩
      · rw [calls]
        exact h.given.append (by simp)
      · rw [ctx] at hne
        exact absurd h.empty hne
  | malformed e payload rv seq calls ctx =>
      refine ⟨hhandler, ?_, by omega, fun hne => ?_⟩
      · rw [calls]
        exact h.given.append (by simp)
      · rw [ctx] at hne
        exact absurd h.empty hne
  | unhandled hnone => cases hnone.symm.trans h.handler
  | handled found hs body payload pkt' timestamp p hp rv seq calls ctx =>
      cases hs.symm.trans h.handler
      refine ⟨hhandler, ?_, ?_, ?_⟩
      · rw [calls]
        refine h.given.append fun x payload hmem => ?_
        simp only [List.mem_cons, reduceCtorEq, Call.parsePacket.injEq, List.not_mem_nil, or_false,
          false_or] at hmem
        rw [hmem.1]
        exact h.empty
      · rw [rv]
        exact hm.bound _ _ _ _
      · rw [rv, ctx]
        exact (hm.more _ _ _ _).mpr

theorem queued_faithful (hm : MultiFrame handler held) (env : Env) (pkt : AVPacket)
    (h : Emptied handler held s) : Faithful handler held (rtpParseQueuedPacket env s pkt) := by
  by_cases hlen : s.queueLen ≤ 0
  · rw [queued_none env pkt (.inl hlen)]
    exact h.faithful (by decide)
  cases hq : s.queue with
  | nil =>
      rw [queued_none env pkt (.inr hq)]
      exact h.faithful (by decide)
  | cons packet rest =>
      rw [queued_head env pkt (by omega) hq]
      have hin := internal_faithful hm env pkt packet.buf h
      exact ⟨hin.handler, hin.given.append (by simp), hin.bound, hin.rest⟩

theorem drain_faithful (hm : MultiFrame handler held) (env : Env) (turns : List RTPPacket)
    (h : Faithful handler held r) : Faithful handler held (drain env turns r) := by
  induction turns generalizing r with
  | nil => exact h
  | cons packet rest ih =>
      unfold drain
      by_cases hmore : r.rv < 0 ∧ hasNextPacket r.ctx
      · rw [if_pos hmore]
        exact ih (queued_faithful hm env r.pkt (h.emptied hmore.1))
      · rw [if_neg hmore]
        exact h

theorem drain_of_nonneg (env : Env) (turns : List RTPPacket) (h : 0 ≤ r.rv) : drain env turns r = r := by
  cases turns with
  | nil => rfl
  | cons packet rest =>
      unfold drain
      exact if_neg fun hmore => absurd hmore.1 (by omega)

theorem Arrival.faithful (hm : MultiFrame handler held) {out : Parsed σ × Option Buffer}
    (h : Arrival env s pkt buf out) (g : Emptied handler held s) : Faithful handler held out.1 := by
  cases h with
  | dropped r rv still =>
      have hr := still.emptied g
      exact ⟨hr.handler, hr.given, le_trans (le_of_lt rv) Int.one_nonneg, fun hne => absurd hr.empty hne⟩
  | direct t still now => exact internal_faithful hm env pkt buf (still.emptied g)
  | waits t packet hseq hbuf joins => exact (joins.emptied g).faithful (by decide)
  | full t packet hseq hbuf joins => exact queued_faithful hm env pkt (joins.emptied g)

structure Between (handler : RTPDynamicProtocolHandler σ) (held : σ → List (List UInt8))
    (d : Decoder σ) : Prop where
  handler : d.ctx.handler = some handler
  given : GivenEmpty held d.ctx.calls
  rest : held d.ctx.dynamicProtocolContext ≠ [] → d.result = 1 ∧ d.ctx.prevRet = 1

theorem Between.emptied (h : Between handler held d) (hresult : d.result ≠ 1) :
    Emptied handler held d.ctx := by
  refine ⟨h.handler, h.given, ?_⟩
  by_contra hne
  exact hresult (h.rest hne).1

theorem more_faithful (hm : MultiFrame handler held) (env : Env) (pkt : AVPacket)
    (h : Between handler held d) : Faithful handler held (rtpParseOnePacket env d.ctx pkt none).1 := by
  obtain ⟨hprev, heq⟩ | ⟨_, hnone, _⟩ | ⟨found, _, hfound, pts, base, unwrapped, time, heq⟩ :=
    one_more env d.ctx pkt
  · have hempty : held d.ctx.dynamicProtocolContext = [] := by
      by_contra hne
      have hone := (h.rest hne).2
      omega
    rw [heq]
    exact queued_faithful hm env pkt ⟨h.handler, h.given, hempty⟩
  · cases hnone.symm.trans h.handler
  · cases hfound.symm.trans h.handler
    rw [heq]
    exact ⟨h.handler, h.given.append (by simp), hm.bound _ _ _ _, (hm.more _ _ _ _).mpr⟩

def looped (env : Env) (s : RTPDemuxContext σ) (pkt : AVPacket) (bufptr : Option Buffer) :
    Parsed σ :=
  let r := (rtpParseOnePacket env s pkt bufptr).1
  drain env r.ctx.queue { r with ctx := { r.ctx with prevRet := r.rv } }

theorem ffRtpParsePacket_looped {plain bufptr : Option Buffer}
    (h : decrypted env s bufptr = some plain) :
    (ffRtpParsePacket env s pkt bufptr).1 =
      let r := looped env s pkt plain
      { r with rv := if r.rv ≠ 0 then r.rv else if hasNextPacket r.ctx then 1 else 0 } := by
  unfold ffRtpParsePacket
  rw [h]
  rfl

/-- The loop, which runs when the packet of the call gave nothing, does not end
on a packet that leaves frames in the handler. -/
def loopLeavesNone (held : σ → List (List UInt8)) (d : Decoder σ) : RtpLabel → Prop
  | .parsePacket env pkt bufptr => ∀ plain, decrypted env d.ctx bufptr = some plain →
      (rtpParseOnePacket env d.ctx pkt plain).1.rv < 0 →
      held (looped env d.ctx pkt plain).ctx.dynamicProtocolContext = []
  | .resetPacketQueue => True

theorem call_between (hm : MultiFrame handler held) {plain bufptr : Option Buffer}
    (hdec : decrypted env d.ctx bufptr = some plain)
    (hone : Faithful handler held (rtpParseOnePacket env d.ctx pkt plain).1)
    (hloop : loopLeavesNone held d (.parsePacket env pkt bufptr)) :
    Between handler held ⟨(ffRtpParsePacket env d.ctx pkt bufptr).1.ctx,
      (ffRtpParsePacket env d.ctx pkt bufptr).1.rv⟩ := by
  have hloop := hloop plain hdec
  rw [ffRtpParsePacket_looped hdec]
  generalize hr : (rtpParseOnePacket env d.ctx pkt plain).1 = r at hone hloop
  have hlooped : looped env d.ctx pkt plain =
      drain env r.ctx.queue { r with ctx := { r.ctx with prevRet := r.rv } } := by
    rw [← hr]
    rfl
  have hstart : Faithful handler held { r with ctx := { r.ctx with prevRet := r.rv } } :=
    ⟨hone.handler, hone.given, hone.bound, hone.rest⟩
  have hend := drain_faithful hm env r.ctx.queue hstart
  rw [← hlooped] at hend
  refine ⟨hend.handler, hend.given, fun hne => ?_⟩
  by_cases hneg : r.rv < 0
  · exact absurd (hloop hneg) hne
  · have hnonneg : 0 ≤ r.rv := by omega
    replace hlooped := hlooped.trans (drain_of_nonneg env _ hnonneg)
    simp only [hlooped] at hne ⊢
    have hrv := hone.rest hne
    rw [hrv]
    exact ⟨rfl, rfl⟩

/-- A decoder for a handler that starts with nothing held. -/
def framing (handler : RTPDynamicProtocolHandler σ) (held : σ → List (List UInt8)) :
    System (Decoder σ) RtpLabel where
  init d := (decoder σ).init d ∧ d.ctx.handler = some handler ∧
    held d.ctx.dynamicProtocolContext = []
  next := (decoder σ).next

def keepsAsking (d : Decoder σ) (l : RtpLabel) : Bool :=
  d.result ≠ 1 || match l with
    | .parsePacket _ _ none => true
    | _ => false

theorem between_of_reachable (hm : MultiFrame handler held)
    (h : (((framing handler held).guard keepsAsking).restrict (loopLeavesNone held)).Reachable d) :
    Between handler held d := by
  refine System.Reachable.invariant (Between handler held) ?_ ?_ h
  · rintro d ⟨⟨_, nbStreams, st, payloadType, queueSize, data, found, crypto, hopen⟩, hhandler, hempty⟩
    refine ⟨hhandler, ?_, fun hne => absurd hempty hne⟩
    rw [hopen]
    intro ctx payload hmem
    cases hmem
  · rintro d l e _ hinv hnext
    obtain ⟨hloop, hguard⟩ := System.restrict_next.mp hnext
    obtain ⟨hasks, hstep⟩ := System.guard_next.mp hguard
    cases l with
    | resetPacketQueue =>
        cases hstep
        have hresult : d.result ≠ 1 := by simpa [keepsAsking] using hasks
        have hempty := (hinv.emptied hresult).empty
        refine ⟨hinv.handler, hinv.given.append ?_, fun hne => absurd hempty hne⟩
        simp
    | parsePacket env pkt bufptr =>
        cases hstep
        cases hdec : decrypted env d.ctx bufptr with
        | none =>
            have hresult : d.result ≠ 1 := by
              cases bufptr with
              | none => simp [decrypted] at hdec
              | some buf => simpa [keepsAsking] using hasks
            have hempty := (hinv.emptied hresult).empty
            have heq : (ffRtpParsePacket env d.ctx pkt bufptr).1 = ⟨-1, pkt, d.ctx⟩ := by
              unfold ffRtpParsePacket
              rw [hdec]
            rw [heq]
            exact ⟨hinv.handler, hinv.given, fun hne => absurd hempty hne⟩
        | some plain =>
            refine call_between hm hdec ?_ hloop
            cases plain with
            | none => exact more_faithful hm env pkt hinv
            | some buf =>
                have hresult : d.result ≠ 1 := by
                  cases bufptr with
                  | none => simp [decrypted] at hdec
                  | some _ => simpa [keepsAsking] using hasks
                exact (one_arrival env d.ctx pkt buf).faithful hm (hinv.emptied hresult)

def fetch : List (Env × AVPacket) → Decoder σ → List (Int × List UInt8) × Decoder σ
  | [], d => ([], d)
  | (env, pkt) :: asks, d =>
      let r := (ffRtpParsePacket env d.ctx pkt none).1
      let (out, e) := fetch asks ⟨r.ctx, r.rv⟩
      ((r.rv, r.pkt.data) :: out, e)

/-- One question to a handler that holds a frame: the frame is returned, the
result is not negative, and nothing but the handler is called. -/
theorem ask_next (hm : MultiFrame handler held) (env : Env) (pkt : AVPacket) {frame : List UInt8}
    {rest : List (List UInt8)} (hhandler : d.ctx.handler = some handler)
    (hheld : held d.ctx.dynamicProtocolContext = frame :: rest) (hprev : 0 < d.ctx.prevRet) :
    let r := (ffRtpParsePacket env d.ctx pkt none).1
    0 ≤ r.rv ∧ r.pkt.data = frame ∧ r.ctx.handler = some handler ∧
      held r.ctx.dynamicProtocolContext = rest ∧ (rest ≠ [] → 0 < r.ctx.prevRet) ∧
      r.ctx.calls = d.ctx.calls ++ [.parsePacket d.ctx.dynamicProtocolContext none] := by
  obtain ⟨hle, _⟩ | ⟨_, hnone, _⟩ | ⟨found, _, hfound, pts, base, unwrapped, time, heq⟩ :=
    one_more env d.ctx pkt
  · omega
  · cases hnone.symm.trans hhandler
  · cases hfound.symm.trans hhandler
    obtain ⟨hnonneg, hdata, hrest⟩ := hm.next d.ctx.dynamicProtocolContext pkt rtpNotsValue frame
      rest hheld
    have hmore := hm.more d.ctx.dynamicProtocolContext pkt rtpNotsValue none
    have hlooped : looped env d.ctx pkt none = _ := drain_of_nonneg env _ (by rw [heq]; exact hnonneg)
    rw [heq] at hlooped
    intro r
    have hr : r = _ := ffRtpParsePacket_looped rfl
    rw [hlooped] at hr
    rw [hr]
    refine ⟨?_, hdata, hhandler, hrest, fun hne => ?_, rfl⟩
    · dsimp only
      split_ifs
      · exact hnonneg
      · decide
      · decide
    · rw [← hrest] at hne
      have hone := hmore.mpr hne
      exact lt_of_lt_of_eq Int.zero_lt_one hone.symm

/-- Asking as often as there are frames returns them all, in order, and gives
the handler no other packet. -/
theorem fetch_all (hm : MultiFrame handler held) {frames : List (List UInt8)}
    {asks : List (Env × AVPacket)} (hhandler : d.ctx.handler = some handler)
    (hheld : held d.ctx.dynamicProtocolContext = frames) (hprev : frames ≠ [] → 0 < d.ctx.prevRet)
    (hasks : asks.length = frames.length) :
    (fetch asks d).1.map Prod.snd = frames ∧ (∀ x ∈ (fetch asks d).1, 0 ≤ x.1) ∧
      held (fetch asks d).2.ctx.dynamicProtocolContext = [] ∧
      ∃ new, (fetch asks d).2.ctx.calls = d.ctx.calls ++ new ∧
        ∀ call ∈ new, ∃ ctx, call = .parsePacket ctx none := by
  induction frames generalizing asks d with
  | nil =>
      rw [List.length_eq_zero_iff.mp hasks]
      exact ⟨rfl, by simp [fetch], hheld, [], by simp [fetch], by simp⟩
  | cons frame rest ih =>
      cases asks with
      | nil => cases hasks
      | cons ask asks =>
          obtain ⟨env, pkt⟩ := ask
          obtain ⟨hrv, hdata, hhandler', hrest, hprev', hcalls⟩ :=
            ask_next hm env pkt hhandler hheld (hprev (by simp))
          obtain ⟨hout, hresults, hend, new, hnew, honly⟩ := @ih
            ⟨(ffRtpParsePacket env d.ctx pkt none).1.ctx, (ffRtpParsePacket env d.ctx pkt none).1.rv⟩ asks
            hhandler' hrest hprev' (Nat.succ.inj hasks)
          refine ⟨?_, ?_, hend, .parsePacket d.ctx.dynamicProtocolContext none :: new, ?_, ?_⟩
          · exact congrArg₂ List.cons hdata hout
          · intro x hx
            rcases List.mem_cons.mp hx with rfl | hx
            · exact hrv
            · exact hresults x hx
          · refine hnew.trans ?_
            rw [hcalls, List.append_assoc]
            rfl
          · intro call hcall
            rcases List.mem_cons.mp hcall with rfl | hcall
            · exact ⟨_, rfl⟩
            · exact honly call hcall

/-- As long as the loop leaves no frame in the handler, packets are only given
to a handler that holds nothing, and held frames are all returned by the calls
the caller is told to make. -/
theorem held_frames_returned (hm : MultiFrame handler held) {d : Decoder σ}
    (h : (((framing handler held).guard keepsAsking).restrict (loopLeavesNone held)).Reachable d) :
    GivenEmpty held d.ctx.calls ∧
    (held d.ctx.dynamicProtocolContext ≠ [] → d.result = 1) ∧
    ∀ asks : List (Env × AVPacket), asks.length = (held d.ctx.dynamicProtocolContext).length →
      (fetch asks d).1.map Prod.snd = held d.ctx.dynamicProtocolContext ∧
      (∀ x ∈ (fetch asks d).1, 0 ≤ x.1) ∧
      held (fetch asks d).2.ctx.dynamicProtocolContext = [] ∧
      ∃ new, (fetch asks d).2.ctx.calls = d.ctx.calls ++ new ∧
        ∀ call ∈ new, ∃ ctx, call = .parsePacket ctx none := by
  have hinv := between_of_reachable hm h
  refine ⟨hinv.given, fun hne => (hinv.rest hne).1, fun asks hasks => ?_⟩
  refine fetch_all hm hinv.handler rfl (fun hne => ?_) hasks
  rw [(hinv.rest hne).2]
  decide

def unpacking : RTPDynamicProtocolHandler (List (List UInt8)) where
  parsePacket ctx pkt timestamp payload :=
    match payload.elim ctx fun p => p.buf.map fun byte => [byte] with
    | [] => ⟨-11, [], pkt, timestamp⟩
    | frame :: rest =>
        ⟨if rest = [] then 0 else 1, rest, { pkt with data := frame }, timestamp⟩

theorem unpacking_multiFrame : MultiFrame unpacking id where
  bound ctx pkt timestamp payload := by
    simp only [unpacking]
    split
    · exact (by decide : (-11 : Int) ≤ 1)
    · simp only
      split_ifs <;> decide
  more ctx pkt timestamp payload := by
    simp only [unpacking]
    split
    · simp
    · simp only
      split_ifs with h <;> simp [h]
  next ctx pkt timestamp frame rest h := by
    have hctx : ctx = frame :: rest := h
    subst hctx
    refine ⟨?_, rfl, rfl⟩
    simp only [unpacking, Option.elim_none]
    split_ifs <;> decide

def framingStart : Decoder (List (List UInt8)) :=
  ⟨opened 1 (some ⟨0, ⟨1, 90000⟩⟩) 96 10 [] (some unpacking) false, 0⟩

theorem framingStart_init : (framing unpacking id).init framingStart :=
  ⟨⟨rfl, _, _, _, _, _, _, _, rfl⟩, rfl, rfl⟩

def brings (seq : UInt16) (payload : List UInt8) : RtpLabel :=
  .parsePacket plainEnv .blank
    (some ⟨seq.toNat, (rtpPacket seq.toNat seq).data.take 12 ++ payload⟩)

def loopLeavesNoneCheck (d : Decoder (List (List UInt8))) : RtpLabel → Bool
  | .parsePacket env pkt bufptr => (decrypted env d.ctx bufptr).all fun plain =>
      decide (0 ≤ (rtpParseOnePacket env d.ctx pkt plain).1.rv) ||
        decide ((looped env d.ctx pkt plain).ctx.dynamicProtocolContext = [])
  | .resetPacketQueue => true

theorem loopLeavesNone_of_check (d : Decoder (List (List UInt8))) (l : RtpLabel)
    (h : loopLeavesNoneCheck d l = true) : loopLeavesNone id d l := by
  cases l with
  | resetPacketQueue => trivial
  | parsePacket env pkt bufptr =>
      intro plain hplain hneg
      simp only [loopLeavesNoneCheck, hplain, Option.all_some, Bool.or_eq_true,
        decide_eq_true_eq] at h
      exact h.resolve_left (by omega)

/-- A packet with two frames waits in the queue, and both are returned. -/
theorem held_frames_returned_queued : ∃ d : Decoder (List (List UInt8)),
    (((framing unpacking id).guard keepsAsking).restrict (loopLeavesNone id)).Reachable d ∧
    d.ctx.dynamicProtocolContext = [[2]] ∧
    (fetch [(plainEnv, .blank)] d).1.map Prod.snd = [[2]] := by
  have hview : ((((framing unpacking id).guard keepsAsking).guard loopLeavesNoneCheck).run
      [brings 1 [9], brings 3 [1, 2], brings 2 [7], .parsePacket plainEnv .blank none]
      framingStart).map (fun d => d.ctx.dynamicProtocolContext) = some [[2]] := by
    decide +kernel
  obtain ⟨d, hrun, hd⟩ := Option.map_eq_some_iff.mp hview
  have hreach := @System.Reachable.of_guard _ _ ((framing unpacking id).guard keepsAsking) _ _
    loopLeavesNone_of_check _ _ _ framingStart_init hrun
  have hall := (held_frames_returned unpacking_multiFrame hreach).2.2 [(plainEnv, .blank)]
    (by rw [hd]; rfl)
  refine ⟨d, hreach, hd, ?_⟩
  rw [hall.1]
  exact hd

def Call.overtakes : Call (List (List UInt8)) → Bool
  | .parsePacket ctx (some _) => ctx ≠ []
  | _ => false

/-- The packet of a call gives nothing and the loop goes on to a queued packet
with two frames: the caller asks again, the queue answers, and the second frame
is still held when the next packet is given to the handler. -/
theorem looped_frame_lost : ∃ d : Decoder (List (List UInt8)),
    ((framing unpacking id).guard keepsAsking).Reachable d ∧
    ¬GivenEmpty id d.ctx.calls := by
  have hview : (((framing unpacking id).guard keepsAsking).run
      [brings 1 [9], brings 3 [1, 2], brings 2 [], .parsePacket plainEnv .blank none, brings 4 [5]]
      framingStart).map (fun d => d.ctx.calls.any Call.overtakes) = some true := by
    decide +kernel
  obtain ⟨d, hrun, hd⟩ := Option.map_eq_some_iff.mp hview
  refine ⟨d, .of_run framingStart_init hrun, fun hgiven => ?_⟩
  obtain ⟨call, hcall, hheld⟩ := List.any_eq_true.mp hd
  unfold Call.overtakes at hheld
  split at hheld
  · next ctx payload =>
      have hempty := hgiven ctx payload hcall
      exact absurd hempty (by simpa using hheld)
  · cases hheld

end P2PFFmpeg.Rtp
