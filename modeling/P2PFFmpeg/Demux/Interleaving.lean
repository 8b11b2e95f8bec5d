import P2PFFmpeg.Demux.Steps

/-!
The calls of the reader with each turn of the loop of `create_cdn_streams` as a step of its
own, so that the other threads can add streams between two turns.
-/

namespace P2PFFmpeg.Demux

open Util

/-- `create_cdn_streams` up to its loop. -/
inductive CdnStart
  | returned (ret : Int) (ctx : P2PRtpDemuxContext)
  | looping (srcs : List AVStream) (ctx : P2PRtpDemuxContext)

def startCdnStreams (env : Env) (ctx : P2PRtpDemuxContext) : CdnStart :=
  if ctx.cdnFmtCtx.isSome ∧ ctx.cdnActive then .returned 0 ctx
  else if ¬env.avFindInputFormat then .returned averrorDemuxerNotFound ctx
  else if ctx.cdnUrl.getD "" = "" then .returned averrorEinval ctx
  else match env.avformatOpenInput with
    | .failed code => .returned (-(code + 1 : Int)) { ctx with cdnFmtCtx := none }
    | .opened none => .returned averrorEinval { ctx with cdnFmtCtx := none }
    | .opened (some cdn) =>
        if env.avformatFindStreamInfo < 0 then
          .returned env.avformatFindStreamInfo { ctx with cdnFmtCtx := none }
        else .looping cdn.streams { ctx with cdnFmtCtx := some cdn }

def addStream (env : Env) (i : Nat) (src : AVStream) (ctx : P2PRtpDemuxContext) :
    Option Int × P2PRtpDemuxContext :=
  if src.codecType = .other then (none, ctx)
  else if ¬env.avformatNewStream i then (some averrorEnomem, ctx)
  else if env.avcodecParametersCopy i < 0 then
    (some (env.avcodecParametersCopy i), { ctx with streams := ctx.streams ++ [⟨1, 90000⟩] })
  else
    (if 0 ≤ (adoptStream src ctx).cdnVideoStreamIndex ∧ 0 ≤ (adoptStream src ctx).cdnAudioStreamIndex
      then some 0 else none, adoptStream src ctx)

/-- What `create_cdn_streams` returns behind its loop. -/
def endCdnStreams (ret : Int) (ctx : P2PRtpDemuxContext) : Int :=
  if ret < 0 then ret else if ctx.streams.length > 0 then 0 else averrorEinval

inductive CdnCaller
  | readHeader
  | readPacket (pkt : AVPacket) (ret : Int)
deriving DecidableEq, Repr

/-- Where the reader is: behind the initialisation in `p2p_rtp_read_header`, in
the loop, or between two calls. -/
inductive Reader
  | header (url : Option String)
  | adding (srcs : List AVStream) (i : Nat) (caller : CdnCaller)
  | idle
deriving DecidableEq, Repr

/-- Where a step leaves the reader, and the packet if it returns one. -/
structure Stage where
  reader : Reader
  returned : Option (Int × AVPacket)
  ctx : P2PRtpDemuxContext

def Stage.returns (outcome : Int × AVPacket × P2PRtpDemuxContext) : Stage :=
  ⟨.idle, some (outcome.1, outcome.2.1), outcome.2.2⟩

/-- The callers behind `create_cdn_streams`; only the header looks at what it
returned. -/
def resume (build : Build) (env : Env) (ctx : P2PRtpDemuxContext) (created : Int) :
    CdnCaller → Option Stage
  | .readHeader =>
      if created = 0 then
        (tryPrepareSwitchToCdn build env ctx).map fun (ret, ctx) =>
          ⟨.idle, none, if ret = 0 then
            { ctx with cdnActive := true, sw := { ctx.sw with activeSource := .cdn } } else ctx⟩
      else some ⟨.idle, none, { ctx with cdnActive := false }⟩
  | .readPacket pkt ret =>
      if ctx.cdnFmtCtx.isSome then
        (tryPrepareSwitchToCdn build env ctx).bind fun (_, ctx) =>
        (commitPendingSwitchIfReady build env env.refCommitAgain ctx pkt).map
          fun (committed, pkt, ctx) => .returns (if committed = 1 then 0 else ret, pkt, ctx)
      else some (.returns (ret, pkt, ctx))

def proceed (build : Build) (env : Env) (caller : CdnCaller) : CdnStart → Option Stage
  | .returned ret ctx => resume build env ctx ret caller
  | .looping srcs ctx => some ⟨.adding srcs 0 caller, none, ctx⟩

def startFallBack (build : Build) (env : Env) (ctx : P2PRtpDemuxContext) (pkt : AVPacket) (ret : Int) :
    Option Stage :=
  let ctx := { ctx with sw := { ctx.sw with pendingSwitch := .toCdn } }
  if ctx.cdnFmtCtx.isNone ∧ ctx.cdnUrl.isSome then
    proceed build env (.readPacket pkt ret) (startCdnStreams env ctx)
  else resume build env ctx 0 (.readPacket pkt ret)

def startReadP2p (build : Build) (env : Env) (ctx : P2PRtpDemuxContext) (pkt : AVPacket) :
    Option Stage :=
  (readOneFromP2p ctx pkt (-1) ⟨1, 1⟩).bind fun r =>
    if r.ret ≥ 0 then
      (atIndex r.ctx.streams r.outputStreamIndex).map fun dstTb =>
        .returns (0, onto r.pkt r.srcTb dstTb r.outputStreamIndex,
          { r.ctx with lastP2pPacketTime := env.now, p2pTransportErrorTimes := 0 })
    else
      let ctx := { r.ctx with p2pTransportErrorTimes := r.ctx.p2pTransportErrorTimes + 1 }
      if ctx.p2pTransportErrorTimes > 100 then startFallBack build env ctx r.pkt r.ret
      else some (.returns (r.ret, r.pkt, ctx))

def startReadPacket (build : Build) (env : Env) (ctx : P2PRtpDemuxContext) (pkt : AVPacket) :
    Option Stage :=
  (commitPendingSwitchIfReady build env env.refCommit ctx pkt).bind fun (committed, pkt, ctx) =>
    if committed = 1 then some (.returns (0, pkt, ctx))
    else match ctx.sw.activeSource with
      | .none => (readIdle build env ctx pkt).map .returns
      | .cdn => (readCdn build env ctx pkt).map .returns
      | .p2p => startReadP2p build env ctx pkt

def advance (build : Build) (env : Env) (ctx : P2PRtpDemuxContext) : Reader → Option Stage
  | .header url => proceed build env .readHeader (startCdnStreams env { ctx with cdnUrl := url })
  | .adding [] _ caller => resume build env ctx (endCdnStreams 0 ctx) caller
  | .adding (src :: rest) i caller =>
      match (addStream env i src ctx).1 with
      | none => some ⟨.adding rest (i + 1) caller, none, (addStream env i src ctx).2⟩
      | some ret =>
          resume build env (addStream env i src ctx).2 (endCdnStreams ret (addStream env i src ctx).2)
            caller
  | .idle => startReadPacket build env ctx .blank

/-- The steps of the reader up to the end of its call, where no other thread
comes between; nothing where a step does not come back. -/
inductive Uninterrupted (build : Build) (env : Env) : P2PRtpDemuxContext → Reader → Option Stage → Prop
  | stuck {ctx reader} (step : advance build env ctx reader = none) : Uninterrupted build env ctx reader none
  | last {ctx reader stage} (step : advance build env ctx reader = some stage) (idle : stage.reader = .idle) :
      Uninterrupted build env ctx reader (some stage)
  | turn {ctx reader stage out} (step : advance build env ctx reader = some stage) (going : stage.reader ≠ .idle)
      (rest : Uninterrupted build env stage.ctx stage.reader out) : Uninterrupted build env ctx reader out

section Calls

variable {build : Build} {env : Env}

theorem resume_idle {ctx : P2PRtpDemuxContext} {created : Int} {caller : CdnCaller} {stage : Stage}
    (h : resume build env ctx created caller = some stage) : stage.reader = .idle := by
  cases caller with
  | readHeader =>
      simp only [resume] at h
      split at h
      · obtain ⟨_, _, rfl⟩ := Option.map_eq_some_iff.mp h
        rfl
      · cases h
        rfl
  | readPacket pkt ret =>
      simp only [resume] at h
      split at h
      · obtain ⟨_, _, h⟩ := Option.bind_eq_some_iff.mp h
        obtain ⟨_, _, rfl⟩ := Option.map_eq_some_iff.mp h
        rfl
      · cases h
        rfl

/-- A step that is the last of its call. -/
theorem uninterrupted_last {ctx : P2PRtpDemuxContext} {reader : Reader}
    (h : ∀ stage, advance build env ctx reader = some stage → stage.reader = .idle) :
    Uninterrupted build env ctx reader (advance build env ctx reader) := by
  cases hstep : advance build env ctx reader with
  | none => exact .stuck hstep
  | some stage => exact .last hstep (h stage hstep)

theorem Uninterrupted.unique {ctx : P2PRtpDemuxContext} {reader : Reader} {out out' : Option Stage}
    (h : Uninterrupted build env ctx reader out) (h' : Uninterrupted build env ctx reader out') : out = out' := by
  induction h with
  | stuck step =>
      cases h' with
      | stuck => rfl
      | last step' | turn step' =>
          rw [step] at step'
          cases step'
  | last step idle =>
      cases h' with
      | stuck step' =>
          rw [step] at step'
          cases step'
      | last step' => exact step.symm.trans step'
      | turn step' going' =>
          obtain rfl := Option.some.inj (step.symm.trans step')
          exact absurd idle going'
  | turn step going _ ih =>
      cases h' with
      | stuck step' =>
          rw [step] at step'
          cases step'
      | last step' idle' =>
          obtain rfl := Option.some.inj (step.symm.trans step')
          exact absurd idle' going
      | turn step' _ rest' =>
          obtain rfl := Option.some.inj (step.symm.trans step')
          exact ih rest'

theorem addStreams_cons (env : Env) (src : AVStream) (rest : List AVStream) (i : Nat)
    (ctx : P2PRtpDemuxContext) : addStreams env (src :: rest) i ctx =
      match (addStream env i src ctx).1 with
      | none => addStreams env rest (i + 1) (addStream env i src ctx).2
      | some ret => (ret, (addStream env i src ctx).2) := by
  unfold addStream
  rw [addStreams]
  split
  · rfl
  split
  · rfl
  split
  · rfl
  split
  · rfl
  · rfl

theorem uninterrupted_adding (srcs : List AVStream) (i : Nat) (caller : CdnCaller) (ctx : P2PRtpDemuxContext) :
    Uninterrupted build env ctx (.adding srcs i caller)
      (resume build env (addStreams env srcs i ctx).2
        (endCdnStreams (addStreams env srcs i ctx).1 (addStreams env srcs i ctx).2) caller) := by
  induction srcs generalizing i ctx with
  | nil => exact uninterrupted_last fun stage h => resume_idle h
  | cons src rest ih =>
      rw [addStreams_cons]
      cases hturn : (addStream env i src ctx).1 with
      | none =>
          have hstep : advance build env ctx (.adding (src :: rest) i caller) =
              some ⟨.adding rest (i + 1) caller, none, (addStream env i src ctx).2⟩ := by
            rw [advance, hturn]
          exact .turn hstep (by simp) (ih _ _)
      | some ret =>
          have hlast : advance build env ctx (.adding (src :: rest) i caller) =
              resume build env (addStream env i src ctx).2
                (endCdnStreams ret (addStream env i src ctx).2) caller := by
            rw [advance, hturn]
          rw [← hlast]
          refine uninterrupted_last fun stage h => ?_
          rw [hlast] at h
          exact resume_idle h

theorem createCdnStreams_eq (ctx : P2PRtpDemuxContext) : createCdnStreams env ctx =
    match startCdnStreams env ctx with
    | .returned ret ctx => (ret, ctx)
    | .looping srcs ctx => (endCdnStreams (addStreams env srcs 0 ctx).1 (addStreams env srcs 0 ctx).2,
        (addStreams env srcs 0 ctx).2) := by
  unfold createCdnStreams startCdnStreams
  split
  · rfl
  split
  · rfl
  split
  · rfl
  cases env.avformatOpenInput with
  | failed code => rfl
  | opened opened =>
      cases opened with
      | none => rfl
      | some cdn =>
          by_cases hinfo : env.avformatFindStreamInfo < 0
          · simp only [if_pos hinfo]
          · simp only [if_neg hinfo, endCdnStreams]
            split
            · rfl
            · rfl

variable {reader : Reader}

theorem uninterrupted_proceed {ctx u : P2PRtpDemuxContext} {caller : CdnCaller}
    (h : advance build env ctx reader = proceed build env caller (startCdnStreams env u)) :
    Uninterrupted build env ctx reader
      (resume build env (createCdnStreams env u).2 (createCdnStreams env u).1 caller) := by
  rw [createCdnStreams_eq]
  cases hstart : startCdnStreams env u with
  | returned ret v =>
      rw [hstart] at h
      have hlast : advance build env ctx reader = resume build env v ret caller := h
      rw [← hlast]
      refine uninterrupted_last fun stage hstage => ?_
      rw [hlast] at hstage
      exact resume_idle hstage
  | looping srcs v =>
      rw [hstart] at h
      exact .turn h (by simp) (uninterrupted_adding srcs 0 caller v)

theorem uninterrupted_openCdn (url : Option String) (ctx : P2PRtpDemuxContext) :
    Uninterrupted build env ctx (.header url)
      ((openCdn build env url ctx).map fun ctx => ⟨.idle, none, ctx⟩) := by
  have hopen : (openCdn build env url ctx).map (fun ctx => (⟨.idle, none, ctx⟩ : Stage)) =
      resume build env (createCdnStreams env { ctx with cdnUrl := url }).2
        (createCdnStreams env { ctx with cdnUrl := url }).1 .readHeader := by
    simp only [openCdn, resume]
    split
    · rw [Option.map_map]
      rfl
    · rfl
  rw [hopen]
  exact uninterrupted_proceed rfl

/-- Uninterrupted, the steps of the header are `openCdn`. -/
theorem uninterrupted_header {url : Option String} {ctx : P2PRtpDemuxContext} {out : Option Stage} :
    Uninterrupted build env ctx (.header url) out ↔
      out = (openCdn build env url ctx).map fun ctx => ⟨.idle, none, ctx⟩ := by
  constructor
  · exact fun h => h.unique (uninterrupted_openCdn url ctx)
  · rintro rfl
    exact uninterrupted_openCdn url ctx

theorem uninterrupted_returns {ctx : P2PRtpDemuxContext} {outcome : Outcome}
    (h : advance build env ctx reader = outcome.map .returns) :
    Uninterrupted build env ctx reader (outcome.map .returns) := by
  rw [← h]
  refine uninterrupted_last fun stage hstage => ?_
  rw [h] at hstage
  obtain ⟨_, _, rfl⟩ := Option.map_eq_some_iff.mp hstage
  rfl

theorem resume_readPacket (u : P2PRtpDemuxContext) (created : Int) (pkt : AVPacket) (ret : Int) :
    resume build env u created (.readPacket pkt ret) =
      (if u.cdnFmtCtx.isSome then
        (tryPrepareSwitchToCdn build env u).bind fun (_, ctx) =>
        (commitPendingSwitchIfReady build env env.refCommitAgain ctx pkt).map
          fun (committed, pkt, ctx) => if committed = 1 then (0, pkt, ctx) else (ret, pkt, ctx)
      else some (ret, pkt, u)).map .returns := by
  simp only [resume]
  split
  · rw [Option.map_bind]
    congr 1
    funext ⟨_, v⟩
    rw [Function.comp_apply, Option.map_map]
    congr 1
    funext ⟨committed, packet, w⟩
    rw [Function.comp_apply]
    split
    · rfl
    · rfl
  · rfl

theorem uninterrupted_fallBack {ctx u : P2PRtpDemuxContext} {pkt : AVPacket} {ret : Int}
    (h : advance build env ctx reader = startFallBack build env u pkt ret) :
    Uninterrupted build env ctx reader ((fallBack build env u pkt ret).map .returns) := by
  unfold startFallBack at h
  unfold fallBack
  dsimp only at h ⊢
  split at h
  · next hopens =>
      rw [if_pos hopens, ← resume_readPacket _ (createCdnStreams env
        { u with sw := { u.sw with pendingSwitch := .toCdn } }).1]
      exact uninterrupted_proceed h
  · next hopens =>
      rw [if_neg hopens]
      rw [resume_readPacket] at h
      exact uninterrupted_returns h

theorem uninterrupted_call (ctx : P2PRtpDemuxContext) :
    Uninterrupted build env ctx .idle ((p2pRtpReadPacket build env ctx .blank).map .returns) := by
  have hstart : advance build env ctx .idle = startReadPacket build env ctx .blank := rfl
  unfold startReadPacket at hstart
  unfold p2pRtpReadPacket
  cases hcommit : commitPendingSwitchIfReady build env env.refCommit ctx .blank with
  | none =>
      rw [hcommit] at hstart
      exact uninterrupted_returns hstart
  | some outcome =>
      obtain ⟨committed, pkt, u⟩ := outcome
      rw [hcommit, Option.bind_some] at hstart
      rw [Option.bind_some]
      dsimp only at hstart ⊢
      by_cases hone : committed = 1
      · rw [if_pos hone] at hstart ⊢
        exact uninterrupted_returns hstart
      rw [if_neg hone] at hstart ⊢
      cases hactive : u.sw.activeSource with
      | none | cdn =>
          rw [hactive] at hstart
          exact uninterrupted_returns hstart
      | p2p =>
          rw [hactive] at hstart
          unfold startReadP2p at hstart
          dsimp only
          unfold readP2p
          cases hread : readOneFromP2p u pkt (-1) ⟨1, 1⟩ with
          | none =>
              rw [hread] at hstart
              exact uninterrupted_returns hstart
          | some r =>
              rw [hread] at hstart
              simp only [Option.bind_some] at hstart ⊢
              by_cases hret : r.ret ≥ 0
              · rw [if_pos hret] at hstart ⊢
                refine uninterrupted_returns ?_
                rw [hstart, Option.map_map]
                rfl
              rw [if_neg hret] at hstart ⊢
              by_cases hoften : r.ctx.p2pTransportErrorTimes + 1 > 100
              · rw [if_pos hoften] at hstart ⊢
                exact uninterrupted_fallBack hstart
              · rw [if_neg hoften] at hstart ⊢
                exact uninterrupted_returns hstart

/-- Uninterrupted, the steps of a call are `p2pRtpReadPacket`. -/
theorem uninterrupted_readPacket {ctx : P2PRtpDemuxContext} {out : Option Stage} :
    Uninterrupted build env ctx .idle out ↔ out = (p2pRtpReadPacket build env ctx .blank).map .returns := by
  constructor
  · exact fun h => h.unique (uninterrupted_call ctx)
  · rintro rfl
    exact uninterrupted_call ctx

end Calls

end P2PFFmpeg.Demux
