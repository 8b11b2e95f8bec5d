import P2PFFmpeg.Library.Pipeline
import P2PFFmpeg.Library.Transition
import P2PFFmpeg.Util.Error
import Mathlib.Data.List.Induction

/-!
Bitstream filters, and the filter that runs a list of others.
A packet here is one that is not empty; `none` is `NULL` or an empty packet.
-/

namespace P2PFFmpeg.Bsf

open Library.Pipeline Library.Transition

section

variable {σ π P : Type}

structure FFBSFContext (π P : Type) where
  priv : π
  bufferPkt : Option P
  eof : Bool

structure AVBitStreamFilter (σ P : Type) where
  filter : FFBSFContext σ P → Answer P × FFBSFContext σ P
  flush : σ → σ

structure AVBSFContext (σ P : Type) extends FFBSFContext σ P where
  filter : AVBitStreamFilter σ P

/-- The packet is reference counted, so that it is moved and nothing is allocated. -/
def avBsfSendPacket (ctx : FFBSFContext π P) : Option P → Int × FFBSFContext π P
  | none => (0, { ctx with eof := true })
  | some pkt =>
      if ctx.eof then (averrorEinval, ctx)
      else if ctx.bufferPkt.isSome then (averrorEagain, ctx)
      else (0, { ctx with bufferPkt := some pkt })

def ffBsfGetPacketRef (ctx : FFBSFContext π P) : Answer P × FFBSFContext π P :=
  if ctx.eof then (.eof, ctx)
  else
    match ctx.bufferPkt with
    | none => (.eagain, ctx)
    | some pkt => (.packet pkt, { ctx with bufferPkt := none })

def AVBSFContext.send (b : AVBSFContext σ P) (pkt : Option P) : Int × AVBSFContext σ P :=
  let r := avBsfSendPacket b.toFFBSFContext pkt
  (r.1, { b with toFFBSFContext := r.2 })

def avBsfReceivePacket (b : AVBSFContext σ P) : Answer P × AVBSFContext σ P :=
  let r := b.filter.filter b.toFFBSFContext
  (r.1, { b with toFFBSFContext := r.2 })

def avBsfFlush (b : AVBSFContext σ P) : AVBSFContext σ P :=
  { b with priv := b.filter.flush b.priv, bufferPkt := none, eof := false }

structure BSFListContext (σ P : Type) where
  bsfs : List (AVBSFContext σ P)
  idx : Nat

abbrev ListContext (σ P : Type) : Type :=
  FFBSFContext (BSFListContext σ P) P

/-- `aborts` is the failed assertion, or an index outside of the array. -/
inductive Round (σ P : Type)
  | again (ctx : ListContext σ P)
  | returns (ret : Answer P) (ctx : ListContext σ P)
  | aborts

def bsfListGet (ctx : ListContext σ P) : Option (Answer P × ListContext σ P) :=
  if ctx.priv.idx = 0 then some (ffBsfGetPacketRef ctx)
  else
    ctx.priv.bsfs[ctx.priv.idx - 1]?.map fun b =>
      let r := avBsfReceivePacket b
      (r.1, { ctx with
        priv := { ctx.priv with bsfs := ctx.priv.bsfs.set (ctx.priv.idx - 1) r.2 } })

def bsfListPass (ctx : ListContext σ P) (out : Option P) : Round σ P :=
  if ctx.priv.idx < ctx.priv.bsfs.length then
    match ctx.priv.bsfs[ctx.priv.idx]? with
    | none => .aborts
    | some b =>
        let r := b.send out
        let ctx' : ListContext σ P :=
          { ctx with priv := { ctx.priv with bsfs := ctx.priv.bsfs.set ctx.priv.idx r.2 } }
        if r.1 = averrorEagain then .aborts
        else if r.1 < 0 then .returns (.error r.1) ctx'
        else .again { ctx' with priv := { ctx'.priv with idx := ctx.priv.idx + 1 } }
  else
    match out with
    | none => .returns .eof ctx
    | some pkt => .returns (.packet pkt) ctx

def bsfListRound (ctx : ListContext σ P) : Round σ P :=
  match bsfListGet ctx with
  | none => .aborts
  | some (.eagain, ctx) =>
      if ctx.priv.idx = 0 then .returns .eagain ctx
      else .again { ctx with priv := { ctx.priv with idx := ctx.priv.idx - 1 } }
  | some (.error ret, ctx) => .returns (.error ret) ctx
  | some (.eof, ctx) => bsfListPass ctx none
  | some (.packet pkt, ctx) => bsfListPass ctx (some pkt)

def bsfListLoop : Nat → ListContext σ P → Round σ P
  | 0, ctx => .again ctx
  | fuel + 1, ctx =>
      match bsfListRound ctx with
      | .again ctx => bsfListLoop fuel ctx
      | stopped => stopped

def bsfListFilter (fuel : Nat) (ctx : ListContext σ P) : Round σ P :=
  if ctx.priv.bsfs.length = 0 then
    let r := ffBsfGetPacketRef ctx
    .returns r.1 r.2
  else bsfListLoop fuel ctx

def bsfListFlush (lst : BSFListContext σ P) : BSFListContext σ P :=
  ⟨lst.bsfs.map avBsfFlush, 0⟩

/-- `av_bsf_flush` of the list filter. -/
def flushList (ctx : ListContext σ P) : ListContext σ P :=
  ⟨bsfListFlush ctx.priv, none, false⟩

/-- Since the last flush: the filters as it left them, the packets taken, whether the end
was sent, and the packets received. -/
structure Calls (σ P : Type) where
  ctx : ListContext σ P
  starts : List (AVBSFContext σ P)
  sent : List P
  ended : Bool
  received : List P

/-- A call of `av_bsf_receive_packet` comes with a bound on the rounds of its loop; the
call is over when it stops within that bound. -/
inductive Call (P : Type)
  | send (pkt : Option P)
  | receive (fuel : Nat)
  | flush

def Calls.next (s : Calls σ P) : Call P → Option (Calls σ P)
  | .send pkt =>
      let r := avBsfSendPacket s.ctx pkt
      if r.1 = 0 then
        some { s with ctx := r.2, sent := s.sent ++ pkt.toList, ended := s.ended || pkt.isNone }
      else some { s with ctx := r.2 }
  | .receive fuel =>
      match bsfListFilter fuel s.ctx with
      | .returns (.packet pkt) ctx => some { s with ctx, received := s.received ++ [pkt] }
      | .returns _ ctx => some { s with ctx }
      | _ => none
  | .flush =>
      let ctx := flushList s.ctx
      some { ctx, starts := ctx.priv.bsfs, sent := [], ended := false, received := [] }

def opened (bsfs : List (AVBSFContext σ P)) : Calls σ P :=
  ⟨⟨⟨bsfs, 0⟩, none, false⟩, bsfs, [], false, []⟩

def AVBSFContext.NeedsInput (b : AVBSFContext σ P) : Prop :=
  b.bufferPkt = none ∧ b.eof = false

/-- `Good` holds of the contexts that can occur. -/
def calls (Good : AVBSFContext σ P → Prop) : System (Calls σ P) (Call P) where
  init s := ∃ bsfs, (∀ b ∈ bsfs, Good b ∧ b.NeedsInput) ∧ s = opened bsfs
  next := Calls.next

/-- The list is not told the end while a packet waits in its slot. -/
def EofOnEmptySlot (s : Calls σ P) (c : Call P) : Prop :=
  c = .send none → s.ctx.bufferPkt = none

def machine (σ P : Type) : Machine (AVBSFContext σ P) P where
  feed b pkt := (b.send pkt).2
  poll := avBsfReceivePacket
  ready := AVBSFContext.NeedsInput
  ended b := b.eof

/-- The contexts of filters that pull: `EAGAIN` only when there is no input, `EOF` only
behind the end, and then for ever. -/
structure PullMachines (Good : AVBSFContext σ P → Prop) : Prop where
  sent : ∀ {b} pkt, Good b → Good (b.send pkt).2
  polled : ∀ {b}, Good b → Good (avBsfReceivePacket b).2
  flushed : ∀ {b}, Good b → Good (avBsfFlush b)
  eof_kept : ∀ {b}, Good b → (avBsfReceivePacket b).2.eof = b.eof
  asks : ∀ {b}, Good b → (avBsfReceivePacket b).1 = .eagain →
    (avBsfReceivePacket b).2.NeedsInput
  stops : ∀ {b}, Good b → (avBsfReceivePacket b).1 = .eof →
    b.eof = true ∧ (machine σ P).Drained (avBsfReceivePacket b).2

inductive FewPackets : AVBSFContext σ P → Prop
  | stops {b} : (∀ pkt, (avBsfReceivePacket b).1 ≠ .packet pkt) → FewPackets b
  | gives {b} : FewPackets (avBsfReceivePacket b).2 → FewPackets b

theorem PullMachines.lawful {Good : AVBSFContext σ P → Prop} (h : PullMachines Good) :
    (machine σ P).Lawful Good where
  feed_good := h.sent
  poll_good := h.polled
  ready_ended hb := hb.2
  feed_ended x hb := by
    obtain ⟨hslot, heof⟩ := hb
    cases x with
    | none => rfl
    | some pkt => simp [machine, AVBSFContext.send, avBsfSendPacket, hslot, heof]
  poll_ended := h.eof_kept
  asks := h.asks
  stops := h.stops

def nullFilter : AVBitStreamFilter σ P where
  filter := ffBsfGetPacketRef
  flush := id

end

section

variable {σ P : Type} {Good : AVBSFContext σ P → Prop}

section Round

variable {pre post : List (AVBSFContext σ P)} {b : AVBSFContext σ P} {slot : Option P} {eof : Bool}

theorem send_needs (hb : b.NeedsInput) (out : Option P) : (b.send out).1 = 0 := by
  obtain ⟨hslot, heof⟩ := hb
  cases out with
  | none => rfl
  | some pkt => simp [AVBSFContext.send, avBsfSendPacket, hslot, heof]

theorem bsfListGet_behind : bsfListGet ⟨⟨pre ++ b :: post, pre.length + 1⟩, slot, eof⟩ =
      some ((avBsfReceivePacket b).1,
        ⟨⟨pre ++ (avBsfReceivePacket b).2 :: post, pre.length + 1⟩, slot, eof⟩) := by
  simp [bsfListGet]

theorem bsfListRound_passes {out : Option P} (hpoll : (avBsfReceivePacket b).1 = out.elim .eof .packet) :
    bsfListRound ⟨⟨pre ++ b :: post, pre.length + 1⟩, slot, eof⟩ =
      bsfListPass ⟨⟨pre ++ (avBsfReceivePacket b).2 :: post, pre.length + 1⟩, slot, eof⟩ out := by
  rw [bsfListRound, bsfListGet_behind, hpoll]
  cases out <;> rfl

theorem bsfListRound_asks (hpoll : (avBsfReceivePacket b).1 = .eagain) :
    bsfListRound ⟨⟨pre ++ b :: post, pre.length + 1⟩, slot, eof⟩ =
      .again ⟨⟨pre ++ (avBsfReceivePacket b).2 :: post, pre.length⟩, slot, eof⟩ := by
  rw [bsfListRound, bsfListGet_behind, hpoll]
  rfl

theorem bsfListRound_fails {e : Int} (hpoll : (avBsfReceivePacket b).1 = .error e) :
    bsfListRound ⟨⟨pre ++ b :: post, pre.length + 1⟩, slot, eof⟩ =
      .returns (.error e)
        ⟨⟨pre ++ (avBsfReceivePacket b).2 :: post, pre.length + 1⟩, slot, eof⟩ := by
  rw [bsfListRound, bsfListGet_behind, hpoll]

theorem bsfListPass_next (hb : b.NeedsInput) (out : Option P) :
    bsfListPass ⟨⟨pre ++ b :: post, pre.length⟩, slot, eof⟩ out =
      .again ⟨⟨pre ++ (b.send out).2 :: post, pre.length + 1⟩, slot, eof⟩ := by
  simp [bsfListPass, send_needs hb, averrorEagain]

theorem bsfListPass_last (out : Option P) : bsfListPass ⟨⟨pre, pre.length⟩, slot, eof⟩ out =
      .returns (out.elim .eof .packet) ⟨⟨pre, pre.length⟩, slot, eof⟩ := by
  cases out <;> simp [bsfListPass]

end Round

/-- Where the list stands: the filters of `before` have been fed, those of `behind` ask
for input; each comes with its context at the last flush. -/
structure Standing (Good : AVBSFContext σ P → Prop)
    (before behind : List (AVBSFContext σ P × AVBSFContext σ P)) (consumed received : Stream P)
    (ctx : ListContext σ P) : Prop where
  bsfs : ctx.priv.bsfs = before.map Prod.snd ++ behind.map Prod.snd
  idx : ctx.priv.idx = before.length
  good : ∀ b ∈ before ++ behind, Good b.1 ∧ Good b.2
  fresh : ∀ b ∈ before ++ behind, b.1.NeedsInput
  line : ∃ between, Line (machine σ P).Busy before consumed between ∧
    Line (machine σ P).Idle behind between received
  slot : ctx.eof = true → ctx.bufferPkt = none
  told : consumed.2 = true → ctx.eof = true

def Keeps (Good : AVBSFContext σ P → Prop) (starts : List (AVBSFContext σ P)) (sent : Stream P)
    (received : List P) (ctx : ListContext σ P) : Prop :=
  ∃ before behind consumed finished, starts = (before ++ behind).map Prod.fst ∧
    sent = (consumed.1 ++ ctx.bufferPkt.toList, ctx.eof) ∧
    Standing Good before behind consumed (received, finished) ctx

def Answers (Good : AVBSFContext σ P → Prop) (starts : List (AVBSFContext σ P)) (sent : Stream P)
    (received : List P) : Round σ P → Prop
  | .again ctx => Keeps Good starts sent received ctx
  | .returns (.packet pkt) ctx => Keeps Good starts sent (received ++ [pkt]) ctx
  | .returns .eagain ctx => Keeps Good starts sent received ctx ∧
      (∀ b ∈ ctx.priv.bsfs, b.NeedsInput) ∧ sent.2 = false ∧
      (machine σ P).Whole starts sent (received, false)
  | .returns .eof ctx => Keeps Good starts sent received ctx ∧ sent.2 = true ∧
      (machine σ P).Whole starts sent (received, true)
  | .returns (.error _) ctx => Keeps Good starts sent received ctx
  | .aborts => False

section Keeps

variable {starts : List (AVBSFContext σ P)} {sent : Stream P} {received : List P}
  {ctx : ListContext σ P} {before behind : List (AVBSFContext σ P × AVBSFContext σ P)}

variable {ds : List (AVBSFContext σ P × AVBSFContext σ P)} {i o : Stream P}

theorem Line.idle_needs (hG : PullMachines Good) (h : Line (machine σ P).Idle ds i o)
    (hgood : ∀ d ∈ ds, Good d.1) (hfresh : ∀ d ∈ ds, d.1.NeedsInput) : ∀ d ∈ ds, d.2.NeedsInput := by
  induction ds generalizing i with
  | nil => exact fun d hd => absurd hd List.not_mem_nil
  | cons e ds ih =>
      obtain ⟨b, hb, hrest⟩ := h
      intro d hd
      cases List.mem_cons.mp hd with
      | inl heq =>
          subst heq
          exact hb.ready hG.lawful (hgood d (.head _)) (hfresh d (.head _))
      | inr htail =>
          exact ih hrest (fun x hx => hgood x (.tail _ hx)) (fun x hx => hfresh x (.tail _ hx)) d htail

theorem Line.idle_over (h : Line (machine σ P).Idle ds i o) (hi : i.2 = false) : o.2 = false := by
  induction ds generalizing i with
  | nil =>
      cases h
      exact hi
  | cons d ds ih =>
      obtain ⟨b, hb, hrest⟩ := h
      exact ih hrest hb.gives.2

theorem Line.idle_input (h : Line (machine σ P).Idle ds i o) :
    ∃ finished, Line (machine σ P).Idle ds (i.1, false) (o.1, finished) := by
  cases ds with
  | nil =>
      cases h
      exact ⟨false, rfl⟩
  | cons d ds =>
      obtain ⟨b, hb, hrest⟩ := h
      cases hb with
      | asks hrun => exact ⟨o.2, _, .asks hrun, hrest⟩

theorem pass_answers (hG : PullMachines Good) {consumed : Stream P} {us : List P} {finished : Bool}
    {slot : Option P} {eof : Bool} (out : Option P) (hstarts : starts = (before ++ behind).map Prod.fst)
    (hsent : sent = (consumed.1 ++ slot.toList, eof)) (hgood : ∀ b ∈ before ++ behind, Good b.1 ∧ Good b.2)
    (hfresh : ∀ b ∈ before ++ behind, b.1.NeedsInput)
    (hbefore : Line (machine σ P).Busy before consumed (us ++ out.toList, out.isNone))
    (hbehind : Line (machine σ P).Idle behind (us, false) (received, finished))
    (hslot : eof = true → slot = none) (htold : consumed.2 = true → eof = true) :
    Answers Good starts sent received
      (bsfListPass ⟨⟨before.map Prod.snd ++ behind.map Prod.snd, before.length⟩, slot, eof⟩ out) := by
  cases behind with
  | nil =>
      cases hbehind
      have hlen : before.length = (before.map Prod.snd).length := (List.length_map _).symm
      have hkeeps : Standing Good before [] consumed (received ++ out.toList, out.isNone)
          ⟨⟨before.map Prod.snd, before.length⟩, slot, eof⟩ :=
        ⟨(List.append_nil _).symm, rfl, hgood, hfresh, ⟨_, hbefore, rfl⟩, hslot, htold⟩
      rw [List.map_nil, List.append_nil, hlen, bsfListPass_last, ← hlen]
      cases out with
      | some pkt => exact ⟨before, [], consumed, false, hstarts, hsent, hkeeps⟩
      | none =>
          rw [Option.toList_none, List.append_nil] at hbefore hkeeps
          obtain ⟨hall, hwhole⟩ := hbefore.over_whole hG.lawful
            (fun b hb => (hgood b (List.mem_append_left _ hb)).1)
            (fun b hb => hfresh b (List.mem_append_left _ hb)) rfl
          have heof := htold hall
          rw [List.append_nil] at hstarts
          rw [hslot heof, Option.toList_none, List.append_nil, heof, ← hall] at hsent
          refine ⟨⟨before, [], consumed, true, ?_, ?_, hkeeps⟩, ?_, ?_⟩
          · rw [hstarts, List.append_nil]
          · rw [hsent, hslot heof, Option.toList_none, List.append_nil, hall, heof]
          · rw [hsent, hall]
          · rw [hsent, hstarts]
            exact hwhole
  | cons d ds =>
      obtain ⟨b, hb, hrest⟩ := hbehind
      have hd : d.2.NeedsInput := hb.ready hG.lawful (hgood d (by simp)).1 (hfresh d (by simp))
      have hlen : before.length = (before.map Prod.snd).length := (List.length_map _).symm
      have hfed : (machine σ P).Busy (d.1, (d.2.send out).2) (us ++ out.toList, out.isNone) b :=
        hb.feed out
      rw [List.map_cons, hlen, bsfListPass_next hd, ← hlen]
      refine ⟨before ++ [(d.1, (d.2.send out).2)], ds, consumed, finished, ?_, hsent, ?_, ?_, ?_, ?_,
        ⟨b, hbefore.concat hfed, hrest⟩, hslot, htold⟩
      · simpa using hstarts
      · simp
      · simp
      · intro x hx
        rw [List.append_assoc, List.mem_append, List.singleton_append, List.mem_cons] at hx
        obtain hx | rfl | hx := hx
        · exact hgood x (List.mem_append_left _ hx)
        · exact ⟨(hgood d (by simp)).1, hG.sent out (hgood d (by simp)).2⟩
        · exact hgood x (by simp [hx])
      · intro x hx
        rw [List.append_assoc, List.mem_append, List.singleton_append, List.mem_cons] at hx
        obtain hx | rfl | hx := hx
        · exact hfresh x (List.mem_append_left _ hx)
        · exact hfresh d (by simp)
        · exact hfresh x (by simp [hx])

theorem first_answers (hG : PullMachines Good) {consumed : Stream P} {finished : Bool}
    (hstarts : starts = behind.map Prod.fst) (hsent : sent = (consumed.1 ++ ctx.bufferPkt.toList, ctx.eof))
    (h : Standing Good [] behind consumed (received, finished) ctx) :
    Answers Good starts sent received (bsfListRound ctx) := by
  obtain ⟨⟨bsfs, idx⟩, slot, eof⟩ := ctx
  obtain ⟨hbsfs, hidx, hgood, hfresh, ⟨between, hbetween, hline⟩, hslot, htold⟩ := h
  rw [show between = consumed from hbetween] at hline
  simp only [List.map_nil, List.nil_append, List.length_nil] at hbsfs hidx hsent hslot htold
  subst hbsfs hidx
  obtain ⟨finished', hidle⟩ := Line.idle_input hline
  cases eof with
  | true =>
      have hnone := hslot rfl
      subst hnone
      refine @pass_answers σ P Good starts sent received [] behind hG (consumed.1, true) consumed.1
        finished' none true none hstarts hsent hgood hfresh ?_ hidle hslot fun _ => rfl
      simp [Line]
  | false =>
      have hopen : consumed.2 = false := by
        cases hc : consumed.2
        · rfl
        · exact absurd (htold hc) (by simp)
      cases slot with
      | none =>
          have hover : finished = false := Line.idle_over hline hopen
          subst hover
          have hall : sent = consumed := by rw [hsent, ← hopen, Option.toList_none, List.append_nil]
          refine ⟨⟨[], behind, consumed, false, hstarts, hsent, rfl, rfl, hgood, hfresh,
            ⟨_, rfl, hline⟩, hslot, htold⟩, ?_, ?_, ?_⟩
          · intro b hb
            obtain ⟨x, hx, rfl⟩ := List.mem_map.mp hb
            exact Line.idle_needs hG hline (fun y hy => (hgood y hy).1) hfresh x hx
          · rw [hall, hopen]
          · rw [hall, hstarts]
            exact hline.idle_whole
      | some p =>
          refine @pass_answers σ P Good starts sent received [] behind hG (consumed.1 ++ [p], false)
            consumed.1 finished' none false (some p) hstarts ?_ hgood hfresh ?_ hidle (by simp) (by simp)
          · rw [hsent]
            simp
          · simp [Line]

theorem round_answers (hG : PullMachines Good) (h : Keeps Good starts sent received ctx) :
    Answers Good starts sent received (bsfListRound ctx) := by
  obtain ⟨before, behind, consumed, finished, hstarts, hsent, h⟩ := h
  obtain rfl | ⟨before, ⟨c₀, c⟩, rfl⟩ := List.eq_nil_or_concat' before
  · exact first_answers hG hstarts hsent h
  obtain ⟨⟨bsfs, idx⟩, slot, eof⟩ := ctx
  obtain ⟨hbsfs, hidx, hgood, hfresh, ⟨between, hbefore, hbehind⟩, hslot, htold⟩ := h
  have hbsfs' : bsfs = before.map Prod.snd ++ c :: behind.map Prod.snd := by simpa using hbsfs
  have hidx' : idx = (before.map Prod.snd).length + 1 := by simpa using hidx
  subst hbsfs' hidx'
  obtain ⟨m, hbefore, hc⟩ := hbefore.split_last
  have hcgood := hgood (c₀, c) (by simp)
  have hcfresh := hfresh (c₀, c) (by simp)
  have hstarts' : starts = (before ++ (c₀, (avBsfReceivePacket c).2) :: behind).map Prod.fst := by
    simpa using hstarts
  have hmem : ∀ x ∈ before ++ (c₀, (avBsfReceivePacket c).2) :: behind,
      (Good x.1 ∧ Good x.2) ∧ x.1.NeedsInput := by
    intro x hx
    rw [List.mem_append, List.mem_cons] at hx
    obtain hx | rfl | hx := hx
    · exact ⟨hgood x (by simp [hx]), hfresh x (by simp [hx])⟩
    · exact ⟨⟨hcgood.1, hG.polled hcgood.2⟩, hcfresh⟩
    · exact ⟨hgood x (by simp [hx]), hfresh x (by simp [hx])⟩
  have happend : before ++ (c₀, (avBsfReceivePacket c).2) :: behind =
      (before ++ [(c₀, (avBsfReceivePacket c).2)]) ++ behind := by simp
  have hanswer : ∀ out : Option P,
      (machine σ P).Busy (c₀, (avBsfReceivePacket c).2) m (between.1 ++ out.toList, out.isNone) →
      Answers Good starts sent received (bsfListPass ⟨⟨before.map Prod.snd ++
        (avBsfReceivePacket c).2 :: behind.map Prod.snd, (before.map Prod.snd).length + 1⟩, slot, eof⟩
        out) := by
    intro out hbusy
    obtain ⟨finished', hidle⟩ := Line.idle_input hbehind
    have h := pass_answers hG out (happend ▸ hstarts') hsent
      (fun x hx => (hmem x (happend ▸ hx)).1) (fun x hx => (hmem x (happend ▸ hx)).2)
      (hbefore.concat hbusy) hidle hslot htold
    simpa using h
  cases hpoll : (avBsfReceivePacket c).1 with
  | packet p =>
      obtain ⟨-, hbusy⟩ := hc.packet hpoll
      rw [@bsfListRound_passes σ P _ _ c slot eof (some p) hpoll]
      exact hanswer (some p) hbusy
  | eof =>
      have hbusy := hc.ends hG.lawful hcgood.1 hcfresh hpoll
      rw [@bsfListRound_passes σ P _ _ c slot eof none hpoll]
      refine hanswer none ?_
      rw [Option.toList_none, List.append_nil]
      exact hbusy
  | error e =>
      rw [bsfListRound_fails hpoll]
      refine ⟨before ++ [(c₀, (avBsfReceivePacket c).2)], behind, consumed, finished, happend ▸ hstarts',
        hsent, ?_, ?_, fun x hx => (hmem x (happend ▸ hx)).1, fun x hx => (hmem x (happend ▸ hx)).2,
        ⟨between, hbefore.concat (hc.fails hpoll), hbehind⟩, hslot, htold⟩
      · simp
      · simp
  | eagain =>
      obtain ⟨hm, hb, hidle⟩ := hc.asks hG.lawful hcgood.1 hcfresh hpoll
      have hmeq : (m.1, false) = m := by rw [← hm]
      rw [bsfListRound_asks hpoll]
      refine ⟨before, (c₀, (avBsfReceivePacket c).2) :: behind, consumed, finished, hstarts', hsent, ?_, ?_,
        fun x hx => (hmem x hx).1, fun x hx => (hmem x hx).2,
        ⟨m, hbefore, between, hmeq ▸ hidle, hbehind⟩, hslot, htold⟩
      · simp
      · simp

end Keeps

end

end P2PFFmpeg.Bsf
