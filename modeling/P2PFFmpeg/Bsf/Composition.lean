import P2PFFmpeg.Bsf.ListFilter

namespace P2PFFmpeg.Bsf

open Library.Pipeline Library.Transition

variable {σ P : Type} {Good : AVBSFContext σ P → Prop}

section Filter

variable {starts : List (AVBSFContext σ P)} {sent : Stream P} {received : List P}
  {ctx : ListContext σ P}

theorem loop_answers (hG : PullMachines Good) (h : Keeps Good starts sent received ctx)
    (fuel : Nat) : Answers Good starts sent received (bsfListLoop fuel ctx) := by
  induction fuel generalizing ctx with
  | zero => exact h
  | succ fuel ih =>
      have hround := round_answers hG h
      rw [bsfListLoop]
      cases hr : bsfListRound ctx with
      | again ctx' =>
          rw [hr] at hround
          exact ih hround
      | returns ret ctx' => rwa [hr] at hround
      | aborts => rwa [hr] at hround

theorem bsfListRound_nil {ctx : ListContext σ P} (hbsfs : ctx.priv.bsfs = []) (hidx : ctx.priv.idx = 0) :
    bsfListRound ctx = .returns (ffBsfGetPacketRef ctx).1 (ffBsfGetPacketRef ctx).2 := by
  obtain ⟨⟨bsfs, idx⟩, slot, eof⟩ := ctx
  cases hbsfs
  cases hidx
  cases eof <;> cases slot <;> rfl

theorem filter_answers (hG : PullMachines Good) (h : Keeps Good starts sent received ctx)
    (fuel : Nat) : Answers Good starts sent received (bsfListFilter fuel ctx) := by
  by_cases hn : ctx.priv.bsfs.length = 0
  · have hround := round_answers hG h
    obtain ⟨before, behind, consumed, finished, -, -, hstanding⟩ := h
    have hidx := hstanding.idx
    have hbsfs := congrArg List.length hstanding.bsfs
    rw [hn, List.length_append, List.length_map, List.length_map] at hbsfs
    rw [bsfListRound_nil (List.length_eq_zero_iff.mp hn) (hidx.trans (by omega))] at hround
    rw [bsfListFilter, if_pos hn]
    exact hround
  · rw [bsfListFilter, if_neg hn]
    exact loop_answers hG h fuel

end Filter

theorem Keeps.fresh {bsfs : List (AVBSFContext σ P)} (h : ∀ b ∈ bsfs, Good b ∧ b.NeedsInput) :
    Keeps Good bsfs ([], false) [] ⟨⟨bsfs, 0⟩, none, false⟩ := by
  have hline : Line (machine σ P).Idle (bsfs.map fun b => (b, b)) ([], false) ([], false) := by
    clear h
    induction bsfs with
    | nil => rfl
    | cons b bs ih => exact ⟨_, .start b, ih⟩
  have hpair : ∀ b ∈ bsfs.map fun b => (b, b), (Good b.1 ∧ Good b.2) ∧ b.1.NeedsInput := by
    intro b hb
    obtain ⟨c, hc, rfl⟩ := List.mem_map.mp hb
    exact ⟨⟨(h c hc).1, (h c hc).1⟩, (h c hc).2⟩
  refine ⟨[], bsfs.map fun b => (b, b), ([], false), false, ?_, rfl, ?_, rfl,
    fun b hb => (hpair b hb).1, fun b hb => (hpair b hb).2, ⟨_, rfl, hline⟩, nofun, nofun⟩
  · simp [Function.comp_def]
  · simp [Function.comp_def]

def CallsKeep (Good : AVBSFContext σ P → Prop) (s : Calls σ P) : Prop :=
  Keeps Good s.starts (s.sent, s.ended) s.received s.ctx

variable {starts : List (AVBSFContext σ P)} {ctx : ListContext σ P} {received : List P}

theorem Keeps.send {sent : List P} {ended : Bool} {pkt : Option P}
    (h : Keeps Good starts (sent, ended) received ctx) (hempty : pkt = none → ctx.bufferPkt = none)
    (htaken : (avBsfSendPacket ctx pkt).1 = 0) :
    Keeps Good starts (sent ++ pkt.toList, ended || pkt.isNone) received
      (avBsfSendPacket ctx pkt).2 := by
  obtain ⟨before, behind, consumed, finished, hstarts, hsent, hbsfs, hidx, hgood, hfresh, hline, hslot,
    htold⟩ := h
  obtain ⟨rfl, rfl⟩ := Prod.mk.inj hsent
  cases pkt with
  | none =>
      have hnone := hempty rfl
      exact ⟨before, behind, consumed, finished, hstarts, by simp [avBsfSendPacket], hbsfs, hidx, hgood,
        hfresh, hline, fun _ => hnone, fun _ => rfl⟩
  | some p =>
      cases heof : ctx.eof with
      | true => simp [avBsfSendPacket, heof, averrorEinval] at htaken
      | false =>
          cases hpkt : ctx.bufferPkt with
          | some q => simp [avBsfSendPacket, heof, hpkt, averrorEagain] at htaken
          | none =>
              have hsend : avBsfSendPacket ctx (some p) =
                  (0, { ctx with bufferPkt := some p, eof := false }) := by
                simp [avBsfSendPacket, heof, hpkt]
              rw [hsend]
              refine ⟨before, behind, consumed, finished, hstarts, ?_, hbsfs, hidx, hgood, hfresh, hline,
                fun hdone => Bool.noConfusion hdone, fun hc => ?_⟩
              · simp
              · rw [htold hc] at heof
                cases heof

theorem refused_unchanged {pkt : Option P} (h : (avBsfSendPacket ctx pkt).1 ≠ 0) :
    (avBsfSendPacket ctx pkt).2 = ctx := by
  cases pkt with
  | none => exact absurd rfl h
  | some p =>
      simp only [avBsfSendPacket] at h ⊢
      split
      · rfl
      · rename_i heof
        rw [if_neg heof] at h
        split
        · rfl
        · rename_i hslot
          rw [if_neg hslot] at h
          exact absurd rfl h

theorem Keeps.bsfs_good {sent : Stream P} (h : Keeps Good starts sent received ctx) :
    ∀ b ∈ ctx.priv.bsfs, Good b := by
  obtain ⟨before, behind, -, -, -, -, hbsfs, -, hgood, -⟩ := h
  intro b hb
  rw [hbsfs, ← List.map_append] at hb
  obtain ⟨c, hc, rfl⟩ := List.mem_map.mp hb
  exact (hgood c hc).2

theorem calls_keep (hG : PullMachines Good) {s : Calls σ P}
    (hs : ((calls Good).restrict EofOnEmptySlot).Reachable s) : CallsKeep Good s := by
  refine hs.invariant (CallsKeep Good) ?_ ?_
  · rintro _ ⟨bsfs, hb, rfl⟩
    exact .fresh hb
  · intro s c t _ hkeep hnext
    obtain ⟨hempty, hnext⟩ := System.restrict_next.mp hnext
    cases c with
    | send pkt =>
        simp only [calls, Calls.next] at hnext
        split at hnext <;> cases hnext
        · rename_i htaken
          exact hkeep.send (fun hp => hempty (congrArg _ hp)) htaken
        · rename_i hrefused
          rw [refused_unchanged hrefused]
          exact hkeep
    | receive fuel =>
        have hanswers := filter_answers hG hkeep fuel
        simp only [calls, Calls.next] at hnext
        split at hnext
        · rename_i heq
          cases hnext
          rw [heq] at hanswers
          exact hanswers
        · rename_i ret ctx hpkt heq
          cases hnext
          rw [heq] at hanswers
          cases ret with
          | packet p => exact absurd rfl (hpkt p)
          | eagain => exact hanswers.1
          | eof => exact hanswers.1
          | error e => exact hanswers
        · cases hnext
    | flush =>
        cases hnext
        refine .fresh fun b hb => ?_
        obtain ⟨c, hc, rfl⟩ := List.mem_map.mp hb
        exact ⟨hG.flushed (hkeep.bsfs_good c hc), rfl, rfl⟩

def LoopStops (ctx : ListContext σ P) : Prop :=
  ∃ fuel ret ctx', bsfListLoop fuel ctx = .returns ret ctx'

theorem LoopStops.returns {ctx ctx' : ListContext σ P} {ret : Answer P}
    (h : bsfListRound ctx = .returns ret ctx') : LoopStops ctx :=
  ⟨1, ret, ctx', by rw [bsfListLoop, h]⟩

theorem LoopStops.again {ctx ctx' : ListContext σ P} (h : bsfListRound ctx = .again ctx')
    (hstops : LoopStops ctx') : LoopStops ctx := by
  obtain ⟨fuel, ret, out, hout⟩ := hstops
  exact ⟨fuel + 1, ret, out, by rw [bsfListLoop, h]; exact hout⟩

section Stops

variable {pre post : List (AVBSFContext σ P)} {b d : AVBSFContext σ P} {slot out : Option P}
  {eof : Bool}

theorem LoopStops.asks (hpoll : (avBsfReceivePacket b).1 = .eagain)
    (h : LoopStops ⟨⟨pre ++ (avBsfReceivePacket b).2 :: post, pre.length⟩, slot, eof⟩) :
    LoopStops ⟨⟨pre ++ b :: post, pre.length + 1⟩, slot, eof⟩ :=
  .again (bsfListRound_asks hpoll) h

theorem LoopStops.last (hpoll : (avBsfReceivePacket b).1 = out.elim .eof .packet) :
    LoopStops ⟨⟨pre ++ [b], pre.length + 1⟩, slot, eof⟩ := by
  have hlast := @bsfListPass_last σ P (pre ++ [(avBsfReceivePacket b).2]) slot eof out
  rw [List.length_append, List.length_singleton] at hlast
  exact .returns ((bsfListRound_passes hpoll).trans hlast)

theorem LoopStops.passes (hpoll : (avBsfReceivePacket b).1 = out.elim .eof .packet) (hd : d.NeedsInput)
    (h : LoopStops ⟨⟨(pre ++ [(avBsfReceivePacket b).2]) ++ (d.send out).2 :: post,
      (pre ++ [(avBsfReceivePacket b).2]).length + 1⟩, slot, eof⟩) :
    LoopStops ⟨⟨pre ++ b :: d :: post, pre.length + 1⟩, slot, eof⟩ := by
  refine .again ((bsfListRound_passes hpoll).trans ?_) h
  have hnext := @bsfListPass_next σ P (pre ++ [(avBsfReceivePacket b).2]) post d slot eof hd out
  simpa using hnext

variable (hG : PullMachines Good) (hfew : ∀ b, Good b → FewPackets b)
include hG hfew

/-- The loop stops while the filters from `b` on work, if it stops when `b` asks for
input: the induction is on the number of filters behind `b`, and for each of them on the
packets that it still gives. -/
theorem LoopStops.below (n : Nat) (pre : List (AVBSFContext σ P))
    (b : AVBSFContext σ P) (post : List (AVBSFContext σ P)) (hn : post.length = n) (hb : Good b)
    (hpost : ∀ d ∈ post, Good d ∧ d.NeedsInput)
    (hasks : ∀ b' post', b'.eof = b.eof → Good b' → b'.NeedsInput → post'.length = n →
      (∀ d ∈ post', Good d ∧ d.NeedsInput) → LoopStops ⟨⟨pre ++ b' :: post', pre.length⟩, slot, eof⟩) :
    LoopStops ⟨⟨pre ++ b :: post, pre.length + 1⟩, slot, eof⟩ := by
  induction n generalizing pre b post with
  | zero =>
      obtain rfl := List.length_eq_zero_iff.mp hn
      cases hpoll : (avBsfReceivePacket b).1 with
      | packet p => exact @LoopStops.last σ P pre b slot (some p) eof hpoll
      | eof => exact @LoopStops.last σ P pre b slot none eof hpoll
      | error e => exact .returns (bsfListRound_fails hpoll)
      | eagain =>
          exact .asks hpoll
            (hasks _ [] (hG.eof_kept hb) (hG.polled hb) (hG.asks hb hpoll) rfl nofun)
  | succ n ih =>
      have hother : ∀ b post, post.length = n + 1 → Good b → (∀ d ∈ post, Good d ∧ d.NeedsInput) →
          (∀ b' post', b'.eof = b.eof → Good b' → b'.NeedsInput → post'.length = n + 1 →
            (∀ d ∈ post', Good d ∧ d.NeedsInput) →
            LoopStops ⟨⟨pre ++ b' :: post', pre.length⟩, slot, eof⟩) →
          (∀ pkt, (avBsfReceivePacket b).1 ≠ .packet pkt) →
          LoopStops ⟨⟨pre ++ b :: post, pre.length + 1⟩, slot, eof⟩ := by
        intro b post hn hb hpost hasks hno
        obtain ⟨d, ds, rfl⟩ := List.exists_cons_of_length_eq_add_one hn
        obtain ⟨hd, hds⟩ := List.forall_mem_cons.mp hpost
        cases hpoll : (avBsfReceivePacket b).1 with
        | packet p => exact absurd hpoll (hno p)
        | error e => exact .returns (bsfListRound_fails hpoll)
        | eagain =>
            exact .asks hpoll
              (hasks _ _ (hG.eof_kept hb) (hG.polled hb) (hG.asks hb hpoll) hn hpost)
        | eof =>
            refine @LoopStops.passes σ P pre ds b d slot none eof hpoll hd.2 ?_
            refine ih _ _ ds (Nat.succ.inj hn) (hG.sent none hd.1) hds ?_
            intro d' post' heof _ hneeds
            -- a filter that was told the end does not ask for input
            rw [hneeds.2] at heof
            cases heof
      have hfewb := hfew b hb
      induction hfewb generalizing post with
      | stops hno => exact hother _ post hn hb hpost hasks hno
      | @gives b _ ihb =>
          cases hpoll : (avBsfReceivePacket b).1 with
          | packet p =>
              obtain ⟨d, ds, rfl⟩ := List.exists_cons_of_length_eq_add_one hn
              obtain ⟨hd, hds⟩ := List.forall_mem_cons.mp hpost
              refine @LoopStops.passes σ P pre ds b d slot (some p) eof hpoll hd.2 ?_
              refine ih _ _ ds (Nat.succ.inj hn) (hG.sent _ hd.1) hds ?_
              intro d' post' _ hgood hneeds hlen hpost'
              rw [List.append_assoc, List.length_append, List.length_singleton, List.singleton_append]
              refine ihb (d' :: post') (by simp [hlen]) (hG.polled hb)
                (List.forall_mem_cons.mpr ⟨⟨hgood, hneeds⟩, hpost'⟩) ?_
              intro b' post'' heof
              exact hasks b' post'' (heof.trans (hG.eof_kept hb))
          | _ => exact hother b post hn hb hpost hasks (by simp [hpoll])

/-- The induction is on the filters that have been fed: each call goes up the chain only
while filters ask for input. -/
theorem LoopStops.of_few (pre post : List (AVBSFContext σ P)) (hpre : ∀ b ∈ pre, Good b)
    (hpost : ∀ d ∈ post, Good d ∧ d.NeedsInput) (hslot : eof = true → slot = none) :
    LoopStops ⟨⟨pre ++ post, pre.length⟩, slot, eof⟩ := by
  induction pre using List.reverseRecOn generalizing post with
  | append_singleton pre b ih =>
      rw [List.append_assoc, List.length_append, List.length_singleton, List.singleton_append]
      refine .below hG hfew _ pre b post rfl (hpre b (by simp)) hpost ?_
      intro b' post' _ hgood hneeds _ hpost'
      exact ih (b' :: post') (fun c hc => hpre c (by simp [hc]))
        (List.forall_mem_cons.mpr ⟨⟨hgood, hneeds⟩, hpost'⟩)
  | nil =>
      have hempty : ∀ post, @LoopStops σ P ⟨⟨[] ++ post, 0⟩, none, false⟩ :=
        fun post => @LoopStops.returns σ P _ _ .eagain rfl
      cases eof with
      | true =>
          obtain rfl := hslot rfl
          cases post with
          | nil => exact @LoopStops.returns σ P _ _ .eof rfl
          | cons d ds =>
              obtain ⟨hd, hds⟩ := List.forall_mem_cons.mp hpost
              refine .again (@bsfListPass_next σ P [] ds d none true hd.2 none) ?_
              refine .below hG hfew _ [] _ ds rfl (hG.sent none hd.1) hds ?_
              intro d' post' heof _ hneeds
              rw [hneeds.2] at heof
              cases heof
      | false =>
          cases slot with
          | none => exact hempty post
          | some p =>
              cases post with
              | nil => exact @LoopStops.returns σ P _ _ (.packet p) rfl
              | cons d ds =>
                  obtain ⟨hd, hds⟩ := List.forall_mem_cons.mp hpost
                  refine .again (@bsfListPass_next σ P [] ds d none false hd.2 (some p)) ?_
                  exact .below hG hfew _ [] _ ds rfl (hG.sent _ hd.1) hds
                    fun d' post' _ _ _ _ _ => hempty _

theorem filter_stops {starts : List (AVBSFContext σ P)} {sent : Stream P} {received : List P}
    {ctx : ListContext σ P} (h : Keeps Good starts sent received ctx) :
    ∃ fuel ret ctx', bsfListFilter fuel ctx = .returns ret ctx' := by
  by_cases hn : ctx.priv.bsfs.length = 0
  · exact ⟨0, _, _, by rw [bsfListFilter, if_pos hn]⟩
  · obtain ⟨before, behind, consumed, finished, -, -, h⟩ := h
    obtain ⟨⟨bsfs, idx⟩, slot, eof⟩ := ctx
    obtain ⟨hbsfs, hidx, hgood, hfresh, ⟨between, -, hbehind⟩, hslot, -⟩ := h
    have hstop := @LoopStops.of_few σ P Good slot eof hG hfew (before.map Prod.snd)
      (behind.map Prod.snd) ?_ ?_ hslot
    · obtain ⟨fuel, ret, ctx', hloop⟩ := hstop
      refine ⟨fuel, ret, ctx', ?_⟩
      rw [bsfListFilter, if_neg hn]
      simp only at hbsfs hidx
      rwa [hbsfs, hidx, ← @List.length_map _ _ before Prod.snd]
    · intro b hb
      obtain ⟨x, hx, rfl⟩ := List.mem_map.mp hb
      exact (hgood x (by simp [hx])).2
    · intro b hb
      obtain ⟨x, hx, rfl⟩ := List.mem_map.mp hb
      exact ⟨(hgood x (by simp [hx])).2, Line.idle_needs hG hbehind
        (fun y hy => (hgood y (by simp [hy])).1) (fun y hy => hfresh y (by simp [hy])) x hx⟩

end Stops

theorem Keeps.partly {sent : Stream P} (h : Keeps Good starts sent received ctx) :
    ∃ finished, (machine σ P).Partly starts sent (received, finished) := by
  obtain ⟨before, behind, consumed, finished, hstarts, hsent, h⟩ := h
  obtain ⟨between, hbefore, hbehind⟩ := h.line
  refine ⟨finished, hstarts ▸ (Line.partly hbefore hbehind).mono ⟨?_, fun hall => ?_⟩⟩
  · rw [hsent]
    exact List.prefix_append _ _
  · have heof := h.told hall
    rw [hsent, h.slot heof, heof, Option.toList_none, List.append_nil, ← hall]

/-- The packets received are what the filters, each fed the whole output of the one before
it, have given so far; the list asks for input only when all of them do, it ends only when
all is delivered, it never aborts, and it returns if no filter gives packets for ever. -/
theorem bsf_list_composes (hG : PullMachines Good) {s : Calls σ P}
    (hs : ((calls Good).restrict EofOnEmptySlot).Reachable s) :
    (∃ finished, (machine σ P).Partly s.starts (s.sent, s.ended) (s.received, finished)) ∧
      (∀ whole, (machine σ P).Whole s.starts (s.sent, s.ended) whole → s.received <+: whole.1) ∧
      (∀ fuel, match bsfListFilter fuel s.ctx with
        | .aborts => False
        | .returns .eagain ctx => (∀ b ∈ ctx.priv.bsfs, b.NeedsInput) ∧ s.ended = false ∧
            (machine σ P).Whole s.starts (s.sent, s.ended) (s.received, false)
        | .returns .eof _ => s.ended = true ∧
            (machine σ P).Whole s.starts (s.sent, s.ended) (s.received, true)
        | _ => True) ∧
      ((∀ b, Good b → FewPackets b) →
        ∃ fuel ret ctx, bsfListFilter fuel s.ctx = .returns ret ctx) := by
  have hkeep := calls_keep hG hs
  obtain ⟨finished, hpartly⟩ := hkeep.partly
  refine ⟨⟨finished, hpartly⟩, fun whole hwhole => (hpartly.soFar (.refl _) hwhole).1, fun fuel => ?_,
    fun hfew => filter_stops hG hfew hkeep⟩
  have hanswers := filter_answers hG hkeep fuel
  cases hr : bsfListFilter fuel s.ctx with
  | aborts => rwa [hr] at hanswers
  | again ctx => trivial
  | returns ret ctx =>
      rw [hr] at hanswers
      cases ret with
      | eagain => exact hanswers.2
      | eof => exact hanswers.2
      | packet p => trivial
      | error e => trivial

theorem drained_of_stays {b : AVBSFContext σ P} (h : avBsfReceivePacket b = (.eof, b)) :
    (machine σ P).Drained (avBsfReceivePacket b).2 := by
  have hnth : ∀ n, (machine σ P).pollNth n b = b := by
    intro n
    induction n with
    | zero => rfl
    | succ n ih =>
        rw [Machine.pollNth]
        exact (congrArg (fun r => (machine σ P).pollNth n r.2) h).trans ih
  intro n
  rw [h, hnth]
  exact congrArg Prod.fst h

theorem null_pulls : PullMachines fun b : AVBSFContext σ P => b.filter = nullFilter where
  sent _ hb := hb
  polled hb := hb
  flushed hb := hb
  eof_kept {b} hb := by
    simp only [avBsfReceivePacket, hb, nullFilter, ffBsfGetPacketRef]
    split
    · rfl
    · split <;> rfl
  asks {b} hb hpoll := by
    simp only [avBsfReceivePacket, hb, nullFilter, ffBsfGetPacketRef] at hpoll ⊢
    split at hpoll
    · cases hpoll
    · rename_i heof
      split at hpoll
      · rename_i hslot
        rw [if_neg heof]
        exact ⟨by simp [hslot], by simpa [hslot] using heof⟩
      · cases hpoll
  stops {b} hb hpoll := by
    have heof : b.eof = true := by
      simp only [avBsfReceivePacket, hb, nullFilter, ffBsfGetPacketRef] at hpoll
      split at hpoll
      · assumption
      · split at hpoll <;> cases hpoll
    refine ⟨heof, drained_of_stays ?_⟩
    obtain ⟨ctx, filter⟩ := b
    cases hb
    simp [avBsfReceivePacket, ffBsfGetPacketRef, show ctx.eof = true from heof]

theorem PullMachines.or {Good' : AVBSFContext σ P → Prop} (h : PullMachines Good) (h' : PullMachines Good') :
    PullMachines fun b => Good b ∨ Good' b where
  sent pkt hb := hb.imp (h.sent pkt) (h'.sent pkt)
  polled hb := hb.imp h.polled h'.polled
  flushed hb := hb.imp h.flushed h'.flushed
  eof_kept hb := hb.elim h.eof_kept h'.eof_kept
  asks hb hpoll := hb.elim (h.asks · hpoll) (h'.asks · hpoll)
  stops hb hpoll := hb.elim (h.stops · hpoll) (h'.stops · hpoll)

def splitFilter (parts : P → List P) : AVBitStreamFilter (List P) P where
  filter ctx :=
    match ctx.priv with
    | pkt :: rest => (.packet pkt, { ctx with priv := rest })
    | [] =>
        match ffBsfGetPacketRef ctx with
        | (.packet pkt, ctx) => (.packet pkt, { ctx with priv := parts pkt })
        | answer => answer
  flush _ := []

theorem split_pulls (parts : P → List P) :
    PullMachines fun b : AVBSFContext (List P) P => b.filter = splitFilter parts where
  sent _ hb := hb
  polled hb := hb
  flushed hb := hb
  eof_kept {b} hb := by
    obtain ⟨⟨priv, slot, eof⟩, filter⟩ := b
    cases hb
    cases priv <;> cases eof <;> cases slot <;> rfl
  asks {b} hb hpoll := by
    obtain ⟨⟨priv, slot, eof⟩, filter⟩ := b
    cases hb
    cases priv <;> cases eof <;> cases slot <;> first | exact ⟨rfl, rfl⟩ | cases hpoll
  stops {b} hb hpoll := by
    obtain ⟨⟨priv, slot, eof⟩, filter⟩ := b
    cases hb
    cases priv <;> cases eof <;> cases slot <;> first | exact ⟨rfl, drained_of_stays rfl⟩ | cases hpoll

/-- A filter that makes two packets of one in front of one that hands its input on: a packet
and the end. -/
theorem bsf_list_composes_split : ∃ (s : Calls (List Nat) Nat) (ctx : ListContext (List Nat) Nat),
    ((calls fun b => b.filter = splitFilter (fun n => [n + 100]) ∨ b.filter = nullFilter).restrict
      EofOnEmptySlot).Reachable s ∧ bsfListFilter 4 s.ctx = .returns .eof ctx ∧ s.sent = [7] ∧
      s.received = [7, 107] ∧ (machine (List Nat) Nat).Whole s.starts ([7], true) ([7, 107], true) := by
  let b : AVBSFContext (List Nat) Nat := ⟨⟨[], none, false⟩, splitFilter fun n => [n + 100]⟩
  let c : AVBSFContext (List Nat) Nat := ⟨⟨[], none, false⟩, nullFilter⟩
  let s : Calls (List Nat) Nat := ⟨⟨⟨[b, c], 0⟩, none, true⟩, [b, c], [7], true, [7, 107]⟩
  have hs : ((calls fun b => b.filter = splitFilter (fun n => [n + 100]) ∨ b.filter = nullFilter).restrict
      EofOnEmptySlot).Reachable s := by
    have hcheck : ∀ (s : Calls (List Nat) Nat) (c : Call Nat),
        (!c matches .send none || s.ctx.bufferPkt.isNone) = true → EofOnEmptySlot s c := by
      rintro s _ h rfl
      simpa using h
    have hrun : ((calls fun b : AVBSFContext (List Nat) Nat => b.filter = splitFilter (fun n => [n + 100]) ∨
        b.filter = nullFilter).guard fun s c => !c matches .send none || s.ctx.bufferPkt.isNone).run
        [.send (some 7), .receive 4, .receive 5, .receive 4, .send none] (opened [b, c]) = some s := rfl
    exact .of_guard hcheck ⟨[b, c], by simp [b, c, AVBSFContext.NeedsInput], rfl⟩ hrun
  refine ⟨s, _, hs, rfl, rfl, rfl, ?_⟩
  have h := (bsf_list_composes ((split_pulls fun n => [n + 100]).or null_pulls) hs).2.2.1 4
  exact h.2

/-- A packet that waits in the slot when the end is sent is lost. -/
theorem eof_loses_waiting_packet : ∃ (s : Calls Unit Nat) (ctx : ListContext Unit Nat),
    (calls fun b => b.filter = nullFilter).Reachable s ∧
      bsfListFilter 1 s.ctx = .returns .eof ctx ∧ s.sent = [7] ∧ s.received = [] ∧
      ¬ (machine Unit Nat).Whole s.starts (s.sent, s.ended) (s.received, true) := by
  refine ⟨⟨⟨⟨[], 0⟩, some 7, true⟩, [], [7], true, []⟩, _, ?_, rfl, rfl, rfl, ?_⟩
  · have hrun : (calls fun b : AVBSFContext Unit Nat => b.filter = nullFilter).run
        [.send (some 7), .send none] (opened []) = some
          ⟨⟨⟨[], 0⟩, some 7, true⟩, [], [7], true, []⟩ := rfl
    exact .of_run ⟨[], by simp, rfl⟩ hrun
  · intro h
    have hsent := congrArg Prod.fst (show (([] : List Nat), true) = ([7], true) from h)
    cases hsent

end P2PFFmpeg.Bsf
