import P2PFFmpeg.Receiver.Runs

namespace P2PFFmpeg.Receiver

open Library Library.Program Library.Transition Library.Concurrent Message Peer

def ConnectPc.Choosing : ConnectPc → Prop
  | .countAvailable | .selectBest | .storeSelected _ => True
  | _ => False

def ConnectPc.Chosen : ConnectPc → Prop
  | .storeStatus _ | .setRequestingStream => True
  | _ => False

def StreamReadyFromSelected (s : State) : Prop :=
  ∃ msg p, s.message = some msg ∧ msg.type = .streamReady ∧ s.peer.selectedNode = some p ∧
    findPeerConnectionNodeByRemoteId s.peer.peerConnectionNodeCaches msg.senderId = some p

def Announced (s : State) (st : ReceiverState) : Prop :=
  st = .waitingForSender ∨ st = .signaling ∨ st = .error ∨
    (st = .streaming ∧ StreamReadyFromSelected s)

structure Discipline (s : State) : Prop where
  choosing : s.crashed = false → s.thread.pc.Choosing → s.peer.selectedNode = none
  chosen : s.crashed = false → s.thread.pc.Chosen → s.peer.selectedNode ≠ none
  selected : s.crashed = false → s.peer.selectedNode ≠ none →
    s.thread.pc.Chosen ∨ .requestingStream ≤ s.context.currentState
  requesting : .requestingStream ≤ s.context.currentState → s.context.currentState ≠ .error →
    s.peer.selectedNode ≠ none
  todo : ∀ st, .setState st ∈ s.todo → Announced s st
  pool : ∀ st, .setState st ∈ s.pool → st = .datachannelReady
  failing : s.crashed = false → ∀ ret, s.thread.pc = .setError ret → ret ≠ 0

variable {s t : State} {l : Label} {d : P2PRtpDemuxContext} {a b : ConnectPc} {st : ReceiverState}

theorem edge_to_choosing (h : ConnectEdge d a b) (hb : b.Choosing) :
    (a = .switch ∧ d.currentState = .probeCompleted) ∨
      (a.Choosing ∧ ∀ p, a ≠ .storeSelected p) := by
  cases h with
  | dispatch =>
      refine Or.inl ⟨rfl, ?_⟩
      cases hs : d.currentState <;> rw [hs] at hb <;> first | rfl | exact hb.elim
  | available | best => exact Or.inr ⟨trivial, by simp⟩
  | _ => exact hb.elim

theorem edge_to_chosen (h : ConnectEdge d a b) (hb : b.Chosen) : (∃ p, a = .storeSelected p) ∨ a.Chosen := by
  cases h with
  | dispatch => cases hs : d.currentState <;> rw [hs] at hb <;> exact hb.elim
  | selected p => exact Or.inl ⟨p, rfl⟩
  | status p => exact Or.inr trivial
  | _ => exact hb.elim

theorem edge_from_chosen (h : ConnectEdge d a b) (ha : a.Chosen) : b.Chosen ∨ a = .setRequestingStream := by
  cases h with
  | status p => exact Or.inl trivial
  | requesting => exact Or.inr rfl
  | _ => exact ha.elim

theorem edge_from_storeSelected {p : Ptr} {b : ConnectPc} (h : ConnectEdge d (.storeSelected p) b) :
    b = .storeStatus p := by
  cases h
  rfl

theorem edge_to_setError {ret : Int} (h : ConnectEdge d a b) (hb : b = .setError ret) : ret ≠ 0 := by
  cases h with
  | dispatch => cases hs : d.currentState <;> rw [hs] at hb <;> cases hb
  | pollEmpty | noneAvailable | noneBest | noneSelected =>
      cases hb
      decide
  | requestFailed ret' hr =>
      cases hb
      omega
  | _ => cases hb

theorem edge_to_returned (h : ConnectEdge d a b) (hb : b = .returned 0) :
    d.currentState = .streaming ∨ a = .setError 0 := by
  cases h with
  | dispatch => cases hs : d.currentState <;> rw [hs] at hb <;> cases hb
  | streaming hs => exact Or.inl hs
  | error ret =>
      cases hb
      exact Or.inr rfl
  | _ => cases hb

theorem discipline_initial (waitTimeout : Int) : Discipline (State.initial waitTimeout) where
  choosing := fun _ h => h.elim
  chosen := fun _ h => h.elim
  selected := fun _ h => absurd rfl h
  requesting := fun h => absurd (show ReceiverState.requestingStream ≤ .idle from h) (by decide)
  todo := fun st h => absurd h List.not_mem_nil
  pool := fun st h => absurd h List.not_mem_nil
  failing := fun _ ret h => by cases h

theorem announced_of_head {env : Env} {msg : P2PSignalMessage} {ret : Int} {ops : List ReceiverOp}
    (h : threads.next s (.message env msg) = some t)
    (hv : value (receiverHead env msg) s.peer = some (ret, ops)) (hm : t.message = some msg)
    (hst : .setState st ∈ ops) : Announced t st := by
  rcases receiverHead_setState hv hst with ⟨hs, _⟩ | ⟨hs, _⟩ | ⟨hs, _⟩ | ⟨hs, htype, hsome, hfind⟩
  · exact Or.inl hs
  · exact Or.inr (Or.inl hs)
  · exact Or.inr (Or.inr (Or.inl hs))
  · obtain ⟨p, hp⟩ := Option.isSome_iff_exists.mp hsome
    refine Or.inr (Or.inr (Or.inr ⟨hs, msg, p, hm, htype, ?_, ?_⟩))
    · rcases next_selectedNode h with hsel | ⟨_, _, hl, _⟩
      · rw [hsel, hp]
      · cases hl
    · apply (next_frame h).found
      · rintro ⟨targetId, hb, _⟩
        rw [P2PSignalMessage.type, hb] at htype
        cases htype
      · rw [hfind, hp]

theorem selectedNode_stays (hd : Discipline s) (h : threads.next s l = some t)
    (hs : s.peer.selectedNode ≠ none) : t.peer.selectedNode = s.peer.selectedNode := by
  rcases next_selectedNode h with hsel | ⟨env, q, _, hpc, _⟩
  · exact hsel
  · exact absurd (hd.choosing (next_running h) (by rw [hpc]; trivial)) hs

theorem streamReady_stays (hd : Discipline s) (h : threads.next s l = some t)
    (hl : ∀ env msg, l ≠ .message env msg) (hm : t.message = s.message) (hs : StreamReadyFromSelected s) :
    StreamReadyFromSelected t := by
  obtain ⟨msg, p, hmsg, htype, hsel, hfind⟩ := hs
  refine ⟨msg, p, hm.trans hmsg, htype, ?_, ?_⟩
  · rw [selectedNode_stays hd h (by rw [hsel]; simp), hsel]
  · apply (next_frame h).found _ _ _ hfind
    exact not_lost (fun env msg hm' => absurd hm' (hl env msg))

theorem announced_stays (hd : Discipline s) (h : threads.next s l = some t)
    (hl : ∀ env msg, l ≠ .message env msg) (hm : t.message = s.message) (hs : Announced s st) :
    Announced t st := by
  rcases hs with hs | hs | hs | ⟨hs, hr⟩
  · exact Or.inl hs
  · exact Or.inr (Or.inl hs)
  · exact Or.inr (Or.inr (Or.inl hs))
  · exact Or.inr (Or.inr (Or.inr ⟨hs, streamReady_stays hd h hl hm hr⟩))

theorem sets_cases {s : State} (hd : Discipline s) (hs : sets s l = some st) :
    st < .requestingStream ∨ st = .error ∨
      (st = .requestingStream ∧ s.thread.pc = .setRequestingStream ∧ ∃ env, l = .thread env) ∨
      (st = .streaming ∧ StreamReadyFromSelected s ∧ ∃ env, l = .handlerOp env) := by
  cases l with
  | callback event =>
      cases event with
      | joinRoom now =>
          cases hs
          exact Or.inl (by decide)
      | stateChange env node state => cases hs
      | event event => cases hs
  | message env msg => cases hs
  | handlerOp env =>
      obtain ⟨op, hop, hset⟩ := Option.bind_eq_some_iff.mp hs
      cases op with
      | sendDescription node role => cases hset
      | setState st' =>
          cases hset
          rcases hd.todo st (List.mem_of_mem_head? hop) with rfl | rfl | rfl | ⟨rfl, hr⟩
          · exact Or.inl (by decide)
          · exact Or.inl (by decide)
          · exact Or.inr (Or.inl rfl)
          · exact Or.inr (Or.inr (Or.inr ⟨rfl, hr, env, rfl⟩))
  | callbackOp env =>
      obtain ⟨op, hop, hset⟩ := Option.bind_eq_some_iff.mp hs
      cases op with
      | sendDescription node role => cases hset
      | setState st' =>
          cases hset
          rw [hd.pool st (List.mem_of_mem_head? hop)]
          exact Or.inl (by decide)
  | thread env =>
      change s.thread.pc.sets = some st at hs
      cases hpc : s.thread.pc with
      | setProbing | setProbeCompleted =>
          rw [hpc] at hs
          cases hs
          exact Or.inl (by decide)
      | setError ret =>
          rw [hpc] at hs
          cases hs
          exact Or.inr (Or.inl rfl)
      | setRequestingStream =>
          rw [hpc] at hs
          cases hs
          exact Or.inr (Or.inr (Or.inl ⟨rfl, rfl, env, rfl⟩))
      | _ =>
          rw [hpc] at hs
          cases hs

theorem selectedNode_kept (h : threads.next s l = some t) (hs : s.peer.selectedNode ≠ none) :
    t.peer.selectedNode ≠ none := by
  rcases next_selectedNode h with hsel | ⟨_, _, _, _, hq⟩
  · rwa [hsel]
  · rw [hq]
    simp

theorem discipline_step (hd : Discipline s) (h : threads.next s l = some t) : Discipline t where
  choosing := by
    intro hc hpc
    have hrun := next_running h
    rcases next_pc h with ⟨hl, ht⟩ | ⟨_, hedge⟩
    · rw [ht] at hpc
      rcases next_selectedNode h with hsel | ⟨env, _, hl', _⟩
      · rw [hsel, hd.choosing hrun hpc]
      · rcases hl with hcrash | hl
        · rw [hc] at hcrash
          cases hcrash
        · exact absurd hl' (hl env)
    · have hnone : s.peer.selectedNode = none := by
        rcases edge_to_choosing hedge hpc with ⟨hswitch, hstate⟩ | ⟨hch, _⟩
        · by_contra hne
          rcases hd.selected hrun hne with hch | hle
          · rw [hswitch] at hch
            exact hch
          · rw [hstate] at hle
            exact absurd hle (by decide)
        · exact hd.choosing hrun hch
      rcases next_selectedNode h with hsel | ⟨_, q, _, hq, _⟩
      · rw [hsel, hnone]
      · rcases edge_to_choosing hedge hpc with ⟨hswitch, _⟩ | ⟨_, hne⟩
        · rw [hswitch] at hq
          cases hq
        · exact absurd hq (hne q)
  chosen := by
    intro hc hpc
    have hrun := next_running h
    rcases next_pc h with ⟨_, ht⟩ | ⟨⟨env, rfl⟩, hedge⟩
    · rw [ht] at hpc
      exact selectedNode_kept h (hd.chosen hrun hpc)
    · rcases edge_to_chosen hedge hpc with ⟨p, hp⟩ | hch
      · rw [next_storeSelected h hp]
        simp
      · exact selectedNode_kept h (hd.chosen hrun hch)
  selected := by
    intro hc hne
    have hrun := next_running h
    rcases next_selectedNode h with hsel | ⟨env, q, hl, hq, _⟩
    · rw [hsel] at hne
      rcases hd.selected hrun hne with hch | hle
      · rcases next_pc h with ⟨_, ht⟩ | ⟨⟨env, rfl⟩, hedge⟩
        · rw [ht]
          exact Or.inl hch
        · rcases edge_from_chosen hedge hch with hch' | hreq
          · exact Or.inl hch'
          · right
            rw [next_currentState h]
            change _ ≤ raised _ s.thread.pc.sets
            rw [hreq]
            exact le_max_right _ _
      · exact Or.inr (le_trans hle (next_le h))
    · rcases next_pc h with ⟨hcrash | hl', _⟩ | ⟨_, hedge⟩
      · rw [hc] at hcrash
        cases hcrash
      · exact absurd hl (hl' env)
      · rw [hq] at hedge
        rw [edge_from_storeSelected hedge]
        exact Or.inl trivial
  requesting := by
    intro hle hne
    rw [next_currentState h] at hle hne
    have hkeep := selectedNode_kept h
    rcases raised_eq s.context.currentState (sets s l) with hold | hnew
    · rw [hold] at hle hne
      exact hkeep (hd.requesting hle hne)
    · rcases sets_cases hd hnew with hlt | herr | ⟨_, hpc, _⟩ | ⟨_, hr, _⟩
      · exact absurd hle (not_le.mpr hlt)
      · exact absurd herr hne
      · exact hkeep (hd.chosen (next_running h) (by rw [hpc]; trivial))
      · obtain ⟨_, p, _, _, hsel, _⟩ := hr
        exact hkeep (by rw [hsel]; simp)
  todo := by
    intro st hst
    have hstays : t.message = s.message → .setState st ∈ s.todo → Announced t st := by
      intro hm hold
      by_cases hl : ∃ env msg, l = .message env msg
      · obtain ⟨env, msg, rfl⟩ := hl
        -- a message is taken up only when nothing is left to do for the last one
        cases next_moves h with
        | message htodo _ =>
            rw [htodo] at hold
            exact absurd hold List.not_mem_nil
      · exact announced_stays hd h (fun env msg hl' => hl ⟨env, msg, hl'⟩) hm (hd.todo st hold)
    rcases next_todo h with ⟨htodo, hm⟩ | ⟨env, op, _, htodo, hm⟩ | ⟨env, msg, rfl, _, hv, hm⟩
    · exact hstays hm (htodo ▸ hst)
    · exact hstays hm (by rw [htodo]; exact List.mem_cons_of_mem _ hst)
    · obtain ⟨ret, hret⟩ := threads_head hv
      exact announced_of_head h hret hm hst
  pool := by
    intro st hst
    rcases next_pool h _ hst with hp | ⟨event, ops, _, hv, hop⟩
    · exact hd.pool st hp
    · cases callback_ops hv _ hop
      rfl
  failing := by
    intro hc ret hret
    rcases next_pc h with ⟨_, ht⟩ | ⟨_, hedge⟩
    · rw [ht] at hret
      exact hd.failing (next_running h) ret hret
    · exact edge_to_setError hedge hret

theorem discipline_reachable {s : State} (h : system.Reachable s) : Discipline s := by
  refine System.Reachable.invariant Discipline ?_ ?_ h
  · rintro s ⟨waitTimeout, rfl⟩
    exact discipline_initial waitTimeout
  · intro s l t _ hd hn
    exact discipline_step hd hn

theorem selected_by_thread {s₀ s : State} {ls : List Label} {p : Ptr} (h₀ : system.init s₀)
    (hr : system.Run s₀ ls s) (hs : s.peer.selectedNode = some p) :
    ∃ u env v, system.Passes s₀ ls s u (.thread env) v ∧ u.thread.pc = .storeSelected p := by
  have hnone : ¬ s₀.peer.selectedNode = some p := by
    obtain ⟨waitTimeout, rfl⟩ := h₀
    exact fun hp => by cases hp
  obtain ⟨u, l, v, hpass, hu, hv⟩ := hr.switch (fun s => s.peer.selectedNode = some p) hnone hs
  obtain ⟨_, _, _, _, hn, _⟩ := id hpass
  rcases next_selectedNode hn with hsel | ⟨env, q, rfl, hq, hq'⟩
  · rw [hsel] at hv
    exact absurd hv hu
  · rw [hv] at hq'
    cases hq'
    exact ⟨u, env, v, hpass, hq⟩

theorem returned_after_streaming {s₀ s : State} {ls : List Label} (h₀ : system.init s₀)
    (hr : system.Run s₀ ls s) (hc : s.crashed = false) (hs : s.thread.pc = .returned 0) :
    ∃ u l v, system.Passes s₀ ls s u l v ∧ u.context.currentState = .streaming := by
  have hstart : ¬ (s₀.crashed = false ∧ s₀.thread.pc = .returned 0) := by
    obtain ⟨waitTimeout, rfl⟩ := h₀
    exact fun h => by cases h.2
  obtain ⟨u, l, v, hpass, hu, hv⟩ :=
    hr.switch (fun s => s.crashed = false ∧ s.thread.pc = .returned 0) hstart ⟨hc, hs⟩
  refine ⟨u, l, v, hpass, ?_⟩
  obtain ⟨before, _, _, hrun, hn, _⟩ := hpass
  rcases next_pc hn with ⟨_, ht⟩ | ⟨_, hedge⟩
  · rw [ht] at hv
    exact absurd ⟨next_running hn, hv.2⟩ hu
  · rcases edge_to_returned hedge hv.2 with hstate | herr
    · exact hstate
    · have hd := discipline_reachable ⟨s₀, before, h₀, hrun⟩
      exact absurd rfl (hd.failing (next_running hn) 0 herr)

/-- The streaming state is entered only in the STREAM_READY branch for the
selected node. -/
theorem next_streaming (hd : Discipline s) (h : threads.next s l = some t)
    (hs : s.context.currentState ≠ .streaming) (ht : t.context.currentState = .streaming) :
    StreamReadyFromSelected s ∧ ∃ env, l = .handlerOp env := by
  have hsets := next_currentState h
  rcases raised_eq s.context.currentState (sets s l) with hold | hnew
  · rw [hold, ht] at hsets
    exact absurd hsets.symm hs
  · rw [← hsets, ht] at hnew
    rcases sets_cases hd hnew with hlt | herr | ⟨hreq, _⟩ | ⟨_, hready, hl⟩
    · exact absurd hlt (by decide)
    · cases herr
    · cases hreq
    · exact ⟨hready, hl⟩

/-- The discipline of the receiver state, at every step of every run. -/
theorem receiver_state_discipline {s₀ u v : State} {ls : List Label} {l : Label}
    (h₀ : system.init s₀) (hr : system.Run s₀ ls u) (hn : system.next u l = some v) :
    u.context.currentState ≤ v.context.currentState ∧
    (u.context.currentState = .error → v.context.currentState = .error) ∧
    (.requestingStream ≤ v.context.currentState → v.context.currentState ≠ .error →
      v.peer.selectedNode ≠ none) ∧
    (u.context.currentState ≠ .streaming → v.context.currentState = .streaming →
      ∃ env msg p, l = .handlerOp env ∧ u.message = some msg ∧ msg.type = .streamReady ∧
        findPeerConnectionNodeByRemoteId u.peer.peerConnectionNodeCaches msg.senderId = some p ∧
        u.peer.selectedNode = some p ∧
        ∃ x env' y, system.Passes s₀ ls u x (.thread env') y ∧ x.thread.pc = .storeSelected p) ∧
    (u.context.p2pConnectReady = false → v.context.p2pConnectReady = true →
      ∃ x l' y, system.Passes s₀ ls u x l' y ∧ x.context.currentState = .streaming) := by
  have hd := discipline_reachable ⟨s₀, ls, h₀, hr⟩
  have hd' := discipline_step hd hn
  refine ⟨next_le hn, ?_, hd'.requesting, ?_, ?_⟩
  · intro herr
    exact le_antisymm (le_error _) (herr ▸ next_le hn)
  · intro hne hst
    obtain ⟨⟨msg, p, hm, ht, hsel, hf⟩, env, hl⟩ := next_streaming hd hn hne hst
    obtain ⟨x, env', y, hpass, hpc⟩ := selected_by_thread h₀ hr hsel
    exact ⟨env, msg, p, hl, hm, ht, hf, hsel, x, env', y, hpass, hpc⟩
  · intro hfalse htrue
    rcases next_p2pConnectReady hn with hsame | hpc
    · rw [hsame, hfalse] at htrue
      cases htrue
    · exact returned_after_streaming h₀ hr (next_running hn) hpc

def senderAnswers : List Label :=
  .callback (.joinRoom 0) :: senderConnects "s" 1 0 ++ nodeProbed 0 ++
    List.replicate 5 (.thread (.succeeding 31000000 1)) ++
    [.message (.succeeding 31000000 1) ⟨some "s", none, .streamReady none⟩]

def streamFound : List Label :=
  senderAnswers ++ .handlerOp (.succeeding 31000000 1) :: [.thread (.succeeding 31000000 1)]

/-- The two steps of a run at which the receiver comes to stream and its connect thread is ready. -/
theorem receiver_state_discipline_streams :
    (∃ u v : State, system.Run (.initial 60) senderAnswers u ∧
      system.next u (.handlerOp (.succeeding 31000000 1)) = some v ∧ v.context.currentState = .streaming ∧
      ∃ msg p, u.message = some msg ∧ msg.senderId = some "s" ∧ msg.type = .streamReady ∧
        u.peer.selectedNode = some p ∧ ∃ x env y,
          system.Passes (.initial 60) senderAnswers u x (.thread env) y ∧ x.thread.pc = .storeSelected p) ∧
    ∃ u v : State, system.Run (.initial 60) streamFound u ∧
      system.next u (.thread (.succeeding 31000000 1)) = some v ∧ v.context.p2pConnectReady = true ∧
      v.peer.selectedNode ≠ none ∧
      ∃ x l y, system.Passes (.initial 60) streamFound u x l y ∧ x.context.currentState = .streaming := by
  have hinit : system.init (.initial 60) := ⟨60, rfl⟩
  constructor
  · have hasked : (system.run senderAnswers (.initial 60)).map (fun u =>
        (u.context.currentState, u.message.map (·.senderId))) = some (.requestingStream, some (some "s")) := by
      decide +kernel
    have hanswered : (system.run (senderAnswers ++ [.handlerOp (.succeeding 31000000 1)]) (.initial 60)).map
        (fun v => v.context.currentState) = some .streaming := by decide +kernel
    obtain ⟨u, v, hu, hn, hview, hstreaming⟩ := System.step_of_runs hasked hanswered
    obtain ⟨hbefore, hmessage⟩ := Prod.mk.inj hview
    obtain ⟨-, -, -, hanswer, -⟩ := receiver_state_discipline hinit hu hn
    obtain ⟨env, msg, p, -, hmsg, htype, -, hselected, hthread⟩ := hanswer (by rw [hbefore]; decide) hstreaming
    refine ⟨u, v, hu, hn, hstreaming, msg, p, hmsg, ?_, htype, hselected, hthread⟩
    rw [hmsg] at hmessage
    exact Option.some.inj hmessage
  · have hfound : (system.run streamFound (.initial 60)).map (fun u => u.context.p2pConnectReady) =
        some false := by decide +kernel
    have hready : (system.run (streamFound ++ [.thread (.succeeding 31000000 1)]) (.initial 60)).map
        (fun v => (v.context.currentState, v.context.p2pConnectReady)) = some (.streaming, true) := by decide +kernel
    obtain ⟨u, v, hu, hn, hbefore, hview⟩ := System.step_of_runs hfound hready
    obtain ⟨hstate, hready⟩ := Prod.mk.inj hview
    obtain ⟨-, -, hselected, -, hpassed⟩ := receiver_state_discipline hinit hu hn
    exact ⟨u, v, hu, hn, hready, hselected (by rw [hstate]; decide) (by rw [hstate]; decide),
      hpassed hbefore hready⟩

end P2PFFmpeg.Receiver
