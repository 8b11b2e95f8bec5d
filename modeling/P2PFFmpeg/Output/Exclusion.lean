import Mathlib.Logic.Function.Basic
import P2PFFmpeg.Library.LazySection
import P2PFFmpeg.Output.Switch
import P2PFFmpeg.Output.Writers

namespace P2PFFmpeg.Output

open Util Library Library.Transition

def SectionPc.toPc : SectionPc → LazySection.Pc
  | .testHeader => .test
  | .beginHeader => .beginSetUp
  | .endHeader => .endSetUp
  | .setHeader => .setReady
  | .beginCall => .beginUse
  | .endCall => .endUse
  | .leave _ _ => .leave

def MuxerEvent.mark : MuxerEvent → LazySection.Mark
  | .header ret => .setUp (ret ≥ 0)
  | .frame => .use
  | .trailer => .use

/-- The header as a resource that is set up once and then used. -/
def Writers.shared (s : Writers) : LazySection.Shared Thread :=
  ⟨s.output.headerWritten, s.muxing, s.log.map MuxerEvent.mark⟩

def EncodePc.inside : EncodePc → Option SectionPc
  | .locked _ pc _ => some pc
  | _ => none

def ReadPc.inside : ReadPc → Option SectionPc
  | .writing _ _ pc => some pc
  | _ => none

def VideoPc.inside : VideoPc → Option SectionPc
  | .encoding pc => pc.inside
  | _ => none

def MainPc.inside : MainPc → Option SectionPc
  | .flushing pc => pc.inside
  | .closing _ pc => some pc
  | _ => none

def Writers.inside (s : Writers) : Thread → Option SectionPc
  | .read => s.reader.inside
  | .video => s.video.inside
  | .main => s.main.inside

def only (occupant : Option (Thread × SectionPc)) (t : Thread) : Option SectionPc :=
  match occupant with
  | none => none
  | some (u, pc) => if u = t then some pc else none

def mutexOf : Option (Thread × SectionPc) → Option Thread
  | some (.read, _) => none
  | some (t, _) => some t
  | none => none

structure TakesTurns (inside : Thread → Option SectionPc) (s : Writers)
    (occupant : Option (Thread × SectionPc)) : Prop where
  inside : inside = only occupant
  mutex : s.mutex = mutexOf occupant
  consistent : LazySection.Consistent s.shared (occupant.map fun o => (o.1, o.2.toPc))
  enabled : s.output.enabled = true
  oc : s.output.oc ≠ none

def MuxerEvent.isHeader : MuxerEvent → Bool
  | .header ret => ret ≥ 0
  | _ => false

/-- No two muxing calls are in progress at once, the header succeeds at most
once, and it does so before any frame or trailer. -/
structure Exclusive (s : Writers) : Prop where
  alone : s.muxing.length ≤ 1
  once : (s.log.filter MuxerEvent.isHeader).length ≤ 1
  first : ∀ n, s.log[n]? = some .frame ∨ s.log[n]? = some .trailer →
    ∃ e ∈ s.log.take n, e.isHeader = true

/-- What the commented-out lock would have made sure of: read_thread enters only
while the mutex is free, and the others lock it only while read_thread is out. -/
def takesTurn (s : Writers) : WriterLabel → Bool
  | .read _ => match s.reader with
    | .copy _ => s.mutex.isNone
    | _ => true
  | .video _ => match s.video with
    | .encoding (.lock _ _) => (s.inside .read).isNone
    | _ => true
  | .main _ _ => match s.main with
    | .lock => (s.inside .read).isNone
    | .flushing (.lock _ _) => (s.inside .read).isNone
    | _ => true

section Section

variable {s : Writers} {t : Thread} {job : Job} {pc : SectionPc}

theorem endHeader_keeps (o : OutputState) (a : HeaderAnswer) :
    (endHeader o a).2.headerWritten = o.headerWritten ∧ (endHeader o a).2.enabled = o.enabled ∧
      (o.oc ≠ none → (endHeader o a).2.oc ≠ none) := by
  simp only [endHeader]
  split
  · exact ⟨rfl, rfl, id⟩
  · exact ⟨rfl, rfl, fun _ => by simp⟩

theorem endCall_keeps (o : OutputState) (job : Job) : (endCall o job).2.1.headerWritten = o.headerWritten ∧
      (endCall o job).2.1.enabled = o.enabled ∧ (o.oc ≠ none → (endCall o job).2.1.oc ≠ none) := by
  simp only [endCall]
  split
  · exact ⟨rfl, rfl, fun _ => by simp⟩
  · exact ⟨rfl, rfl, id⟩

theorem sectionStep_keeps (s : Writers) (t : Thread) (job : Job) (pc : SectionPc) :
    (s.sectionStep t job pc).1.mutex = s.mutex ∧
      (s.sectionStep t job pc).1.output.enabled = s.output.enabled ∧
      (s.output.oc ≠ none → (s.sectionStep t job pc).1.output.oc ≠ none) := by
  cases pc with
  | endHeader => exact ⟨rfl, (endHeader_keeps s.output job.answers.header).2⟩
  | endCall => exact ⟨rfl, (endCall_keeps s.output job).2⟩
  | testHeader | beginHeader | setHeader | beginCall | leave => exact ⟨rfl, rfl, id⟩

theorem sectionStep_shared (henabled : s.output.enabled = true) (hoc : s.output.oc ≠ none) :
    ∃ ok, (s.sectionStep t job pc).1.shared = (LazySection.advance t ok s.shared pc.toPc).1 ∧
      (s.sectionStep t job pc).2.toPc = (LazySection.advance t ok s.shared pc.toPc).2 := by
  refine ⟨0 ≤ (endHeader s.output job.answers.header).1, ?_⟩
  obtain ⟨oc, hsome⟩ := Option.ne_none_iff_exists'.mp hoc
  cases pc with
  | testHeader =>
      refine ⟨rfl, ?_⟩
      cases hwritten : s.output.headerWritten <;>
        simp [Writers.sectionStep, LazySection.advance, SectionPc.toPc, Writers.shared, henabled,
          hsome, hwritten]
  | beginHeader => exact ⟨rfl, rfl⟩
  | endHeader =>
      have hkept := (endHeader_keeps s.output job.answers.header).1
      by_cases hneg : (endHeader s.output job.answers.header).1 < 0
      · have hfails : ¬ 0 ≤ (endHeader s.output job.answers.header).1 := Int.not_le.mpr hneg
        simp [Writers.sectionStep, LazySection.advance, SectionPc.toPc, Writers.shared,
          MuxerEvent.mark, hkept, hneg, hfails]
      · have hholds : 0 ≤ (endHeader s.output job.answers.header).1 := Int.not_lt.mp hneg
        simp [Writers.sectionStep, LazySection.advance, SectionPc.toPc, Writers.shared,
          MuxerEvent.mark, hkept, hneg, hholds]
  | setHeader => exact ⟨rfl, rfl⟩
  | beginCall =>
      refine ⟨?_, rfl⟩
      cases hcall : job.call <;>
        simp [Writers.sectionStep, LazySection.advance, SectionPc.toPc, Writers.shared,
          MuxerEvent.mark, MuxerCall.event, hcall]
  | endCall =>
      have hkept := (endCall_keeps s.output job).1
      simp [Writers.sectionStep, LazySection.advance, SectionPc.toPc, Writers.shared, hkept]
  | leave ret left => exact ⟨rfl, rfl⟩

end Section

section Turns

variable {inside : Thread → Option SectionPc} {s s' : Writers} {t : Thread} {job : Job}
  {pc : SectionPc} {occupant : Option (Thread × SectionPc)}

theorem update_only (h : occupant = none ∨ ∃ pc, occupant = some (t, pc)) (x : Option SectionPc) :
    Function.update (only occupant) t x = only (x.map fun pc => (t, pc)) := by
  funext u
  by_cases hu : u = t
  · subst hu
    cases x <;> simp [only]
  · rw [Function.update_of_ne hu]
    have hne : t ≠ u := fun heq => hu heq.symm
    obtain rfl | ⟨pc, rfl⟩ := h <;> cases x <;> simp [only, hne]

theorem TakesTurns.quiet (h : TakesTurns inside s occupant) (hmutex : s'.mutex = s.mutex)
    (hshared : s'.shared = s.shared) (henabled : s'.output.enabled = s.output.enabled)
    (hoc : s.output.oc ≠ none → s'.output.oc ≠ none) : TakesTurns inside s' occupant where
  inside := h.inside
  mutex := hmutex.trans h.mutex
  consistent := by
    rw [hshared]
    exact h.consistent
  enabled := henabled.trans h.enabled
  oc := hoc h.oc

theorem TakesTurns.occupant_eq (h : TakesTurns inside s occupant) (ht : inside t = some pc) :
    occupant = some (t, pc) := by
  rw [h.inside] at ht
  cases hocc : occupant with
  | none =>
      rw [hocc] at ht
      cases ht
  | some o =>
      obtain ⟨u, pc'⟩ := o
      rw [hocc] at ht
      simp only [only] at ht
      split at ht
      · rename_i heq
        cases ht
        rw [heq]
      · cases ht

/-- Nobody is at the muxer when the mutex is free and read_thread is out. -/
theorem TakesTurns.occupant_none (h : TakesTurns inside s occupant) (hmutex : s.mutex = none)
    (hread : inside .read = none) : occupant = none := by
  have hm := h.mutex
  rw [hmutex] at hm
  rw [h.inside] at hread
  match occupant with
  | none => rfl
  | some (.read, pc) => simp [only] at hread
  | some (.video, pc) => cases hm
  | some (.main, pc) => cases hm

theorem TakesTurns.enter (h : TakesTurns inside s none) (t : Thread)
    (hmutex : s'.mutex = mutexOf (some (t, .testHeader))) (houtput : s'.output = s.output)
    (hmuxing : s'.muxing = s.muxing) (hlog : s'.log = s.log) :
    TakesTurns (Function.update inside t (some .testHeader)) s' (some (t, .testHeader)) where
  inside := by
    rw [h.inside]
    exact update_only (.inl rfl) _
  mutex := hmutex
  consistent := by
    have hshared : s'.shared = s.shared := by rw [Writers.shared, Writers.shared, houtput, hmuxing, hlog]
    rw [hshared]
    exact h.consistent.enter
  enabled := by
    rw [houtput]
    exact h.enabled
  oc := by
    rw [houtput]
    exact h.oc

theorem TakesTurns.advance (h : TakesTurns inside s occupant) (ht : inside t = some pc) (job : Job) :
    TakesTurns (Function.update inside t (some (s.sectionStep t job pc).2)) (s.sectionStep t job pc).1
      (some (t, (s.sectionStep t job pc).2)) := by
  obtain rfl := h.occupant_eq ht
  obtain ⟨hmutex, henabled, hoc⟩ := sectionStep_keeps s t job pc
  obtain ⟨ok, hshared, hpc⟩ := @sectionStep_shared s t job pc h.enabled h.oc
  exact
    { inside := by
        rw [h.inside]
        exact update_only (.inr ⟨pc, rfl⟩) _
      mutex := by
        rw [hmutex, h.mutex]
        cases t <;> rfl
      consistent := by
        have hnext := h.consistent.advance ok
        rw [← hshared, ← hpc] at hnext
        exact hnext
      enabled := henabled.trans h.enabled
      oc := hoc h.oc }

theorem TakesTurns.leave {ret : Option Int} {left : AVPacket} (h : TakesTurns inside s occupant)
    (ht : inside t = some (.leave ret left)) (hmutex : s'.mutex = none)
    (hshared : s'.shared = s.shared) (henabled : s'.output.enabled = s.output.enabled)
    (hoc : s.output.oc ≠ none → s'.output.oc ≠ none) :
    TakesTurns (Function.update inside t none) s' none := by
  obtain rfl := h.occupant_eq ht
  exact
    { inside := by
        rw [h.inside]
        exact update_only (.inr ⟨_, rfl⟩) none
      mutex := hmutex
      consistent := by
        rw [hshared]
        exact h.consistent.leave
      enabled := henabled.trans h.enabled
      oc := hoc h.oc }

theorem TakesTurns.away (h : TakesTurns inside s occupant) (ht : inside t = none)
    (hmutex : s'.mutex = s.mutex) (hshared : s'.shared = s.shared)
    (henabled : s'.output.enabled = s.output.enabled) (hoc : s.output.oc ≠ none → s'.output.oc ≠ none) :
    TakesTurns (Function.update inside t none) s' occupant := by
  rw [← ht, Function.update_eq_self]
  exact h.quiet hmutex hshared henabled hoc

theorem TakesTurns.encode {pc : EncodePc} {next : Writers × Option EncodePc}
    (h : TakesTurns inside s occupant) (ht : inside t = pc.inside) (hread : t ≠ .read)
    (hturn : ∀ job rest, pc = .lock job rest → inside .read = none) (hn : s.encodeStep t pc = some next) :
    ∃ occupant', TakesTurns (Function.update inside t (next.2.bind EncodePc.inside)) next.1
      occupant' := by
  cases pc with
  | receive rest =>
      cases rest with
      | nil =>
          cases hn
          exact ⟨occupant, h.away ht rfl rfl rfl id⟩
      | cons r rest =>
          obtain ⟨pkt, a⟩ := r
          simp only [Writers.encodeStep] at hn
          split at hn
          · cases hn
            exact ⟨occupant, h.away ht rfl rfl rfl id⟩
          · cases hn
            exact ⟨occupant, h.away ht rfl rfl rfl id⟩
  | lock job rest =>
      simp only [Writers.encodeStep] at hn
      split at hn
      · rename_i hfree
        cases hn
        obtain rfl := h.occupant_none hfree (hturn job rest rfl)
        refine ⟨_, h.enter t ?_ rfl rfl rfl⟩
        cases t with
        | read => exact absurd rfl hread
        | video | main => rfl
      · cases hn
  | locked job pc rest =>
      cases pc with
      | leave ret left =>
          cases hn
          refine ⟨none, ?_⟩
          have hleft := @TakesTurns.leave _ _ { s with mutex := none } _ _ _ _ h ht rfl rfl rfl id
          by_cases hfails : ret.any (· < 0) = true
          · simpa [hfails] using hleft
          · simpa [hfails, EncodePc.inside] using hleft
      | testHeader | beginHeader | endHeader | setHeader | beginCall | endCall =>
          cases hn
          exact ⟨_, h.advance ht job⟩

end Turns

section Steps

variable {s s' : Writers} {occupant : Option (Thread × SectionPc)}

theorem TakesTurns.reader (s : Writers)
    (h : TakesTurns (Function.update s.inside .read s'.reader.inside) s' occupant)
    (hvideo : s'.video = s.video) (hmain : s'.main = s.main) : TakesTurns s'.inside s' occupant := by
  have hinside : s'.inside = Function.update s.inside .read s'.reader.inside := by
    funext u
    cases u with
    | read => rfl
    | video => exact congrArg VideoPc.inside hvideo
    | main => exact congrArg MainPc.inside hmain
  rw [hinside]
  exact h

theorem TakesTurns.video (s : Writers)
    (h : TakesTurns (Function.update s.inside .video s'.video.inside) s' occupant)
    (hreader : s'.reader = s.reader) (hmain : s'.main = s.main) : TakesTurns s'.inside s' occupant := by
  have hinside : s'.inside = Function.update s.inside .video s'.video.inside := by
    funext u
    cases u with
    | read => exact congrArg ReadPc.inside hreader
    | video => rfl
    | main => exact congrArg MainPc.inside hmain
  rw [hinside]
  exact h

theorem TakesTurns.main (s : Writers)
    (h : TakesTurns (Function.update s.inside .main s'.main.inside) s' occupant)
    (hreader : s'.reader = s.reader) (hvideo : s'.video = s.video) : TakesTurns s'.inside s' occupant := by
  have hinside : s'.inside = Function.update s.inside .main s'.main.inside := by
    funext u
    cases u with
    | read => exact congrArg ReadPc.inside hreader
    | video => exact congrArg VideoPc.inside hvideo
    | main => rfl
  rw [hinside]
  exact h

theorem outputPrepareVideoEncoder_keeps (o : OutputState) (a : EncoderAnswer) :
    (outputPrepareVideoEncoder o a).2.headerWritten = o.headerWritten ∧
      (outputPrepareVideoEncoder o a).2.enabled = o.enabled ∧
      (o.oc ≠ none → (outputPrepareVideoEncoder o a).2.oc ≠ none) := by
  simp only [outputPrepareVideoEncoder]
  repeat' split
  all_goals exact ⟨rfl, rfl, by simp_all⟩

theorem rememberDts_keeps (o : OutputState) (outIdx : Nat) (ret : Option Int) (left : AVPacket) :
    (rememberDts o outIdx ret left).headerWritten = o.headerWritten ∧
      (rememberDts o outIdx ret left).enabled = o.enabled ∧
      (rememberDts o outIdx ret left).oc = o.oc := by
  simp only [rememberDts]
  split
  · split <;> exact ⟨rfl, rfl, rfl⟩
  · exact ⟨rfl, rfl, rfl⟩

theorem sendFrame_keeps {o o' : OutputState} {frame : Option (Option Int)} {srcTb : AVRational}
    {a : EncodeAnswers} (h : o.sendFrame frame srcTb a = some o') :
    o'.headerWritten = o.headerWritten ∧ o'.enabled = o.enabled ∧ o'.oc = o.oc := by
  simp only [OutputState.sendFrame] at h
  repeat' split at h
  all_goals cases h <;> exact ⟨rfl, rfl, rfl⟩

theorem shared_output {o : OutputState} (h : o.headerWritten = s.output.headerWritten) :
    ({ s with output := o } : Writers).shared = s.shared := by
  simp only [Writers.shared, h]

theorem sectionStep_threads (s : Writers) (t : Thread) (job : Job) (pc : SectionPc) :
    (s.sectionStep t job pc).1.reader = s.reader ∧ (s.sectionStep t job pc).1.video = s.video ∧
      (s.sectionStep t job pc).1.main = s.main := by
  cases pc <;> exact ⟨rfl, rfl, rfl⟩

theorem encodeStep_threads {t : Thread} {pc : EncodePc} {next : Writers × Option EncodePc}
    (h : s.encodeStep t pc = some next) :
    next.1.reader = s.reader ∧ next.1.video = s.video ∧ next.1.main = s.main := by
  cases pc with
  | receive rest =>
      cases rest with
      | nil =>
          cases h
          exact ⟨rfl, rfl, rfl⟩
      | cons r rest =>
          simp only [Writers.encodeStep] at h
          split at h <;> cases h <;> exact ⟨rfl, rfl, rfl⟩
  | lock job rest =>
      simp only [Writers.encodeStep] at h
      split at h <;> cases h
      exact ⟨rfl, rfl, rfl⟩
  | locked job pc rest =>
      cases pc with
      | leave ret left =>
          cases h
          exact ⟨rfl, rfl, rfl⟩
      | testHeader | beginHeader | endHeader | setHeader | beginCall | endCall =>
          cases h
          exact sectionStep_threads s t job _

theorem TakesTurns.readStep {p : Packet} (h : TakesTurns s.inside s occupant)
    (hturn : takesTurn s (.read p) = true) (hn : s.readStep p = some s') :
    ∃ occupant', TakesTurns s'.inside s' occupant' := by
  have hplace : s.inside .read = s.reader.inside := rfl
  cases hr : s.reader with
  | nextPacket =>
      rw [hr] at hplace
      simp only [Writers.readStep, hr] at hn
      cases p with
      | eof =>
          cases hn
          refine ⟨occupant, TakesTurns.reader s ?_ rfl rfl⟩
          exact h.away hplace rfl rfl rfl id
      | audio call =>
          simp only at hn
          split at hn
          · cases hn
            refine ⟨occupant, TakesTurns.reader s ?_ rfl rfl⟩
            exact h.away hplace rfl rfl rfl id
          · cases hn
            exact ⟨occupant, h⟩
      | video call isParamChange encoder =>
          simp only at hn
          split at hn
          · cases hn
            exact ⟨occupant, h⟩
          · split at hn
            · cases hn
              refine ⟨occupant, TakesTurns.reader s ?_ rfl rfl⟩
              exact h.away hplace rfl rfl rfl id
            · cases hn
              refine ⟨occupant, TakesTurns.reader s ?_ rfl rfl⟩
              exact h.away hplace rfl rfl rfl id
  | prepare encoder call =>
      rw [hr] at hplace
      simp only [Writers.readStep, hr] at hn
      cases hn
      obtain ⟨hwritten, henabled, hoc⟩ := outputPrepareVideoEncoder_keeps s.output encoder
      refine ⟨occupant, TakesTurns.reader s ?_ rfl rfl⟩
      exact h.away hplace rfl (shared_output hwritten) henabled hoc
  | testCopy call =>
      rw [hr] at hplace
      simp only [Writers.readStep, hr] at hn
      cases hn
      refine ⟨occupant, TakesTurns.reader s ?_ rfl rfl⟩
      cases s.output.useCopyVideo <;> exact h.away hplace rfl rfl rfl id
  | copy call =>
      rw [hr] at hplace
      simp only [Writers.readStep, hr] at hn
      split at hn
      · cases hn
        refine ⟨occupant, TakesTurns.reader s ?_ rfl rfl⟩
        exact h.away hplace rfl rfl rfl id
      · split at hn
        · cases hn
          refine ⟨occupant, TakesTurns.reader s ?_ rfl rfl⟩
          exact h.away hplace rfl rfl rfl id
        · cases hn
          have hfree : s.mutex = none := by simpa [takesTurn, hr] using hturn
          obtain rfl := h.occupant_none hfree hplace
          have hentered := fun s' => @TakesTurns.enter s.inside s s' h .read
          exact ⟨_, TakesTurns.reader s (hentered _ hfree rfl rfl rfl) rfl rfl⟩
  | writing outIdx job pc =>
      rw [hr] at hplace
      cases pc with
      | leave ret left =>
          simp only [Writers.readStep, hr] at hn
          cases hn
          obtain ⟨hwritten, henabled, hoc⟩ := rememberDts_keeps s.output outIdx ret left
          have hmutex : s.mutex = none := by
            rw [h.mutex, h.occupant_eq hplace]
            rfl
          refine ⟨none, TakesTurns.reader s ?_ rfl rfl⟩
          exact h.leave hplace hmutex (shared_output hwritten) henabled
            (fun hsome => by rw [hoc]; exact hsome)
      | testHeader | beginHeader | endHeader | setHeader | beginCall | endCall =>
          simp only [Writers.readStep, hr] at hn
          cases hn
          obtain ⟨_, hvideo, hmain⟩ := sectionStep_threads s .read job _
          have hnext := h.advance hplace job
          exact ⟨_, TakesTurns.reader s (hnext.quiet rfl rfl rfl id) hvideo hmain⟩
  | done =>
      simp only [Writers.readStep, hr] at hn
      cases hn

theorem TakesTurns.videoStep {f : Option Frame} (h : TakesTurns s.inside s occupant)
    (hturn : takesTurn s (.video f) = true) (hn : s.videoStep f = some s') :
    ∃ occupant', TakesTurns s'.inside s' occupant' := by
  have hplace : s.inside .video = s.video.inside := rfl
  cases hv : s.video with
  | nextFrame =>
      rw [hv] at hplace
      simp only [Writers.videoStep, hv] at hn
      cases f with
      | none =>
          cases hn
          refine ⟨occupant, TakesTurns.video s ?_ rfl rfl⟩
          exact h.away hplace rfl rfl rfl id
      | some frame =>
          simp only at hn
          split at hn
          · split at hn
            · cases hn
              refine ⟨occupant, TakesTurns.video s ?_ rfl rfl⟩
              exact h.away hplace rfl rfl rfl id
            · cases hn
              refine ⟨occupant, TakesTurns.video s ?_ rfl rfl⟩
              exact h.away hplace rfl rfl rfl id
          · cases hn
            exact ⟨occupant, h⟩
  | prepare frame =>
      rw [hv] at hplace
      simp only [Writers.videoStep, hv] at hn
      cases hn
      obtain ⟨hwritten, henabled, hoc⟩ := outputPrepareVideoEncoder_keeps s.output frame.encoder
      refine ⟨occupant, TakesTurns.video s ?_ rfl rfl⟩
      exact h.away hplace rfl (shared_output hwritten) henabled hoc
  | encode frame =>
      rw [hv] at hplace
      simp only [Writers.videoStep, hv] at hn
      split at hn
      · cases hn
        refine ⟨occupant, TakesTurns.video s ?_ rfl rfl⟩
        exact h.away hplace rfl rfl rfl id
      · rename_i o hsent
        cases hn
        obtain ⟨hwritten, henabled, hoc⟩ := sendFrame_keeps hsent
        refine ⟨occupant, TakesTurns.video s ?_ rfl rfl⟩
        exact h.away hplace rfl (shared_output hwritten) henabled
          (fun hsome => by rw [hoc]; exact hsome)
  | encoding pc =>
      rw [hv] at hplace
      simp only [Writers.videoStep, hv] at hn
      obtain ⟨next, hnext, rfl⟩ := Option.map_eq_some_iff.mp hn
      obtain ⟨occupant', hturns⟩ := h.encode hplace (by simp)
        (by
          rintro job rest rfl
          simpa [takesTurn, hv] using hturn) hnext
      obtain ⟨hreader, _, hmain⟩ := encodeStep_threads hnext
      refine ⟨occupant', TakesTurns.video s ?_ hreader hmain⟩
      cases hend : next.2 <;> rw [hend] at hturns <;> exact hturns.quiet rfl rfl rfl id
  | done =>
      simp only [Writers.videoStep, hv] at hn
      cases hn

theorem TakesTurns.mainStep {answers : EncodeAnswers} {a : WriteAnswers}
    (h : TakesTurns s.inside s occupant) (hturn : takesTurn s (.main answers a) = true)
    (hn : s.mainStep answers a = some s') : ∃ occupant', TakesTurns s'.inside s' occupant' := by
  have hplace : s.inside .main = s.main.inside := rfl
  cases hm : s.main with
  | waiting =>
      rw [hm] at hplace
      simp only [Writers.mainStep, hm] at hn
      split at hn
      · split at hn
        · cases hn
          refine ⟨occupant, TakesTurns.main s ?_ rfl rfl⟩
          exact h.away hplace rfl rfl rfl id
        · split at hn
          · cases hn
            refine ⟨occupant, TakesTurns.main s ?_ rfl rfl⟩
            exact h.away hplace rfl rfl rfl id
          · rename_i o hsent
            cases hn
            obtain ⟨hwritten, henabled, hoc⟩ := sendFrame_keeps hsent
            refine ⟨occupant, TakesTurns.main s ?_ rfl rfl⟩
            exact h.away hplace rfl (shared_output hwritten) henabled
              (fun hsome => by rw [hoc]; exact hsome)
      · cases hn
  | flushing pc =>
      rw [hm] at hplace
      simp only [Writers.mainStep, hm] at hn
      obtain ⟨next, hnext, rfl⟩ := Option.map_eq_some_iff.mp hn
      obtain ⟨occupant', hturns⟩ := h.encode hplace (by simp)
        (by
          rintro job rest rfl
          simpa [takesTurn, hm] using hturn) hnext
      obtain ⟨hreader, hvideo, _⟩ := encodeStep_threads hnext
      refine ⟨occupant', TakesTurns.main s ?_ hreader hvideo⟩
      cases hend : next.2 <;> rw [hend] at hturns <;> exact hturns.quiet rfl rfl rfl id
  | lock =>
      rw [hm] at hplace
      simp only [Writers.mainStep, hm] at hn
      split at hn
      · cases hn
        refine ⟨occupant, TakesTurns.main s ?_ rfl rfl⟩
        exact h.away hplace rfl rfl rfl id
      · split at hn
        · rename_i hfree
          cases hn
          obtain rfl := h.occupant_none hfree (by simpa [takesTurn, hm] using hturn)
          have hentered := fun s' => @TakesTurns.enter s.inside s s' h .main
          exact ⟨_, TakesTurns.main s (hentered _ rfl rfl rfl rfl) rfl rfl⟩
        · cases hn
  | closing job pc =>
      rw [hm] at hplace
      cases pc with
      | leave ret left =>
          simp only [Writers.mainStep, hm] at hn
          cases hn
          refine ⟨none, TakesTurns.main s ?_ rfl rfl⟩
          exact h.leave hplace rfl rfl rfl id
      | testHeader | beginHeader | endHeader | setHeader | beginCall | endCall =>
          simp only [Writers.mainStep, hm] at hn
          cases hn
          obtain ⟨hreader, hvideo, _⟩ := sectionStep_threads s .main job _
          have hnext := h.advance hplace job
          exact ⟨_, TakesTurns.main s (hnext.quiet rfl rfl rfl id) hreader hvideo⟩
  | closed =>
      simp only [Writers.mainStep, hm] at hn
      cases hn

theorem addStreams_keeps (o : OutputState) (oc : AVFormatContext) (i : Nat)
    (inputs : List InputStream) : (addStreams o oc i inputs).1.enabled = o.enabled ∧
      (addStreams o oc i inputs).1.headerWritten = o.headerWritten := by
  induction inputs generalizing o oc i with
  | nil => exact ⟨rfl, rfl⟩
  | cons ist rest ih =>
      simp only [addStreams]
      obtain ⟨henabled, hwritten⟩ := ih (addStream o oc i ist).1 (addStream o oc i ist).2 (i + 1)
      rw [henabled, hwritten]
      simp only [addStream]
      repeat' split
      all_goals exact ⟨rfl, rfl⟩

theorem start_takesTurns (oformat : AVOutputFormat) (inputs : List InputStream) :
    TakesTurns (Writers.start (outputInitFromInput oformat inputs)).inside
      (Writers.start (outputInitFromInput oformat inputs)) none where
  inside := by
    funext u
    cases u <;> rfl
  mutex := rfl
  consistent := by
    have hshared : (Writers.start (outputInitFromInput oformat inputs)).shared =
        LazySection.start := by
      simp only [Writers.start, Writers.shared, LazySection.start, outputInitFromInput,
        (addStreams_keeps _ _ _ _).2, List.map_nil]
    rw [hshared]
    exact LazySection.consistent_start
  enabled := by
    simp only [Writers.start, outputInitFromInput, (addStreams_keeps _ _ _ _).1]
  oc := by simp [Writers.start, outputInitFromInput]

end Steps

theorem writing_takesTurns {s : Writers} (h : (writing.guard takesTurn).Reachable s) :
    ∃ occupant, TakesTurns s.inside s occupant := by
  refine System.Reachable.invariant (fun s => ∃ occupant, TakesTurns s.inside s occupant) ?_ ?_ h
  · rintro s ⟨oformat, inputs, rfl⟩
    exact ⟨none, start_takesTurns oformat inputs⟩
  · rintro s l s' _ ⟨occupant, ih⟩ hn
    obtain ⟨hturn, hnext⟩ := System.guard_next.mp hn
    cases l with
    | read p => exact ih.readStep hturn hnext
    | video f => exact ih.videoStep hturn hnext
    | main answers a => exact ih.mainStep hturn hnext

theorem mark_setUp {e : MuxerEvent} : e.mark = .setUp true ↔ e.isHeader = true := by
  cases e <;> simp [MuxerEvent.mark, MuxerEvent.isHeader]

theorem TakesTurns.exclusive {inside : Thread → Option SectionPc} {s : Writers}
    {occupant : Option (Thread × SectionPc)} (h : TakesTurns inside s occupant) : Exclusive s where
  alone := h.consistent.alone
  once := by
    have honce := h.consistent.atMostOnce
    have hcount : (LazySection.setUps s.shared.log).length =
        (s.log.filter MuxerEvent.isHeader).length := by
      simp only [LazySection.setUps, Writers.shared, List.filter_map, List.length_map]
      congr 2
      funext e
      cases e <;> simp [MuxerEvent.mark, MuxerEvent.isHeader]
    rwa [hcount] at honce
  first := by
    intro n hn
    have hmark : s.shared.log[n]? = some .use := by
      rw [Writers.shared, List.getElem?_map]
      obtain hframe | htrailer := hn
      · rw [hframe]
        rfl
      · rw [htrailer]
        rfl
    have hmem := h.consistent.first n hmark
    rw [Writers.shared, ← List.map_take] at hmem
    obtain ⟨e, he, hset⟩ := List.mem_map.mp hmem
    exact ⟨e, he, mark_setUp.mp hset⟩

/-- In every interleaving in which the threads take turns, the calls into the
muxer exclude one another and the header goes out once, before the rest. -/
theorem writers_exclusive {s : Writers} (h : (writing.guard takesTurn).Reachable s) :
    Exclusive s := by
  obtain ⟨occupant, hturns⟩ := writing_takesTurns h
  exact hturns.exclusive

def audioInput : InputStream := ⟨⟨1, 90000⟩, .audio, .other, 48000, 0, false⟩

def keepsBoth : WriteAnswers := ⟨⟨0, [⟨1, 90000⟩, ⟨1, 90000⟩]⟩, none, []⟩

def packetOf (stream ts : Int) : CopyCall :=
  ⟨⟨1, 90000⟩, ⟨some ts, some ts, [0], stream, true, false, 1⟩, 0, keepsBoth⟩

def audioAt (ts : Int) : WriterLabel := .read (.audio (packetOf 0 ts))

def paramChangeAt (ts : Int) : WriterLabel := .read (.video (packetOf 1 ts) true encoderOpens)

def frameAt (ts : Int) : WriterLabel :=
  .video (some ⟨some ts, ⟨1, 90000⟩, encoderOpens,
    ⟨0, 0, [(⟨some ts, some ts, [0], 0, true, false, 1⟩, keepsBoth)], averrorEagain⟩⟩)

def audioAndVideo : Writers :=
  .start (outputInitFromInput plainFormat [audioInput, videoInput 90000])

theorem audioAndVideo_init : writing.init audioAndVideo := ⟨plainFormat, _, rfl⟩

/-- An audio packet is copied, the encoder is opened, and a frame is encoded. -/
theorem writers_exclusive_in_turn : ∃ s, (writing.guard takesTurn).Reachable s ∧
    s.log = [.header 0, .frame, .frame] ∧ Exclusive s := by
  have hrun : ((writing.guard takesTurn).run (List.replicate 9 (audioAt 0) ++
      List.replicate 3 (paramChangeAt 10) ++ List.replicate 8 (frameAt 10)) audioAndVideo).map
        (fun s => s.log) = some [.header 0, .frame, .frame] := by
    decide +kernel
  obtain ⟨s, hs, hlog⟩ := Option.map_eq_some_iff.mp hrun
  have hreach : (writing.guard takesTurn).Reachable s := .of_run audioAndVideo_init hs
  exact ⟨s, hreach, hlog, writers_exclusive hreach⟩

/-- After the switch an audio packet is copied while video_thread, which holds
the mutex, is writing a frame. -/
theorem copy_during_encode : ∃ s, writing.Reachable s ∧ ¬ Exclusive s := by
  have hrun : (writing.run (List.replicate 9 (audioAt 0) ++ List.replicate 3 (paramChangeAt 10) ++
      List.replicate 6 (frameAt 10) ++ List.replicate 4 (audioAt 20)) audioAndVideo).map
        (fun s => s.muxing) = some [.read, .video] := by
    decide +kernel
  obtain ⟨s, hs, hmuxing⟩ := Option.map_eq_some_iff.mp hrun
  refine ⟨s, .of_run audioAndVideo_init hs, ?_⟩
  intro hexclusive
  have halone := hexclusive.alone
  rw [hmuxing] at halone
  exact absurd halone (by decide)

end P2PFFmpeg.Output
