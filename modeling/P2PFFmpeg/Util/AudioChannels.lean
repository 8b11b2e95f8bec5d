import Mathlib.Data.List.Forall2
import P2PFFmpeg.Util.AudioFifo

namespace P2PFFmpeg.Util

open Library Library.Transition

structure SampleQueue where
  chans : List (List UInt8)
  nbSamples : Nat
  sampleSize : Nat
  inStep : ∀ c ∈ chans, c.length = nbSamples * sampleSize

def SampleQueue.range (q : SampleQueue) (offset n : Nat) : List (List (Option UInt8)) :=
  q.chans.map fun c => ((c.drop (offset * q.sampleSize)).take (n * q.sampleSize)).map some

def SampleQueue.append (q : SampleQueue) (data : Nat → Nat → UInt8) (n : Nat) : SampleQueue where
  chans := q.chans.mapIdx fun i c => c ++ bytesAt (data i) (n * q.sampleSize)
  nbSamples := q.nbSamples + n
  sampleSize := q.sampleSize
  inStep := by
    intro c hc
    obtain ⟨i, hi, rfl⟩ := List.mem_mapIdx.mp hc
    rw [List.length_append, q.inStep _ (List.getElem_mem hi), bytesAt, List.length_map,
      List.length_range, Nat.add_mul]

def SampleQueue.drop (q : SampleQueue) (n : Nat) : SampleQueue where
  chans := q.chans.map fun c => c.drop (n * q.sampleSize)
  nbSamples := q.nbSamples - n
  sampleSize := q.sampleSize
  inStep := by
    intro c hc
    obtain ⟨d, hd, rfl⟩ := List.mem_map.mp hc
    rw [List.length_drop, q.inStep d hd, Nat.sub_mul]

def SampleQueue.clear (q : SampleQueue) : SampleQueue where
  chans := q.chans.map fun _ => []
  nbSamples := 0
  sampleSize := q.sampleSize
  inStep := by
    intro c hc
    obtain ⟨d, _, rfl⟩ := List.mem_map.mp hc
    rw [Nat.zero_mul, List.length_nil]

/-- What a call does to the samples; one that fails does nothing. -/
inductive SampleQueue.Step (q : SampleQueue) : AudioOp → AudioAnswer → SampleQueue → Prop
  | write {data n memory} : q.Step (.write data n memory) ⟨n, []⟩ (q.append data n)
  | writeFails {data n memory ret} : ret < 0 → q.Step (.write data n memory) ⟨ret, []⟩ q
  | readNothing {n : Int} : 0 ≤ n → min n.toNat q.nbSamples = 0 → q.Step (.read n) ⟨0, []⟩ q
  | read {n : Int} {k : Nat} : 0 ≤ n → k = min n.toNat q.nbSamples → 0 < k →
      q.Step (.read n) ⟨k, q.range 0 k⟩ (q.drop k)
  | readFails {n : Int} {ret} : n < 0 → ret < 0 → q.Step (.read n) ⟨ret, []⟩ q
  | peekNothing {n offset : Int} : 0 ≤ n → 0 ≤ offset → offset < q.nbSamples →
      min n.toNat q.nbSamples = 0 → q.Step (.peekAt n offset) ⟨0, []⟩ q
  | peek {n : Int} {offset k : Nat} : 0 ≤ n → k = min n.toNat q.nbSamples → 0 < k →
      offset + k ≤ q.nbSamples → q.Step (.peekAt n offset) ⟨k, q.range offset k⟩ q
  | peekFails {n offset : Int} {ret} :
      (n < 0 ∨ offset < 0 ∨ (q.nbSamples : Int) ≤ offset ∨
        (q.nbSamples : Int) < offset + min n.toNat q.nbSamples) → ret < 0 →
      q.Step (.peekAt n offset) ⟨ret, []⟩ q
  | drain {n : Int} : 0 ≤ n → q.Step (.drain n) ⟨0, []⟩ (q.drop (min n.toNat q.nbSamples))
  | drainFails {n : Int} {ret} : n < 0 → ret < 0 → q.Step (.drain n) ⟨ret, []⟩ q
  | realloc {n memory ret} : q.Step (.realloc n memory) ⟨ret, []⟩ q
  | reset : q.Step .reset ⟨0, []⟩ q.clear

/-- The buffers hold the samples, and are all as large, with the room that has been allocated. -/
structure AVAudioFifo.Refines (af : AVAudioFifo) (q : SampleQueue) : Prop where
  buffers : List.Forall₂ AVFifo.Holds af.buf q.chans
  nbSamples : af.nbSamples = q.nbSamples
  sampleSize : af.sampleSize = q.sampleSize
  positive : 0 < af.sampleSize
  nonempty : af.buf ≠ []
  even : ∀ f ∈ af.buf, f.nbElems = af.curSize
  allocated : af.allocatedSamples * af.sampleSize ≤ af.curSize
  plane : ∀ n bufSize, avSamplesGetBufferSize af.channels n af.sampleFmt = some bufSize →
    bufSize = n * af.sampleSize

/-- Where the buffers grow, memory can be had for all of them or not for the first. -/
def AVAudioFifo.GrowsWhole (af : AVAudioFifo) (n : Nat) (memory : Nat → Bool) : Prop :=
  ∀ bufSize, avSamplesGetBufferSize af.channels n af.sampleFmt = some bufSize → af.curSize < bufSize →
    memory 0 = false ∨ ∀ i < af.buf.length, memory i = true

def WholeGrowth (af : AVAudioFifo) : AudioOp → Prop
  | .write _ n memory => ∀ wanted, af.wanted n = .ok (some wanted) → af.GrowsWhole wanted memory
  | .realloc n memory => af.GrowsWhole n memory
  | .read _ | .peekAt _ _ | .drain _ | .reset => True

section Loops

variable {fs : List (AVFifo UInt8)} {chans : List (List UInt8)} {cap : Nat}

theorem avFifoGrow2_fails {f : AVFifo UInt8} {inc : Nat} {allocated : Bool}
    (h : allocated = false ∨ sizeMax - f.nbElems < inc) :
    (avFifoGrow2 f inc allocated).1 < 0 ∧ (avFifoGrow2 f inc allocated).2 = f := by
  obtain ⟨_, hfails⟩ | ⟨_, _, hfails⟩ | ⟨hsize, hallocated, _⟩ := avFifoGrow2_cases f inc allocated
  · rw [hfails]
    exact ⟨(by decide : (-22 : Int) < 0), rfl⟩
  · rw [hfails]
    exact ⟨(by decide : (-12 : Int) < 0), rfl⟩
  · obtain h | h := h
    · rw [h] at hallocated
      cases hallocated
    · omega

theorem growBuffers_whole (h : List.Forall₂ AVFifo.Holds fs chans) (heven : ∀ f ∈ fs, f.nbElems = cap)
    {inc : Nat} (hsize : inc ≤ sizeMax - cap) {memory : Nat → Bool} (i : Nat)
    (hmemory : ∀ j < fs.length, memory (i + j) = true) : (growBuffers inc memory i fs).1 = 0 ∧
      List.Forall₂ AVFifo.Holds (growBuffers inc memory i fs).2 chans ∧
      ∀ f ∈ (growBuffers inc memory i fs).2, f.nbElems = cap + inc := by
  induction h generalizing i with
  | nil => exact ⟨rfl, .nil, by simp [growBuffers]⟩
  | @cons f c fs chans hf _ ih =>
      have hnb := heven f List.mem_cons_self
      have hhad : memory i = true := hmemory 0 (by simp)
      have hret : (avFifoGrow2 f inc (memory i)).1 = 0 := by
        obtain ⟨hbig, _⟩ | ⟨_, hnone, _⟩ | ⟨_, _, hret, _⟩ := avFifoGrow2_cases f inc (memory i)
        · omega
        · rw [hhad] at hnone
          cases hnone
        · exact hret
      obtain ⟨hgrown, hcap⟩ := hf.grow inc (Int.le_of_eq hret.symm)
      obtain ⟨hrest, hholds, hcaps⟩ := ih (fun g hg => heven g (List.mem_cons_of_mem f hg)) (i + 1) (by
        intro j hj
        rw [Nat.add_right_comm]
        exact hmemory (j + 1) (Nat.succ_lt_succ hj))
      have hstay : ¬ (avFifoGrow2 f inc (memory i)).1 < 0 := by omega
      simp only [growBuffers, if_neg hstay]
      refine ⟨hrest, .cons hgrown hholds, ?_⟩
      intro g hg
      obtain rfl | hg := List.mem_cons.mp hg
      · rw [hcap, hnb]
      · exact hcaps g hg

theorem growBuffers_fails {f : AVFifo UInt8} {inc : Nat} {memory : Nat → Bool}
    (h : memory 0 = false ∨ sizeMax - f.nbElems < inc) :
    (growBuffers inc memory 0 (f :: fs)).1 < 0 ∧ (growBuffers inc memory 0 (f :: fs)).2 = f :: fs := by
  obtain ⟨hneg, hsame⟩ := avFifoGrow2_fails h
  simp only [growBuffers, if_pos hneg]
  exact ⟨hneg, by rw [hsame]⟩

theorem AVFifo.Holds.size {f : AVFifo UInt8} {c : List UInt8} (h : f.Holds c) :
    avFifoCanRead f + avFifoCanWrite f = f.nbElems := by
  have hlen := h.length
  rw [avFifoCanWrite, h.canRead]
  omega

theorem avFifoWrite_fits_nbElems {f : AVFifo UInt8} {c ys : List UInt8} (h : f.Holds c)
    (hroom : c.length + ys.length ≤ f.nbElems) (allocated : Bool) :
    (avFifoWrite f ys allocated).2.nbElems = f.nbElems := by
  have hspace : fifoCheckSpace f ys.length allocated = (0, f) := by
    simp only [fifoCheckSpace, avFifoCanWrite, h.canRead]
    rw [if_pos (by omega)]
  simp only [avFifoWrite, hspace, Int.lt_irrefl, if_false]

@[simp] theorem length_bytesAt (p : Nat → UInt8) (size : Nat) : (bytesAt p size).length = size := by
  rw [bytesAt, List.length_map, List.length_range]

theorem writeBuffers_fits (h : List.Forall₂ AVFifo.Holds fs chans)
    (heven : ∀ f ∈ fs, f.nbElems = cap) (data : Nat → Nat → UInt8) {size : Nat}
    (hroom : ∀ c ∈ chans, c.length + size ≤ cap) (i : Nat) : (writeBuffers data size i fs).1 = 0 ∧
      List.Forall₂ AVFifo.Holds (writeBuffers data size i fs).2
        (chans.mapIdx fun j c => c ++ bytesAt (data (i + j)) size) ∧
      ∀ f ∈ (writeBuffers data size i fs).2, f.nbElems = cap := by
  induction h generalizing i with
  | nil => exact ⟨rfl, .nil, by simp [writeBuffers]⟩
  | @cons f c fs chans hf _ ih =>
      have hnb := heven f List.mem_cons_self
      have hfits : c.length + (bytesAt (data i) size).length ≤ f.nbElems := by
        rw [length_bytesAt, hnb]
        exact hroom c List.mem_cons_self
      obtain ⟨hret, hwritten⟩ := hf.write_fits hfits true
      obtain ⟨hrest, hholds, hcaps⟩ := ih (fun g hg => heven g (List.mem_cons_of_mem f hg))
        (fun d hd => hroom d (List.mem_cons_of_mem c hd)) (i + 1)
      have hstay : ¬ (avFifoWrite f (bytesAt (data i) size) true).1 < 0 := by omega
      simp only [writeBuffers, if_neg hstay]
      refine ⟨hrest, ?_, ?_⟩
      · rw [List.mapIdx_cons]
        refine .cons hwritten ?_
        simp only [Nat.add_right_comm i 1] at hholds
        exact hholds
      · intro g hg
        obtain rfl | hg := List.mem_cons.mp hg
        · rw [avFifoWrite_fits_nbElems hf hfits, hnb]
        · exact hcaps g hg

theorem peekBuffers_fits (h : List.Forall₂ AVFifo.Holds fs chans) {size offset : Nat}
    (henough : ∀ c ∈ chans, offset + size ≤ c.length) :
    peekBuffers size offset fs = (0, chans.map fun c => ((c.drop offset).take size).map some) := by
  induction h with
  | nil => rfl
  | @cons f c fs chans hf _ ih =>
      have hsize := henough c List.mem_cons_self
      have hpeek : fifoPeekCommon f size offset = (0, ((c.drop offset).take size).map some) := by
        rw [hf.peekAt, if_neg (by omega)]
      simp only [peekBuffers, hpeek, Int.lt_irrefl, if_false,
        ih fun d hd => henough d (List.mem_cons_of_mem c hd), List.map_cons]

theorem readBuffers_fits (h : List.Forall₂ AVFifo.Holds fs chans) {size : Nat}
    (henough : ∀ c ∈ chans, size ≤ c.length) : readBuffers size fs =
      (0, chans.map fun c => (c.take size).map some, fs.map fun f => avFifoDrain2 f size) := by
  induction h with
  | nil => rfl
  | @cons f c fs chans hf _ ih =>
      have hsize := henough c List.mem_cons_self
      have hread : avFifoRead f size = (0, (c.take size).map some, avFifoDrain2 f size) := by
        obtain ⟨hfew, _⟩ | ⟨_, hread, _⟩ := hf.read size
        · omega
        · exact hread
      simp only [readBuffers, hread, Int.lt_irrefl, if_false,
        ih fun d hd => henough d (List.mem_cons_of_mem c hd), List.map_cons]

theorem canRead_fits (h : List.Forall₂ AVFifo.Holds fs chans) {size : Nat}
    (henough : ∀ c ∈ chans, size ≤ c.length) : (fs.all fun f => size ≤ avFifoCanRead f) = true := by
  induction h with
  | nil => rfl
  | @cons f c fs chans hf _ ih =>
      rw [List.all_cons, Bool.and_eq_true, decide_eq_true_eq, hf.canRead]
      exact ⟨henough c List.mem_cons_self, ih fun d hd => henough d (List.mem_cons_of_mem c hd)⟩

theorem drained_holds (h : List.Forall₂ AVFifo.Holds fs chans) {size : Nat}
    (henough : ∀ c ∈ chans, size ≤ c.length) : List.Forall₂ AVFifo.Holds (fs.map fun f => avFifoDrain2 f size)
      (chans.map fun c => c.drop size) := by
  induction h with
  | nil => exact .nil
  | @cons f c fs chans hf _ ih =>
      exact .cons (hf.drain (henough c List.mem_cons_self))
        (ih fun d hd => henough d (List.mem_cons_of_mem c hd))

theorem reset_holds (h : List.Forall₂ AVFifo.Holds fs chans) :
    List.Forall₂ AVFifo.Holds (fs.map avFifoReset2) (chans.map fun _ => []) := by
  induction h with
  | nil => exact .nil
  | @cons f c fs chans hf _ ih =>
      exact .cons ⟨Nat.zero_lt_of_lt hf.offsetR, Nat.zero_le _, (Nat.zero_mod _).symm, rfl, rfl⟩ ih

end Loops

section Calls

variable {af : AVAudioFifo} {q : SampleQueue}

theorem AVAudioFifo.curSize_eq {chans : List (List UInt8)} {cap : Nat}
    (hholds : List.Forall₂ AVFifo.Holds af.buf chans) (hsome : af.buf ≠ [])
    (heven : ∀ f ∈ af.buf, f.nbElems = cap) : af.curSize = cap := by
  unfold AVAudioFifo.curSize
  cases hbuf : af.buf with
  | nil => exact absurd hbuf hsome
  | cons f fs =>
      rw [hbuf] at hholds heven
      cases hholds with
      | cons hf _ => exact hf.size.trans (heven f List.mem_cons_self)

theorem AVAudioFifo.Refines.update (h : af.Refines q) {q' : SampleQueue} {buf : List (AVFifo UInt8)}
    {nbSamples allocated cap : Nat} (hholds : List.Forall₂ AVFifo.Holds buf q'.chans)
    (hnb : nbSamples = q'.nbSamples) (hsize : q.sampleSize = q'.sampleSize)
    (hchans : q'.chans.length = q.chans.length) (heven : ∀ f ∈ buf, f.nbElems = cap)
    (hallocated : allocated * af.sampleSize ≤ cap) :
    AVAudioFifo.Refines { af with
      buf := buf
      nbSamples := nbSamples
      allocatedSamples := allocated } q' := by
  have hsome : buf ≠ [] := by
    intro hnil
    have hlen := h.buffers.length_eq
    have hpos := List.length_pos_iff.mpr h.nonempty
    have hnew := hholds.length_eq
    rw [hnil, List.length_nil] at hnew
    omega
  have hcap := @AVAudioFifo.curSize_eq
    { af with buf := buf, nbSamples := nbSamples, allocatedSamples := allocated } _ cap hholds hsome heven
  refine ⟨hholds, hnb, h.sampleSize.trans hsize, h.positive, hsome, ?_, ?_, h.plane⟩
  · rw [hcap]
    exact heven
  · rw [hcap]
    exact hallocated

theorem AVAudioFifo.Refines.room (h : af.Refines q) {n : Nat} (hn : q.nbSamples + n ≤ af.allocatedSamples) :
    ∀ c ∈ q.chans, c.length + n * af.sampleSize ≤ af.curSize := by
  intro c hc
  have hlen := q.inStep c hc
  have hle := Nat.mul_le_mul_right af.sampleSize hn
  have hallocated := h.allocated
  rw [Nat.add_mul] at hle
  rw [hlen, ← h.sampleSize]
  omega

theorem AVAudioFifo.Refines.writeSamples (h : af.Refines q) (data : Nat → Nat → UInt8) {n : Nat}
    (hn : q.nbSamples + n ≤ af.allocatedSamples) :
    (Util.writeSamples af data n).1 = n ∧ (Util.writeSamples af data n).2.Refines (q.append data n) := by
  obtain ⟨hret, hholds, heven⟩ := writeBuffers_fits h.buffers h.even data (h.room hn) 0
  simp only [Nat.zero_add] at hholds
  have hstay : ¬ (writeBuffers data (n * af.sampleSize) 0 af.buf).1 < 0 := by omega
  simp only [Util.writeSamples, if_neg hstay, true_and]
  refine h.update ?_ ?_ rfl ?_ heven h.allocated
  · have hchans : (q.append data n).chans =
        q.chans.mapIdx fun j c => c ++ bytesAt (data j) (n * af.sampleSize) := by
      rw [h.sampleSize]
      rfl
    rw [hchans]
    exact hholds
  · rw [h.nbSamples]
    rfl
  · exact List.length_mapIdx

theorem AVAudioFifo.Refines.realloc (h : af.Refines q) {n : Nat} {memory : Nat → Bool}
    (hwhole : af.GrowsWhole n memory) :
    ((avAudioFifoRealloc af n memory).1 < 0 ∧ (avAudioFifoRealloc af n memory).2 = af) ∨
      ((avAudioFifoRealloc af n memory).1 = 0 ∧
        (avAudioFifoRealloc af n memory).2.Refines q ∧
        (avAudioFifoRealloc af n memory).2.allocatedSamples = n) := by
  unfold avAudioFifoRealloc
  cases hsize : avSamplesGetBufferSize af.channels n af.sampleFmt with
  | none => exact .inl ⟨(by decide : (-22 : Int) < 0), rfl⟩
  | some bufSize =>
      have hbytes := h.plane n bufSize hsize
      dsimp only
      by_cases hgrows : bufSize > af.curSize
      · rw [if_pos hgrows]
        by_cases hfails : memory 0 = false ∨ sizeMax - af.curSize < bufSize - af.curSize
        · obtain ⟨f, fs, hbuf⟩ := List.exists_cons_of_ne_nil h.nonempty
          rw [← h.even f (by rw [hbuf]; exact List.mem_cons_self)] at hfails ⊢
          obtain ⟨hneg, hsame⟩ := @growBuffers_fails fs f _ memory hfails
          rw [hbuf, if_pos hneg, hsame]
          refine .inl ⟨hneg, ?_⟩
          rw [← hbuf]
        · obtain ⟨hfirst, hfits⟩ := not_or.mp hfails
          have hmemory := (hwhole bufSize hsize hgrows).resolve_left hfirst
          obtain ⟨hret, hholds, heven⟩ := growBuffers_whole h.buffers h.even (Nat.not_lt.mp hfits)
            0 (by simpa only [Nat.zero_add] using hmemory)
          rw [if_neg (by omega)]
          refine .inr ⟨rfl, h.update hholds h.nbSamples rfl rfl heven ?_, rfl⟩
          omega
      · rw [if_neg hgrows]
        refine .inr ⟨rfl, h.update h.buffers h.nbSamples rfl rfl h.even ?_, rfl⟩
        omega

theorem AVAudioFifo.Refines.write (h : af.Refines q) (data : Nat → Nat → UInt8) {n : Nat}
    {memory : Nat → Bool} (hwhole : ∀ wanted, af.wanted n = .ok (some wanted) → af.GrowsWhole wanted memory) :
    ∃ ret af' q', avAudioFifoWrite af data n memory = (ret, af') ∧
      q.Step (.write data n memory) ⟨ret, []⟩ q' ∧ af'.Refines q' ∧ (ret < 0 → af' = af) := by
  have hnb := h.nbSamples
  unfold avAudioFifoWrite
  cases hwanted : af.wanted n with
  | error err =>
      have herr : err = -22 := by
        unfold AVAudioFifo.wanted at hwanted
        split at hwanted
        · split at hwanted
          · exact (Except.error.inj hwanted).symm
          · cases hwanted
        · cases hwanted
      subst herr
      exact ⟨_, _, q, rfl, .writeFails (by decide), h, fun _ => rfl⟩
  | ok wanted =>
      cases wanted with
      | none =>
          have hspace : q.nbSamples + n ≤ af.allocatedSamples := by
            unfold AVAudioFifo.wanted avAudioFifoSpace at hwanted
            split at hwanted
            · split at hwanted
              · cases hwanted
              · cases hwanted
            · omega
          obtain ⟨hret, hnext⟩ := h.writeSamples data hspace
          refine ⟨n, _, _, Prod.ext hret rfl, .write, hnext, fun hneg => ?_⟩
          exact absurd hneg (Int.not_lt.mpr (Int.natCast_nonneg n))
      | some wanted =>
          have hmore : wanted = 2 * (af.nbSamples + n) := by
            unfold AVAudioFifo.wanted at hwanted
            split at hwanted
            · split at hwanted
              · cases hwanted
              · exact (Option.some.inj (Except.ok.inj hwanted)).symm
            · cases hwanted
          dsimp only
          obtain ⟨hneg, hsame⟩ | ⟨hret, hnext, hallocated⟩ := h.realloc (hwhole wanted hwanted)
          · rw [if_pos hneg]
            exact ⟨_, _, q, rfl, .writeFails hneg, by rw [hsame]; exact h, fun _ => hsame⟩
          · rw [if_neg (by omega)]
            obtain ⟨hret', hnext'⟩ := hnext.writeSamples data (show q.nbSamples + n ≤ _ by omega)
            refine ⟨n, _, _, Prod.ext hret' rfl, .write, hnext', fun hneg => ?_⟩
            exact absurd hneg (Int.not_lt.mpr (Int.natCast_nonneg n))

theorem AVAudioFifo.Refines.enough (h : af.Refines q) {offset n : Nat} (hn : offset + n ≤ q.nbSamples) :
    ∀ c ∈ q.chans, offset * af.sampleSize + n * af.sampleSize ≤ c.length := by
  intro c hc
  rw [q.inStep c hc, ← h.sampleSize, ← Nat.add_mul]
  exact Nat.mul_le_mul_right af.sampleSize hn

theorem AVAudioFifo.Refines.enough_front (h : af.Refines q) {n : Nat} (hn : n ≤ q.nbSamples) :
    ∀ c ∈ q.chans, n * af.sampleSize ≤ c.length := by
  intro c hc
  have henough := @AVAudioFifo.Refines.enough af q h 0 n (by omega) c hc
  omega

theorem AVAudioFifo.Refines.drained (h : af.Refines q) {n : Nat} (hn : n ≤ q.nbSamples) :
    AVAudioFifo.Refines { af with
      buf := af.buf.map fun f => avFifoDrain2 f (n * af.sampleSize)
      nbSamples := af.nbSamples - n } (q.drop n) := by
  refine h.update ?_ ?_ rfl ?_ ?_ h.allocated
  · have hchans : (q.drop n).chans = q.chans.map fun c => c.drop (n * af.sampleSize) := by
      rw [h.sampleSize]
      rfl
    rw [hchans]
    exact drained_holds h.buffers (h.enough_front hn)
  · rw [h.nbSamples]
    rfl
  · exact List.length_map _
  · intro f hf
    obtain ⟨g, hg, rfl⟩ := List.mem_map.mp hf
    exact h.even g hg

theorem AVAudioFifo.Refines.read (h : af.Refines q) (n : Int) :
    ∃ ret data af' q', avAudioFifoRead af n = (ret, data, af') ∧ q.Step (.read n) ⟨ret, data⟩ q' ∧
      af'.Refines q' ∧ (ret < 0 → af' = af) := by
  unfold avAudioFifoRead
  by_cases hneg : n < 0
  · rw [if_pos hneg]
    exact ⟨_, _, _, q, rfl, .readFails hneg (by decide), h, fun _ => rfl⟩
  · rw [if_neg hneg]
    have hnonneg := Int.not_lt.mp hneg
    rw [h.nbSamples]
    by_cases hzero : min n.toNat q.nbSamples = 0
    · rw [if_pos hzero]
      exact ⟨_, _, _, q, rfl, .readNothing hnonneg hzero, h, fun _ => rfl⟩
    · have hle : min n.toNat q.nbSamples ≤ q.nbSamples := Nat.min_le_right _ _
      have hread := readBuffers_fits h.buffers (h.enough_front hle)
      have hdrained := h.drained hle
      rw [h.nbSamples] at hdrained
      simp only [if_neg hzero, hread, Int.lt_irrefl, if_false]
      refine ⟨_, _, _, _, rfl, ?_, hdrained, fun hneg => ?_⟩
      · have hrange : q.range 0 (min n.toNat q.nbSamples) =
            q.chans.map fun c => (c.take (min n.toNat q.nbSamples * af.sampleSize)).map some := by
          simp only [SampleQueue.range, h.sampleSize, Nat.zero_mul, List.drop_zero]
        rw [← hrange]
        exact .read hnonneg rfl (Nat.pos_of_ne_zero hzero)
      · exact absurd hneg (Int.not_lt.mpr (Int.natCast_nonneg _))

theorem AVAudioFifo.Refines.peekAt (h : af.Refines q) (n offset : Int) :
    q.Step (.peekAt n offset) ⟨(avAudioFifoPeekAt af n offset).1, (avAudioFifoPeekAt af n offset).2⟩ q := by
  unfold avAudioFifoPeekAt
  rw [h.nbSamples]
  by_cases hoffset : offset < 0 ∨ offset ≥ (q.nbSamples : Int)
  · rw [if_pos hoffset]
    refine .peekFails ?_ (by decide)
    obtain hneg | hfar := hoffset
    · exact .inr (.inl hneg)
    · exact .inr (.inr (.inl hfar))
  · rw [if_neg hoffset]
    obtain ⟨hstart, hwithin⟩ := not_or.mp hoffset
    by_cases hneg : n < 0
    · rw [if_pos hneg]
      exact .peekFails (.inl hneg) (by decide)
    · rw [if_neg hneg]
      have hnonneg := Int.not_lt.mp hneg
      by_cases hzero : min n.toNat q.nbSamples = 0
      · simp only [if_pos hzero]
        exact .peekNothing hnonneg (Int.not_lt.mp hstart) (Int.not_le.mp hwithin) hzero
      · simp only [if_neg hzero]
        by_cases hfar : offset > (q.nbSamples : Int) - (min n.toNat q.nbSamples : Nat)
        · rw [if_pos hfar]
          exact .peekFails (.inr (.inr (.inr (by omega)))) (by decide)
        · rw [if_neg hfar]
          obtain ⟨k, rfl⟩ := Int.eq_ofNat_of_zero_le (Int.not_lt.mp hstart)
          have hfits : k + min n.toNat q.nbSamples ≤ q.nbSamples := by omega
          have hpeek := peekBuffers_fits h.buffers (h.enough hfits)
          have hrange : q.range k (min n.toNat q.nbSamples) = q.chans.map fun c =>
              ((c.drop (k * af.sampleSize)).take (min n.toNat q.nbSamples * af.sampleSize)).map some := by
            rw [SampleQueue.range, h.sampleSize]
          simp only [Int.toNat_natCast, hpeek, Int.lt_irrefl, if_false]
          rw [← hrange]
          exact .peek hnonneg rfl (Nat.pos_of_ne_zero hzero) hfits

theorem SampleQueue.drop_zero (q : SampleQueue) : q.drop 0 = q := by
  obtain ⟨chans, nbSamples, sampleSize, inStep⟩ := q
  simp [SampleQueue.drop]

theorem AVAudioFifo.Refines.drain (h : af.Refines q) (n : Int) :
    ∃ ret af' q', avAudioFifoDrain af n = some (ret, af') ∧ q.Step (.drain n) ⟨ret, []⟩ q' ∧
      af'.Refines q' ∧ (ret < 0 → af' = af) := by
  unfold avAudioFifoDrain
  by_cases hneg : n < 0
  · rw [if_pos hneg]
    exact ⟨_, _, q, rfl, .drainFails hneg (by decide), h, fun _ => rfl⟩
  · rw [if_neg hneg]
    have hstep : q.Step (.drain n) ⟨0, []⟩ (q.drop (min n.toNat q.nbSamples)) :=
      .drain (Int.not_lt.mp hneg)
    have hle : min n.toNat q.nbSamples ≤ q.nbSamples := Nat.min_le_right _ _
    rw [h.nbSamples]
    by_cases hzero : min n.toNat q.nbSamples = 0
    · rw [hzero, SampleQueue.drop_zero] at hstep
      simp only [if_pos hzero]
      exact ⟨_, _, q, rfl, hstep, h, fun _ => rfl⟩
    · have hall := canRead_fits h.buffers (h.enough_front hle)
      have hdrained := h.drained hle
      rw [h.nbSamples] at hdrained
      simp only [if_neg hzero, hall, if_true]
      exact ⟨_, _, _, rfl, hstep, hdrained, fun hneg => absurd hneg (by decide)⟩

theorem AVAudioFifo.Refines.reset (h : af.Refines q) : (avAudioFifoReset af).Refines q.clear := by
  refine h.update (reset_holds h.buffers) rfl rfl (List.length_map _) ?_ h.allocated
  intro f hf
  obtain ⟨g, hg, rfl⟩ := List.mem_map.mp hf
  exact h.even g hg

theorem AVAudioFifo.Refines.step (h : af.Refines q) {op : AudioOp} (hwhole : WholeGrowth af op) :
    ∃ answer af' q', audioStep af op = some (answer, af') ∧ q.Step op answer q' ∧ af'.Refines q' ∧
      (answer.ret < 0 → af' = af) := by
  cases op with
  | write data n memory =>
      obtain ⟨ret, af', q', hwrite, hstep, hnext, hfails⟩ := h.write data hwhole
      exact ⟨_, _, q', by rw [audioStep, hwrite], hstep, hnext, hfails⟩
  | read n =>
      obtain ⟨ret, data, af', q', hread, hstep, hnext, hfails⟩ := h.read n
      exact ⟨_, _, q', by rw [audioStep, hread], hstep, hnext, hfails⟩
  | peekAt n offset => exact ⟨_, _, q, rfl, h.peekAt n offset, h, fun _ => rfl⟩
  | drain n =>
      obtain ⟨ret, af', q', hdrain, hstep, hnext, hfails⟩ := h.drain n
      exact ⟨_, _, q', by rw [audioStep, hdrain, Option.map_some], hstep, hnext, hfails⟩
  | realloc n memory =>
      obtain ⟨hneg, hsame⟩ | ⟨hret, hnext, _⟩ := h.realloc hwhole
      · exact ⟨_, _, q, rfl, .realloc, by rw [hsame]; exact h, fun _ => hsame⟩
      · exact ⟨_, _, q, rfl, .realloc, hnext, fun hneg => absurd hneg (by simp only [hret]; decide)⟩
  | reset => exact ⟨_, _, q.clear, rfl, .reset, h.reset, fun hneg => absurd hneg (by decide)⟩

end Calls

/-- Nothing has been written yet. -/
def SampleQueue.empty (nbBuffers sampleSize : Nat) : SampleQueue where
  chans := List.replicate nbBuffers []
  nbSamples := 0
  sampleSize := sampleSize
  inStep := by
    intro c hc
    rw [List.eq_of_mem_replicate hc, Nat.zero_mul, List.length_nil]

def planeSampleSize (sampleFmt : AVSampleFormat) (channels : Nat) : Nat :=
  if avSampleFmtIsPlanar sampleFmt then avGetBytesPerSample sampleFmt
  else avGetBytesPerSample sampleFmt * channels

theorem avSamplesGetBufferSize_eq {channels n bufSize : Nat} {sampleFmt : AVSampleFormat}
    (h : avSamplesGetBufferSize channels n sampleFmt = some bufSize) :
    0 < n ∧ 0 < channels ∧ bufSize = n * planeSampleSize sampleFmt channels := by
  unfold avSamplesGetBufferSize at h
  dsimp only at h
  split at h
  · cases h
  · rename_i hzero
    obtain ⟨hn, hchannels⟩ := not_or.mp hzero
    refine ⟨Nat.pos_of_ne_zero hn, Nat.pos_of_ne_zero hchannels, ?_⟩
    unfold planeSampleSize
    split at h
    · cases h
    · split at h
      · rename_i hplanar
        rw [if_pos hplanar]
        exact (Option.some.inj h).symm
      · rename_i hpacked
        rw [if_neg hpacked, ← Nat.mul_assoc]
        exact (Option.some.inj h).symm

theorem planeSampleSize_pos (sampleFmt : AVSampleFormat) {channels : Nat} (h : 0 < channels) :
    0 < planeSampleSize sampleFmt channels := by
  have hbytes : 0 < avGetBytesPerSample sampleFmt := by
    cases sampleFmt <;> decide
  unfold planeSampleSize
  split
  · exact hbytes
  · exact Nat.mul_pos hbytes h

theorem replicate_holds {f : AVFifo UInt8} (h : f.Holds []) (n : Nat) :
    List.Forall₂ AVFifo.Holds (List.replicate n f) (List.replicate n []) := by
  induction n with
  | zero => exact .nil
  | succ n ih => exact .cons h ih

theorem avAudioFifoAlloc_refines {sampleFmt : AVSampleFormat} {channels n : Nat} {af : AVAudioFifo}
    (h : avAudioFifoAlloc sampleFmt channels n = some af) :
    af.Refines (.empty (nbBuffers sampleFmt channels) (planeSampleSize sampleFmt channels)) := by
  obtain ⟨bufSize, hsize, rfl⟩ := Option.map_eq_some_iff.mp h
  obtain ⟨hn, hchannels, hbytes⟩ := avSamplesGetBufferSize_eq hsize
  have hplane : bufSize / n = planeSampleSize sampleFmt channels := by
    rw [hbytes, Nat.mul_div_cancel_left _ hn]
  have hpos := planeSampleSize_pos sampleFmt hchannels
  have hbuffers : 0 < nbBuffers sampleFmt channels := by
    unfold nbBuffers
    split
    · exact hchannels
    · exact Nat.zero_lt_one
  have hholds : (avFifoAlloc2 bufSize 1 false : AVFifo UInt8).Holds [] :=
    avFifoAlloc2_holds (by rw [hbytes]; exact Nat.mul_pos hn hpos) 1 false
  have hall := replicate_holds hholds (nbBuffers sampleFmt channels)
  have heven : ∀ f ∈ List.replicate (nbBuffers sampleFmt channels)
      (avFifoAlloc2 bufSize 1 false : AVFifo UInt8), f.nbElems = bufSize := by
    intro f hf
    rw [List.eq_of_mem_replicate hf]
    rfl
  have hnonempty : List.replicate (nbBuffers sampleFmt channels)
      (avFifoAlloc2 bufSize 1 false : AVFifo UInt8) ≠ [] := by
    rw [Ne, List.replicate_eq_nil_iff]
    exact Nat.ne_of_gt hbuffers
  have hcap := @AVAudioFifo.curSize_eq ⟨_, 0, n, channels, sampleFmt, bufSize / n⟩ _ bufSize hall
    hnonempty heven
  refine ⟨hall, rfl, hplane, ?_, hnonempty, ?_, ?_, ?_⟩
  · rw [hplane]
    exact hpos
  · rw [hcap]
    exact heven
  · rw [hcap, hplane]
    exact Nat.le_of_eq hbytes.symm
  · intro m size hm
    rw [hplane]
    exact (avSamplesGetBufferSize_eq hm).2.2

def audioObserve (af : AVAudioFifo) (op : AudioOp) : List (AudioOp × AudioAnswer) :=
  ((audioStep af op).map fun answered => (op, answered.1)).toList

inductive SampleQueue.Run (q₀ : SampleQueue) : List (AudioOp × AudioAnswer) → SampleQueue → Prop
  | nil : Run q₀ [] q₀
  | snoc {calls op answer q q'} : Run q₀ calls q → q.Step op answer q' →
      Run q₀ (calls ++ [(op, answer)]) q'

def Answered (sampleFmt : AVSampleFormat) (channels : Nat)
    (s : AVAudioFifo × List (AudioOp × AudioAnswer)) : Prop :=
  ∃ q, (SampleQueue.empty (nbBuffers sampleFmt channels) (planeSampleSize sampleFmt channels)).Run s.2 q ∧
    s.1.Refines q

theorem Answered.step {sampleFmt : AVSampleFormat} {channels n : Nat}
    {s t : AVAudioFifo × List (AudioOp × AudioAnswer)} (h : Answered sampleFmt channels s)
    {op : AudioOp} (hwhole : WholeGrowth s.1 op)
    (hnext : ((audioFifo sampleFmt channels n).observed audioObserve).next s op = some t) :
    Answered sampleFmt channels t := by
  obtain ⟨q, hrun, hq⟩ := h
  obtain ⟨answer, next, q', hstep, hspec, hrefines, _⟩ := hq.step hwhole
  obtain ⟨hnext, hhistory⟩ := System.observed_next.mp hnext
  obtain ⟨answered, hanswered, heq⟩ := Option.map_eq_some_iff.mp hnext
  obtain rfl := Option.some.inj (hstep.symm.trans hanswered)
  refine ⟨q', ?_, by rw [← heq]; exact hrefines⟩
  rw [hhistory, audioObserve, hstep]
  exact hrun.snoc hspec

theorem AVAudioFifo.Refines.canRead {af : AVAudioFifo} {q : SampleQueue} (h : af.Refines q) :
    ∀ f ∈ af.buf, avFifoCanRead f = af.nbSamples * af.sampleSize := by
  have hlen := q.inStep
  rw [h.nbSamples, h.sampleSize]
  have hbuffers := h.buffers
  generalize q.chans = chans at hlen hbuffers
  generalize af.buf = fs at hbuffers
  induction hbuffers with
  | nil => simp
  | @cons f c fs chans hf _ ih =>
      intro g hg
      obtain rfl | hg := List.mem_cons.mp hg
      · rw [hf.canRead]
        exact hlen c List.mem_cons_self
      · exact ih (fun d hd => hlen d (List.mem_cons_of_mem c hd)) g hg

theorem AVAudioFifo.Refines.elems {af : AVAudioFifo} {q : SampleQueue} (h : af.Refines q) :
    af.buf.map AVFifo.elems = q.chans := by
  have hbuffers := h.buffers
  generalize q.chans = chans at hbuffers ⊢
  generalize af.buf = fs at hbuffers
  induction hbuffers with
  | nil => rfl
  | @cons f c fs chans hf _ ih => rw [List.map_cons, hf.elems, ih]

/-- While the buffers grow all together, every buffer holds as many samples, the
calls answer as a queue of samples does, and a call that fails changes nothing. -/
theorem audio_channels_in_step {sampleFmt : AVSampleFormat} {channels n : Nat} {af : AVAudioFifo}
    {calls : List (AudioOp × AudioAnswer)}
    (h : (((audioFifo sampleFmt channels n).observed audioObserve).restrict
      fun s op => WholeGrowth s.1 op).Reachable (af, calls)) :
    (∀ f ∈ af.buf, avFifoCanRead f = af.nbSamples * af.sampleSize) ∧
    (∃ q, (SampleQueue.empty (nbBuffers sampleFmt channels)
        (planeSampleSize sampleFmt channels)).Run calls q ∧
      af.buf.map AVFifo.elems = q.chans ∧ af.nbSamples = q.nbSamples) ∧
    ∀ op, WholeGrowth af op →
      ∃ answer af', audioStep af op = some (answer, af') ∧ (answer.ret < 0 → af' = af) := by
  have hanswered : Answered sampleFmt channels (af, calls) := by
    refine System.Reachable.invariant (Answered sampleFmt channels) ?_ ?_ h
    · rintro ⟨af, calls⟩ ⟨halloc, hnone⟩
      obtain rfl : calls = [] := hnone
      exact ⟨_, .nil, avAudioFifoAlloc_refines halloc⟩
    · intro s op t _ ih hn
      obtain ⟨hwhole, hnext⟩ := System.restrict_next.mp hn
      exact ih.step hwhole hnext
  obtain ⟨q, hrun, hq⟩ := hanswered
  refine ⟨hq.canRead, ⟨q, hrun, hq.elems, hq.nbSamples⟩, fun op hwhole => ?_⟩
  obtain ⟨answer, af', _, hstep, _, _, hfails⟩ := hq.step hwhole
  exact ⟨answer, af', hstep, hfails⟩

def sevens (_ _ : Nat) : UInt8 := 7

/-- Two channels: a write that fails, one that grows the buffers, and a read. -/
theorem audio_channels_in_step_planar :
    ∃ af calls, (((audioFifo .u8p 2 1).observed audioObserve).restrict
        fun s op => WholeGrowth s.1 op).Reachable (af, calls) ∧
      calls.map (fun c => c.2.ret) = [1, -12, 2, 2] ∧
      ∀ f ∈ af.buf, avFifoCanRead f = af.nbSamples * af.sampleSize := by
  have hview : ((avAudioFifoAlloc .u8p 2 1).bind fun af₀ =>
      (((audioFifo .u8p 2 1).observed audioObserve).run
        [.write sevens 1 fun _ => true, .write sevens 2 fun _ => false,
          .write sevens 2 fun _ => true, .read 2] (af₀, [])).map
      fun s => s.2.map fun c => c.2.ret) = some [1, -12, 2, 2] := by
    decide +kernel
  obtain ⟨af₀, halloc, hview⟩ := Option.bind_eq_some_iff.mp hview
  obtain ⟨⟨af, calls⟩, hrun, hview⟩ := Option.map_eq_some_iff.mp hview
  have hreach : (((audioFifo .u8p 2 1).observed audioObserve).restrict
      fun s op => WholeGrowth s.1 op).Reachable (af, calls) := by
    refine ⟨(af₀, []), _, ⟨halloc, rfl⟩, (System.Run.of_run hrun).restrict_labels ?_⟩
    intro op hop s
    simp only [List.mem_cons, List.not_mem_nil, or_false] at hop
    obtain rfl | rfl | rfl | rfl := hop
    · exact fun _ _ _ _ _ => .inr fun _ _ => rfl
    · exact fun _ _ _ _ _ => .inl rfl
    · exact fun _ _ _ _ _ => .inr fun _ _ => rfl
    · exact trivial
  exact ⟨af, calls, hreach, hview, (audio_channels_in_step hreach).1⟩

/-- Two channels, of which the second one does not grow at first: the third write
goes to the first channel only, and fails although memory can be had. -/
theorem failed_growth_breaks_step :
    ∃ af af', (audioFifo .u8p 2 1).Reachable af ∧
      (audioFifo .u8p 2 1).next af (.write sevens 1 fun _ => true) = some af' ∧
      (avAudioFifoWrite af sevens 1 fun _ => true).1 = averrorBug ∧
      af.buf.map avFifoCanRead = [1, 1] ∧ af'.buf.map avFifoCanRead = [2, 1] ∧ af'.nbSamples = 1 := by
  have hview : ((avAudioFifoAlloc .u8p 2 1).bind fun af₀ =>
      ((audioFifo .u8p 2 1).run
        [.write sevens 1 fun _ => true, .write sevens 1 fun i => i = 0] af₀).bind fun af =>
      ((audioFifo .u8p 2 1).next af (.write sevens 1 fun _ => true)).map fun af' =>
        ((avAudioFifoWrite af sevens 1 fun _ => true).1, af.buf.map avFifoCanRead,
          af'.buf.map avFifoCanRead, af'.nbSamples)) =
      some (averrorBug, [1, 1], [2, 1], 1) := by
    decide +kernel
  obtain ⟨af₀, halloc, hview⟩ := Option.bind_eq_some_iff.mp hview
  obtain ⟨af, hrun, hview⟩ := Option.bind_eq_some_iff.mp hview
  obtain ⟨af', hnext, hview⟩ := Option.map_eq_some_iff.mp hview
  simp only [Prod.mk.injEq] at hview
  exact ⟨af, af', .of_run halloc hrun, hnext, hview⟩

end P2PFFmpeg.Util
