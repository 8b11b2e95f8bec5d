import P2PFFmpeg.Library.Transition
import P2PFFmpeg.Util.Fifo
import P2PFFmpeg.Util.Packet

namespace P2PFFmpeg.Player

open Util Library Library.Transition

structure MyAVPacketList where
  pkt : AVPacket
  serial : Int
deriving DecidableEq, Repr

def MyAVPacketList.bytes (e : MyAVPacketList) : Int := e.pkt.data.length + 16

/-- The byte counter is an int that a size_t is added to, and the other counters
are as wide as in the source. -/
structure PacketQueue where
  pktList : AVFifo MyAVPacketList
  nbPackets : Int32
  size : Int32
  duration : Int64
  abortRequest : Bool
  serial : Int

def packetQueueInit : PacketQueue where
  pktList := avFifoAlloc2 1 16 true
  nbPackets := 0
  size := 0
  duration := 0
  abortRequest := true
  serial := 0

def packetQueuePutPrivate (q : PacketQueue) (pkt : AVPacket) (fifoAllocated : Bool) :
    Int × PacketQueue :=
  if q.abortRequest then (-1, q)
  else
    let pkt1 : MyAVPacketList := ⟨pkt, q.serial⟩
    let written := avFifoWrite q.pktList [pkt1] fifoAllocated
    if written.1 < 0 then (written.1, { q with pktList := written.2 })
    else
      (0, { q with
        pktList := written.2
        nbPackets := q.nbPackets + 1
        size := q.size + Int32.ofInt pkt1.bytes
        duration := q.duration + Int64.ofInt pkt.duration })

def packetQueuePut (q : PacketQueue) (pkt : AVPacket) (packetAllocated fifoAllocated : Bool) :
    Int × PacketQueue :=
  if packetAllocated = false then (-1, q) else packetQueuePutPrivate q pkt fifoAllocated

def packetQueuePutNullpacket (q : PacketQueue) (pkt : AVPacket) (streamIndex : Int)
    (packetAllocated fifoAllocated : Bool) : Int × PacketQueue :=
  packetQueuePut q { pkt with streamIndex := streamIndex } packetAllocated fifoAllocated

/-- The loop of packet_queue_flush; one turn more than there are elements. -/
def freeAll : Nat → AVFifo MyAVPacketList → AVFifo MyAVPacketList
  | 0, f => f
  | n + 1, f =>
      let read := avFifoRead f 1
      if read.1 ≥ 0 then freeAll n read.2.2 else read.2.2

def freed : Nat → AVFifo MyAVPacketList → List MyAVPacketList
  | 0, _ => []
  | n + 1, f =>
      let read := avFifoRead f 1
      if read.1 ≥ 0 then read.2.1.filterMap id ++ freed n read.2.2 else []

def packetQueueFlush (q : PacketQueue) : PacketQueue :=
  { q with
    pktList := freeAll (avFifoCanRead q.pktList + 1) q.pktList
    nbPackets := 0
    size := 0
    duration := 0
    serial := q.serial + 1 }

def packetQueueAbort (q : PacketQueue) : PacketQueue := { q with abortRequest := true }

def packetQueueStart (q : PacketQueue) : PacketQueue :=
  { q with abortRequest := false, serial := q.serial + 1 }

/-- What a lock section of packet_queue_get ends with: a result, or nothing when
it waits for the condition; and the packet with its serial. -/
structure GetOutcome where
  ret : Option Int
  out : Option MyAVPacketList
  state : PacketQueue

def packetQueueGet (q : PacketQueue) (block : Bool) : GetOutcome :=
  if q.abortRequest then ⟨some (-1), none, q⟩
  else
    let read := avFifoRead q.pktList 1
    if read.1 ≥ 0 then
      match read.2.1 with
      | [some pkt1] =>
          ⟨some 1, some pkt1, { q with
            pktList := read.2.2
            nbPackets := q.nbPackets - 1
            size := q.size - Int32.ofInt pkt1.bytes
            duration := q.duration - Int64.ofInt pkt1.pkt.duration }⟩
      | _ => ⟨some 1, none, { q with pktList := read.2.2 }⟩
    else if block = false then ⟨some 0, none, { q with pktList := read.2.2 }⟩
    else ⟨none, none, { q with pktList := read.2.2 }⟩

inductive QueueOp
  | put (pkt : AVPacket) (packetAllocated fifoAllocated : Bool)
  | putNullpacket (pkt : AVPacket) (streamIndex : Int) (packetAllocated fifoAllocated : Bool)
  | get (block : Bool)
  | flush
  | start
  | abort
deriving DecidableEq, Repr

inductive QueueEvent
  | put (e : MyAVPacketList)
  | returned (e : MyAVPacketList)
  | flushed (e : MyAVPacketList)
deriving DecidableEq, Repr

def QueueOp.state (q : PacketQueue) : QueueOp → PacketQueue
  | .put pkt p f => (packetQueuePut q pkt p f).2
  | .putNullpacket pkt i p f => (packetQueuePutNullpacket q pkt i p f).2
  | .get block => (packetQueueGet q block).state
  | .flush => packetQueueFlush q
  | .start => packetQueueStart q
  | .abort => packetQueueAbort q

def QueueOp.putRet (q : PacketQueue) : QueueOp → Option Int
  | .put pkt p f => some (packetQueuePut q pkt p f).1
  | .putNullpacket pkt i p f => some (packetQueuePutNullpacket q pkt i p f).1
  | _ => none

/-- A put that succeeds is seen with the serial of now, a packet that goes with
the serial that it has in the queue. -/
def queueEvents (q : PacketQueue) : QueueOp → List QueueEvent
  | .put pkt p f => if (packetQueuePut q pkt p f).1 < 0 then [] else [.put ⟨pkt, q.serial⟩]
  | .putNullpacket pkt i p f =>
      if (packetQueuePutNullpacket q pkt i p f).1 < 0 then []
      else [.put ⟨{ pkt with streamIndex := i }, q.serial⟩]
  | .get block => ((packetQueueGet q block).out.map QueueEvent.returned).toList
  | .flush => (freed (avFifoCanRead q.pktList + 1) q.pktList).map QueueEvent.flushed
  | _ => []

def queueing : System PacketQueue QueueOp where
  init q := q = packetQueueInit
  next q op := some (op.state q)

def puts (es : List QueueEvent) : List MyAVPacketList :=
  es.filterMap fun
    | .put e => some e
    | _ => none

def returned (es : List QueueEvent) : List MyAVPacketList :=
  es.filterMap fun
    | .returned e => some e
    | _ => none

def gone (es : List QueueEvent) : List MyAVPacketList :=
  es.filterMap fun
    | .put _ => none
    | .returned e | .flushed e => some e

def queued (q : PacketQueue) : List MyAVPacketList :=
  (Ring.window q.pktList.buffer q.pktList.nbElems q.pktList.offsetR
    (avFifoCanRead q.pktList)).filterMap id

/-- The counters say what is in the queue: how many entries, and the sums of
their bytes and durations as numbers of the counters' types. -/
structure Accounted (q : PacketQueue) (es : List MyAVPacketList) : Prop where
  nbPackets : q.nbPackets.toInt = es.length
  size : q.size = Int32.ofInt (es.map MyAVPacketList.bytes).sum
  duration : q.duration = Int64.ofInt (es.map fun e => e.pkt.duration).sum

structure Queued (q : PacketQueue) (es : List MyAVPacketList) : Prop where
  holds : q.pktList.Holds es
  room : q.pktList.nbElems ≤ q.pktList.autoGrowLimit
  limit : q.pktList.autoGrowLimit = 65536
  nbPackets : q.nbPackets = Int32.ofInt es.length
  size : q.size = Int32.ofInt (es.map MyAVPacketList.bytes).sum
  duration : q.duration = Int64.ofInt (es.map fun e => e.pkt.duration).sum
  serial : ∀ e ∈ es, e.serial ≤ q.serial

section Steps

variable {q : PacketQueue} {es : List MyAVPacketList}

theorem Queued.queued_eq (h : Queued q es) : queued q = es := h.holds.elems

theorem Queued.accounted (h : Queued q es) : Accounted q es where
  nbPackets := by
    have hlen := h.holds.length
    have hroom := h.room
    have hlimit := h.limit
    rw [h.nbPackets]
    apply Int32.toInt_ofInt_of_le <;> omega
  size := h.size
  duration := h.duration

theorem queued_init : Queued packetQueueInit [] where
  holds := avFifoAlloc2_holds (by decide) 16 true
  room := by decide
  limit := by decide
  nbPackets := rfl
  size := rfl
  duration := rfl
  serial := by simp

structure Moves (q' : PacketQueue) (es es' put gone : List MyAVPacketList) : Prop where
  queued : Queued q' es'
  moved : es ++ put = gone ++ es'

theorem Queued.stays (h : Queued q es) : Moves q es es [] [] := ⟨h, List.append_nil es⟩

theorem Queued.putPrivate (h : Queued q es) (pkt : AVPacket) (fifoAllocated : Bool) :
    ((packetQueuePutPrivate q pkt fifoAllocated).1 < 0 ∧
        (packetQueuePutPrivate q pkt fifoAllocated).2 = q) ∨
      (0 ≤ (packetQueuePutPrivate q pkt fifoAllocated).1 ∧
        Moves (packetQueuePutPrivate q pkt fifoAllocated).2 es (es ++ [⟨pkt, q.serial⟩])
          [⟨pkt, q.serial⟩] []) := by
  simp only [packetQueuePutPrivate]
  by_cases habort : q.abortRequest = true
  · rw [if_pos habort]
    exact .inl ⟨by simp, rfl⟩
  · rw [if_neg habort]
    obtain ⟨hneg, hsame⟩ | ⟨hpos, hholds, hroom, hlimit⟩ :=
      h.holds.write h.room [⟨pkt, q.serial⟩] fifoAllocated
    · rw [if_pos hneg, hsame]
      exact .inl ⟨hneg, rfl⟩
    · rw [if_neg (Int.not_lt.mpr hpos)]
      refine .inr ⟨Int.le_refl 0, ?_, rfl⟩
      exact
        { holds := hholds
          room := by
            simp only [hlimit]
            exact hroom
          limit := hlimit.trans h.limit
          nbPackets := by simp [h.nbPackets]
          size := by simp [h.size, List.sum_append]
          duration := by simp [h.duration, List.sum_append]
          serial := by
            intro e he
            cases List.mem_append.mp he with
            | inl hold => exact h.serial e hold
            | inr hnew =>
                obtain rfl := List.mem_singleton.mp hnew
                exact Int.le_refl _ }

theorem Queued.put (h : Queued q es) (pkt : AVPacket) (packetAllocated fifoAllocated : Bool) :
    ((packetQueuePut q pkt packetAllocated fifoAllocated).1 < 0 ∧
        (packetQueuePut q pkt packetAllocated fifoAllocated).2 = q) ∨
      (0 ≤ (packetQueuePut q pkt packetAllocated fifoAllocated).1 ∧
        Moves (packetQueuePut q pkt packetAllocated fifoAllocated).2 es
          (es ++ [⟨pkt, q.serial⟩]) [⟨pkt, q.serial⟩] []) := by
  simp only [packetQueuePut]
  by_cases hmem : packetAllocated = false
  · rw [if_pos hmem]
    exact .inl ⟨by simp, rfl⟩
  · rw [if_neg hmem]
    exact h.putPrivate pkt fifoAllocated

theorem freeAll_spec {f : AVFifo MyAVPacketList} (h : f.Holds es) {n : Nat} (hn : es.length ≤ n) :
    (freeAll n f).Holds [] ∧ (freeAll n f).nbElems = f.nbElems ∧
      (freeAll n f).autoGrowLimit = f.autoGrowLimit ∧ freed n f = es := by
  induction n generalizing f es with
  | zero =>
      obtain rfl := List.length_eq_zero_iff.mp (Nat.le_zero.mp hn)
      exact ⟨h, rfl, rfl, rfl⟩
  | succ n ih =>
      obtain ⟨hfew, hread⟩ | ⟨hsome, hread, hholds⟩ := h.read 1
      · obtain rfl := List.length_eq_zero_iff.mp (Nat.lt_one_iff.mp hfew)
        simp only [freeAll, freed, hread]
        exact ⟨h, rfl, rfl, rfl⟩
      · simp only [freeAll, freed, hread, ge_iff_le, Int.le_refl, if_true]
        obtain ⟨hempty, hnb, hlimit, hrest⟩ := ih hholds (by rw [List.length_drop]; omega)
        refine ⟨hempty, hnb, hlimit, ?_⟩
        rw [hrest, List.filterMap_map]
        simp only [Function.id_comp, List.filterMap_some, List.take_append_drop]

theorem Queued.flush (h : Queued q es) :
    Moves (packetQueueFlush q) es [] [] (freed (avFifoCanRead q.pktList + 1) q.pktList) := by
  obtain ⟨hholds, hnb, hlimit, hfreed⟩ := freeAll_spec h.holds (n := avFifoCanRead q.pktList + 1)
    (by rw [h.holds.canRead]; omega)
  rw [hfreed]
  refine ⟨?_, rfl⟩
  exact
    { holds := hholds
      room := by
        simp only [packetQueueFlush, hnb, hlimit]
        exact h.room
      limit := hlimit.trans h.limit
      nbPackets := rfl
      size := rfl
      duration := rfl
      serial := by simp }

theorem Queued.start (h : Queued q es) : Moves (packetQueueStart q) es es [] [] := by
  refine ⟨?_, List.append_nil es⟩
  exact
    { holds := h.holds
      room := h.room
      limit := h.limit
      nbPackets := h.nbPackets
      size := h.size
      duration := h.duration
      serial := by
        intro e he
        have hold := h.serial e he
        simp only [packetQueueStart]
        omega }

theorem Queued.abort (h : Queued q es) : Moves (packetQueueAbort q) es es [] [] :=
  ⟨⟨h.holds, h.room, h.limit, h.nbPackets, h.size, h.duration, h.serial⟩, List.append_nil es⟩

theorem Queued.get (h : Queued q es) (block : Bool) : ∃ es', Moves (packetQueueGet q block).state es es' []
      (packetQueueGet q block).out.toList := by
  simp only [packetQueueGet]
  by_cases habort : q.abortRequest = true
  · rw [if_pos habort]
    exact ⟨es, h.stays⟩
  · rw [if_neg habort]
    obtain ⟨_, hread⟩ | ⟨hsome, hread, hholds⟩ := h.holds.read 1
    · have hnone : ¬ (-22 : Int) ≥ 0 := by decide
      simp only [hread]
      rw [if_neg hnone]
      split
      · exact ⟨es, h.stays⟩
      · exact ⟨es, h.stays⟩
    · cases es with
      | nil => simp at hsome
      | cons e rest =>
          simp only [hread, ge_iff_le, Int.le_refl, if_true, List.take_succ_cons, List.take_zero,
            List.map_cons, List.map_nil]
          refine ⟨rest, ?_, List.append_nil _⟩
          exact
            { holds := hholds
              room := h.room
              limit := h.limit
              nbPackets := by simp [h.nbPackets, Int32.add_sub_cancel]
              size := by
                simp only [h.size, List.map_cons, List.sum_cons, Int32.ofInt_add]
                rw [Int32.add_comm, Int32.add_sub_cancel]
              duration := by
                simp only [h.duration, List.map_cons, List.sum_cons, Int64.ofInt_add]
                rw [Int64.add_comm, Int64.add_sub_cancel]
              serial := by
                intro e' he'
                exact h.serial e' (List.mem_cons_of_mem e he') }

/-- A get of a queue that is neither aborted nor empty returns the packet at its front. -/
theorem Queued.served {e : MyAVPacketList} (h : Queued q (e :: es)) (hruns : q.abortRequest = false) (block : Bool) :
    (packetQueueGet q block).ret = some 1 ∧ (packetQueueGet q block).out = some e := by
  obtain ⟨hfew, _⟩ | ⟨_, hread, _⟩ := h.holds.read 1
  · simp at hfew
  · simp [packetQueueGet, hruns, hread]

theorem Queued.step (h : Queued q es) (op : QueueOp) :
    ∃ es', Moves (op.state q) es es' (puts (queueEvents q op)) (gone (queueEvents q op)) := by
  cases op with
  | put pkt p f =>
      obtain ⟨hneg, hsame⟩ | ⟨hpos, hmoves⟩ := h.put pkt p f
      · simp only [QueueOp.state, queueEvents, hneg, if_true, hsame]
        exact ⟨es, h.stays⟩
      · simp only [QueueOp.state, queueEvents, Int.not_lt.mpr hpos, if_false]
        exact ⟨_, hmoves⟩
  | putNullpacket pkt i p f =>
      obtain ⟨hneg, hsame⟩ | ⟨hpos, hmoves⟩ := h.put { pkt with streamIndex := i } p f
      · simp only [QueueOp.state, queueEvents, packetQueuePutNullpacket, hneg, if_true, hsame]
        exact ⟨es, h.stays⟩
      · simp only [QueueOp.state, queueEvents, packetQueuePutNullpacket, Int.not_lt.mpr hpos,
          if_false]
        exact ⟨_, hmoves⟩
  | get block =>
      obtain ⟨es', hmoves⟩ := h.get block
      refine ⟨es', ?_⟩
      cases hout : (packetQueueGet q block).out with
      | none => simpa [QueueOp.state, queueEvents, hout, puts, gone] using hmoves
      | some e => simpa [QueueOp.state, queueEvents, hout, puts, gone] using hmoves
  | flush =>
      refine ⟨[], ?_⟩
      have hputs : puts (queueEvents q .flush) = [] := by simp [puts, queueEvents, List.filterMap_map]
      have hgone : gone (queueEvents q .flush) = freed (avFifoCanRead q.pktList + 1) q.pktList := by
        simp [gone, queueEvents, List.filterMap_map]
      rw [hputs, hgone]
      exact h.flush
  | start => exact ⟨es, h.start⟩
  | abort => exact ⟨es, h.abort⟩

theorem Queued.failed_put (h : Queued q es) {op : QueueOp} {ret : Int}
    (hret : op.putRet q = some ret) (hneg : ret < 0) : op.state q = q := by
  cases op with
  | put pkt p f =>
      cases hret
      obtain ⟨_, hsame⟩ | ⟨hpos, _⟩ := h.put pkt p f
      · exact hsame
      · exact absurd hpos (Int.not_le.mpr hneg)
  | putNullpacket pkt i p f =>
      cases hret
      obtain ⟨_, hsame⟩ | ⟨hpos, _⟩ := h.put { pkt with streamIndex := i } p f
      · exact hsame
      · exact absurd hpos (Int.not_le.mpr hneg)
  | get | flush | start | abort => cases hret

theorem Moves.trans {q' q'' : PacketQueue} {es' es'' put put' gone gone' : List MyAVPacketList}
    (h : Moves q' es es' put gone) (g : Moves q'' es' es'' put' gone') :
    Moves q'' es es'' (put ++ put') (gone ++ gone') := by
  refine ⟨g.queued, ?_⟩
  calc es ++ (put ++ put') = gone ++ (es' ++ put') := by
        rw [← List.append_assoc, h.moved, List.append_assoc]
    _ = gone ++ gone' ++ es'' := by rw [g.moved, List.append_assoc]

end Steps

theorem puts_append (es fs : List QueueEvent) : puts (es ++ fs) = puts es ++ puts fs :=
  List.filterMap_append

theorem gone_append (es fs : List QueueEvent) : gone (es ++ fs) = gone es ++ gone fs :=
  List.filterMap_append

theorem returned_gone (es : List QueueEvent) : (returned es).Sublist (gone es) := by
  induction es with
  | nil => exact .slnil
  | cons e es ih =>
      cases e with
      | put e => exact ih
      | returned e => exact ih.cons_cons e
      | flushed e => exact ih.cons e

theorem queueing_moves {v s : PacketQueue × List QueueEvent} {ops : List QueueOp}
    {es : List MyAVPacketList} (hv : Queued v.1 es) (h : (queueing.observed queueEvents).Run v ops s) :
    ∃ es' fresh, s.2 = v.2 ++ fresh ∧ Moves s.1 es es' (puts fresh) (gone fresh) := by
  induction h with
  | nil => exact ⟨es, [], by simp, hv.stays⟩
  | @snoc ops u op s _ hn ih =>
      obtain ⟨esu, fresh, hevents, hmoves⟩ := ih
      obtain ⟨hstep, hhistory⟩ := System.observed_next.mp hn
      obtain hstate : op.state u.1 = s.1 := Option.some.inj hstep
      obtain ⟨es', hop⟩ := hmoves.queued.step op
      rw [hstate] at hop
      refine ⟨es', fresh ++ queueEvents u.1 op, by rw [hhistory, hevents, List.append_assoc], ?_⟩
      rw [puts_append, gone_append]
      exact hmoves.trans hop

/-- After the serial is raised the packets of the new serial that come out are
among those put since, in their order. -/
theorem Moves.new_serial {q q' : PacketQueue} {es es' put gone out : List MyAVPacketList}
    (h : Moves q' es es' put gone) (hout : out.Sublist gone) (hold : ∀ e ∈ es, e.serial < q.serial) :
    (out.filter fun e => e.serial = q.serial).Sublist put := by
  have hmoved : out.Sublist (es ++ put) := by
    rw [h.moved]
    exact hout.trans (List.sublist_append_left gone es')
  have hfilter := hmoved.filter fun e => decide (e.serial = q.serial)
  have hnone : es.filter (fun e => decide (e.serial = q.serial)) = [] := by
    apply List.filter_eq_nil_iff.mpr
    intro e he
    have hlt := hold e he
    simp only [decide_eq_true_eq]
    omega
  rw [List.filter_append, hnone, List.nil_append] at hfilter
  exact hfilter.trans List.filter_sublist

theorem Queued.raised {q : PacketQueue} {es : List MyAVPacketList} (h : Queued q es) {op : QueueOp}
    (hop : op = .flush ∨ op = .start) :
    ∃ es', Queued (op.state q) es' ∧ ∀ e ∈ es', e.serial < (op.state q).serial := by
  obtain rfl | rfl := hop
  · exact ⟨[], h.flush.queued, by simp⟩
  · refine ⟨es, h.start.queued, ?_⟩
    intro e he
    have hbound := h.serial e he
    simp only [QueueOp.state, packetQueueStart]
    omega

/-- What holds in every reachable state of the packet queue: the counters say
what is in it, the packets that were put are those that went, returned or
flushed, and behind them those in the queue, each once and with its serial, a
get returns the first of these, a put that fails changes nothing, and after a
flush or a start only packets put since then come out with the new serial. -/
structure Faithful (s : PacketQueue × List QueueEvent) : Prop where
  accounted : Accounted s.1 (queued s.1)
  conserved : puts s.2 = gone s.2 ++ queued s.1
  inOrder : (returned s.2).Sublist (puts s.2)
  served : ∀ e es block, queued s.1 = e :: es → s.1.abortRequest = false →
    (packetQueueGet s.1 block).ret = some 1 ∧ (packetQueueGet s.1 block).out = some e
  failedPut : ∀ op ret, QueueOp.putRet s.1 op = some ret → ret < 0 → op.state s.1 = s.1
  newSerial : ∀ op v, (op = .flush ∨ op = .start) →
    (queueing.observed queueEvents).next s op = some v →
      ∀ ops t, (queueing.observed queueEvents).Run v ops t → ∃ fresh, t.2 = v.2 ++ fresh ∧
        ((returned fresh).filter fun e => e.serial = v.1.serial).Sublist (puts fresh)

theorem packet_queue_faithful {s : PacketQueue × List QueueEvent}
    (h : (queueing.observed queueEvents).Reachable s) : Faithful s := by
  obtain ⟨⟨q₀, history⟩, ops, ⟨hq₀, hhistory⟩, hrun⟩ := h
  simp only at hq₀ hhistory
  subst hq₀ hhistory
  obtain ⟨es, fresh, hevents, hmoves⟩ := queueing_moves queued_init hrun
  have hqueued := hmoves.queued
  exact
    { accounted := by
        rw [hqueued.queued_eq]
        exact hqueued.accounted
      conserved := by
        rw [hevents, hqueued.queued_eq]
        exact hmoves.moved
      inOrder := by
        have hmoved := hmoves.moved
        rw [hevents]
        simp only [List.nil_append] at hmoved ⊢
        rw [hmoved]
        exact (returned_gone fresh).trans (List.sublist_append_left _ _)
      served := by
        intro e rest block hfront hruns
        rw [hqueued.queued_eq] at hfront
        subst hfront
        exact hqueued.served hruns block
      failedPut := by
        intro op ret hret hneg
        exact hqueued.failed_put hret hneg
      newSerial := by
        intro op v hop hnext ops t hrun'
        obtain ⟨hstep, _⟩ := System.observed_next.mp hnext
        obtain hstate : op.state s.1 = v.1 := Option.some.inj hstep
        obtain ⟨es', hafter, hold⟩ := hqueued.raised hop
        rw [hstate] at hafter hold
        obtain ⟨_, fresh', hevents', hmoves'⟩ := queueing_moves hafter hrun'
        exact ⟨fresh', hevents', hmoves'.new_serial (returned_gone fresh') hold⟩ }

def somePacket (ts : Int) : AVPacket := ⟨some ts, some ts, [0], 0, true, false, 1⟩

/-- A packet of an old serial, a flush, and two of the new serial, one of them returned. -/
theorem packet_queue_faithful_after_flush :
    ∃ s, (queueing.observed queueEvents).Reachable s ∧
      s.2 = [.put ⟨somePacket 0, 1⟩, .flushed ⟨somePacket 0, 1⟩, .put ⟨somePacket 40, 2⟩,
        .put ⟨somePacket 80, 2⟩, .returned ⟨somePacket 40, 2⟩] ∧ queued s.1 = [⟨somePacket 80, 2⟩] ∧
      Faithful s := by
  have hrun : ((queueing.observed queueEvents).run
      [.start, .put (somePacket 0) true true, .flush, .put (somePacket 40) true true,
        .put (somePacket 80) true true, .get true] (packetQueueInit, [])).map (fun s => (s.2, queued s.1)) =
      some ([.put ⟨somePacket 0, 1⟩, .flushed ⟨somePacket 0, 1⟩, .put ⟨somePacket 40, 2⟩,
        .put ⟨somePacket 80, 2⟩, .returned ⟨somePacket 40, 2⟩], [⟨somePacket 80, 2⟩]) := by
    decide +kernel
  obtain ⟨s, hs, hview⟩ := Option.map_eq_some_iff.mp hrun
  obtain ⟨hevents, hqueued⟩ := Prod.mk.inj hview
  have hinit : (queueing.observed queueEvents).init (packetQueueInit, []) := ⟨rfl, rfl⟩
  have hreach := System.Reachable.of_run hinit hs
  exact ⟨s, hreach, hevents, hqueued, packet_queue_faithful hreach⟩

end P2PFFmpeg.Player
