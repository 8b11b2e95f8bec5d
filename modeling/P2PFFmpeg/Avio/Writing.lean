import Mathlib.Data.List.Infix
import P2PFFmpeg.Avio.Context

namespace P2PFFmpeg.Avio

open Library.ByteFile

inductive WriteCall
  | w8 (b : UInt8)
  | write (buf : List UInt8)
  | fill (b : UInt8) (count : Int)
  | seek (offset : Int) (whence : Whence)
  | flush

def AVIOContext.call (s : AVIOContext) : WriteCall → Option AVIOContext
  | .w8 b => avioW8 s b
  | .write buf => avioWrite s buf
  | .fill b count => ffioFill s b count
  | .seek offset whence => (avioSeek s offset whence).map Prod.snd
  | .flush => avioFlush s

def AVIOContext.calls (s : AVIOContext) : List WriteCall → Option AVIOContext
  | [] => some s
  | c :: cs => (s.call c).bind (·.calls cs)

structure DirectFile where
  file : List UInt8
  cursor : Nat

def DirectFile.write (d : DirectFile) (data : List UInt8) : DirectFile :=
  ⟨pwrite d.file d.cursor data, d.cursor + data.length⟩

def DirectFile.seekTo (d : DirectFile) (offset : Int) : DirectFile :=
  if offset < 0 then d else { d with cursor := offset.toNat }

def DirectFile.call (d : DirectFile) : WriteCall → DirectFile
  | .w8 b => d.write [b]
  | .write buf => d.write buf
  | .fill b count => d.write (List.replicate count.toNat b)
  | .seek offset .set => d.seekTo offset
  | .seek offset .cur => if offset > int64Max - d.cursor then d else d.seekTo (d.cursor + offset)
  | .flush => d

def DirectFile.calls (d : DirectFile) (cs : List WriteCall) : DirectFile :=
  cs.foldl DirectFile.call d

/-- The file of the backend with the buffer written over it is the file written at once;
the buffer counts up to the mark that a seek back has left. -/
structure Holds (s : AVIOContext) (d : DirectFile) : Prop where
  write : s.writeFlag = true
  seek : s.seek = true
  error : s.error = 0
  works : ∀ n, s.io.fails n = false
  bufEnd : s.bufEnd = s.buffer.length
  ptr : s.bufPtr ≤ s.bufEnd
  ptrMax : s.bufPtrMax < s.bufEnd
  pos : s.pos = s.io.cursor
  file : d.file = pwrite s.io.file s.io.cursor (s.buffer.take (max s.bufPtr s.bufPtrMax))
  cursor : d.cursor = s.io.cursor + s.bufPtr

/-- Between two calls the buffer is never full. -/
structure Buffered (s : AVIOContext) (d : DirectFile) : Prop extends Holds s d where
  room : s.bufPtr < s.bufEnd

variable {s : AVIOContext} {d : DirectFile} {data : List UInt8}

theorem pwrite_append (f a b : List UInt8) (pos : Nat) :
    pwrite (pwrite f pos a) (pos + a.length) b = pwrite f pos (a ++ b) := by
  rw [pwrite_pwrite (Nat.le_refl _)]
  congr 1
  by_cases hb : b = []
  · simp [hb]
  · simp [pwrite, hb]

theorem DirectFile.write_write (d : DirectFile) (a b : List UInt8) :
    (d.write a).write b = d.write (a ++ b) := by
  simp only [write, pwrite_append, List.length_append, Nat.add_assoc]

theorem DirectFile.write_nil (d : DirectFile) : d.write [] = d := by
  simp [write]

theorem Holds.store (h : Holds s d) (hfit : data.length ≤ s.bufEnd - s.bufPtr) :
    ∃ s', s.store data = some s' ∧ Holds s' (d.write data) ∧ s'.bufEnd = s.bufEnd ∧
      s'.bufPtr = s.bufPtr + data.length ∧ s'.direct = s.direct := by
  obtain ⟨hwrite, hseek, herror, hworks, hend, hptr, hmax, hpos, hfile, hcursor⟩ := h
  have hroom : s.bufPtr + data.length ≤ s.buffer.length := by omega
  refine ⟨_, if_pos hroom, ⟨hwrite, hseek, herror, hworks, ?_, ?_, hmax, hpos, ?_, ?_⟩, rfl, rfl, rfl⟩
  · simp only [length_pwrite (by omega : s.bufPtr ≤ s.buffer.length)]
    omega
  · simp only
    omega
  · have htake := @take_pwrite _ _ s.buffer data s.bufPtr (max s.bufPtr s.bufPtrMax)
      (Nat.le_max_left _ _) (by omega) hroom
    have hwhole : max (s.bufPtr + data.length) s.bufPtrMax =
        max (max s.bufPtr s.bufPtrMax) (s.bufPtr + data.length) := by omega
    simp only [DirectFile.write, hfile, hcursor, hwhole, htake]
    rw [pwrite_pwrite]
    rw [List.length_take]
    omega
  · simp only [DirectFile.write, hcursor, Nat.add_assoc]

theorem Holds.flushBuffer (h : Holds s d) (hbuf : 0 < s.bufEnd) :
    Buffered (flushBuffer s) ⟨d.file, s.io.cursor + max s.bufPtr s.bufPtrMax⟩ ∧
      (flushBuffer s).io.file = d.file ∧ (flushBuffer s).bufPtr = 0 ∧
      (flushBuffer s).bufPtrMax = 0 ∧ (flushBuffer s).direct = s.direct ∧
      (flushBuffer s).io.cursor = s.io.cursor + max s.bufPtr s.bufPtrMax := by
  obtain ⟨hwrite, hseek, herror, hworks, hend, hptr, hmax, hpos, hfile, hcursor⟩ := h
  have hlen : (s.buffer.take (max s.bufPtr s.bufPtrMax)).length = max s.bufPtr s.bufPtrMax := by
    rw [List.length_take]
    omega
  by_cases hempty : max s.bufPtr s.bufPtrMax = 0
  · rw [hempty, List.take_zero, pwrite_nil] at hfile
    have hflush : Avio.flushBuffer s = { s with bufPtr := 0, bufPtrMax := 0 } := by
      simp [Avio.flushBuffer, hempty, hwrite]
    rw [hflush, hempty]
    exact ⟨⟨⟨hwrite, hseek, herror, hworks, hend, Nat.zero_le _, hbuf, hpos,
      by simp [hfile], rfl⟩, hbuf⟩, hfile.symm, rfl, rfl, rfl, rfl⟩
  · have hflush : Avio.flushBuffer s = { s with
        bufPtr := 0
        bufPtrMax := 0
        pos := s.pos + (max s.bufPtr s.bufPtrMax : Nat)
        io := { s.io with
          file := d.file
          cursor := s.io.cursor + max s.bufPtr s.bufPtrMax
          calls := s.io.calls + 1 } } := by
      have hpositive : max s.bufPtr s.bufPtrMax > 0 := Nat.pos_of_ne_zero hempty
      have hok : ¬ ((max s.bufPtr s.bufPtrMax : Nat) : Int) < 0 := by omega
      simp only [Avio.flushBuffer, writeout, Backend.writePacket, hwrite, herror, hworks, hlen,
        hfile, hpositive, and_self, if_true, if_false, hok, Bool.false_eq_true]
    rw [hflush]
    refine ⟨⟨⟨hwrite, hseek, herror, hworks, hend, Nat.zero_le _, hbuf, ?_, ?_, rfl⟩, hbuf⟩, rfl, rfl,
      rfl, rfl, rfl⟩
    · simp [hpos]
    · simp

theorem Holds.flushIfFull (h : Holds s d) (hbuf : 0 < s.bufEnd) :
    Buffered (flushIfFull s) d ∧ (flushIfFull s).direct = s.direct := by
  by_cases hfull : s.bufPtr ≥ s.bufEnd
  · have hmark : max s.bufPtr s.bufPtrMax = s.bufPtr := by
      have := h.ptrMax
      omega
    obtain ⟨hflush, -, -, -, hdirect, -⟩ := h.flushBuffer hbuf
    rw [hmark, ← h.cursor] at hflush
    rw [Avio.flushIfFull, if_pos hfull]
    exact ⟨hflush, hdirect⟩
  · rw [Avio.flushIfFull, if_neg hfull]
    exact ⟨⟨h, by omega⟩, rfl⟩

theorem Buffered.avioW8 (h : Buffered s d) (b : UInt8) :
    ∃ s', avioW8 s b = some s' ∧ Buffered s' (d.write [b]) := by
  have hroom := h.room
  obtain ⟨s', hstore, hholds, hend, -⟩ := @Holds.store s d [b] h.toHolds (by simp; omega)
  refine ⟨_, by rw [Avio.avioW8, hstore]; rfl, (hholds.flushIfFull (by omega)).1⟩

theorem Buffered.fillLoop {b : UInt8} {count : Int} (h : Buffered s d) (fuel : Nat)
    (hfuel : count.toNat ≤ fuel) : ∃ s', fillLoop fuel s b count = some s' ∧
      Buffered s' (d.write (List.replicate count.toNat b)) := by
  induction fuel generalizing s d count with
  | zero =>
      have hzero : count.toNat = 0 := by omega
      refine ⟨s, ?_, ?_⟩
      · rw [Avio.fillLoop, if_neg (by omega)]
      · rw [hzero, List.replicate_zero, d.write_nil]
        exact h
  | succ fuel ih =>
      by_cases hcount : count > 0
      · have hroom := h.room
        have hlen : (min ((s.bufEnd : Int) - s.bufPtr) count).toNat ≤ s.bufEnd - s.bufPtr := by omega
        obtain ⟨t, hstore, hholds, hend, -⟩ := @Holds.store s d
          (List.replicate (min ((s.bufEnd : Int) - s.bufPtr) count).toNat b) h.toHolds
          (by rwa [List.length_replicate])
        obtain ⟨hflushed, -⟩ := hholds.flushIfFull (by omega)
        obtain ⟨s', hloop, hfinal⟩ := @ih (Avio.flushIfFull t) _
          (count - min ((s.bufEnd : Int) - s.bufPtr) count) hflushed (by omega)
        refine ⟨s', ?_, ?_⟩
        · rw [Avio.fillLoop, if_pos hcount]
          simp only [hstore, Option.bind_some]
          exact hloop
        · rw [DirectFile.write_write, ← List.replicate_add] at hfinal
          rwa [show (min ((s.bufEnd : Int) - s.bufPtr) count).toNat +
            (count - min ((s.bufEnd : Int) - s.bufPtr) count).toNat = count.toNat by omega] at hfinal
      · refine ⟨s, ?_, ?_⟩
        · rw [Avio.fillLoop, if_neg hcount]
        · rw [show count.toNat = 0 by omega, List.replicate_zero, d.write_nil]
          exact h

theorem Buffered.writeLoop (h : Buffered s d) (fuel : Nat) (hfuel : data.length ≤ fuel)
    (hdata : 0 < data.length) : ∃ s', writeLoop fuel s data = some s' ∧ Buffered s' (d.write data) := by
  induction fuel generalizing s d data with
  | zero => omega
  | succ fuel ih =>
      have hroom := h.room
      obtain ⟨t, hstore, hholds, hend, -⟩ := @Holds.store s d
        (data.take (min (s.bufEnd - s.bufPtr) data.length)) h.toHolds
        (by rw [List.length_take]; omega)
      obtain ⟨hflushed, -⟩ := hholds.flushIfFull (by omega)
      rw [Avio.writeLoop, hstore, Option.bind_some]
      split
      · rename_i hrest
        rw [List.length_drop] at hrest
        obtain ⟨s', hloop, hfinal⟩ := @ih (Avio.flushIfFull t) _
          (data.drop (min (s.bufEnd - s.bufPtr) data.length)) hflushed
          (by rw [List.length_drop]; omega) (by rw [List.length_drop]; omega)
        rw [DirectFile.write_write, List.take_append_drop] at hfinal
        exact ⟨s', hloop, hfinal⟩
      · rename_i hrest
        rw [List.length_drop] at hrest
        rw [List.take_of_length_le (by omega)] at hflushed
        exact ⟨_, rfl, hflushed⟩

theorem Backend.seek_works {io : Backend} {offset : Int} (hworks : ∀ n, io.fails n = false)
    (hoffset : 0 ≤ offset) :
    io.seek offset = (offset, { io with cursor := offset.toNat, calls := io.calls + 1 }) := by
  rw [Backend.seek, if_neg (by simp only [hworks, Bool.false_eq_true, or_false]; omega)]

theorem Holds.marked (h : Holds s d) (hroom : s.bufPtr < s.bufEnd) :
    Holds { s with bufPtrMax := max s.bufPtrMax s.bufPtr } d := by
  obtain ⟨hwrite, hseek, herror, hworks, hend, hptr, hmax, hpos, hfile, hcursor⟩ := h
  refine ⟨hwrite, hseek, herror, hworks, hend, hptr, ?_, hpos, ?_, hcursor⟩
  · simp only
    omega
  · rw [hfile]
    congr 2
    simp only
    omega

/-- A seek inside of the buffer leaves the mark, any other writes the buffer out. -/
theorem Buffered.seekTo {offset : Int} (h : Buffered s d) (hoffset : 0 ≤ offset) (depth : Nat) :
    ∃ s', avioSeekTo (depth + 1) s offset = some (offset, s') ∧
      Buffered s' { d with cursor := offset.toNat } ∧
      (offset < s.io.cursor → s'.bufPtr = 0 ∧ s'.bufPtrMax = 0) := by
  obtain ⟨hholds, hroom⟩ := h
  have hmarked := hholds.marked hroom
  have hstart : s.bufferPos = s.io.cursor := by
    simp [AVIOContext.bufferPos, hholds.write, hholds.pos]
  have hnonneg : ¬ offset < 0 := by omega
  obtain ⟨buffer, ptr, ptrMax, bufEnd, pos, eof, error, writeFlag, direct, seek, seekable, checksum,
    packetSize, short, io⟩ := s
  obtain rfl : writeFlag = true := hholds.write
  obtain rfl : seek = true := hholds.seek
  simp only at hstart hmarked hroom
  simp only [avioSeekTo, if_neg hnonneg, hstart, if_true, Bool.true_eq_false, false_and, and_false,
    or_false, if_false]
  by_cases hinside : direct = false ∧ offset - io.cursor ≥ 0 ∧
      offset - io.cursor ≤ ((max ptrMax ptr : Nat) : Int)
  · rw [if_pos hinside]
    have hptr : (offset - io.cursor).toNat ≤ max ptrMax ptr := by omega
    have hmax := hmarked.ptrMax
    simp only at hmax
    refine ⟨_, rfl, ⟨⟨hmarked.write, hmarked.seek, hmarked.error, hmarked.works, hmarked.bufEnd, ?_, hmax,
      hmarked.pos, ?_, ?_⟩, ?_⟩, fun hbefore => ?_⟩
    · simp only
      omega
    · have hfile := hmarked.file
      simp only at hfile ⊢
      rw [hfile]
      congr 2
      omega
    · simp only
      omega
    · simp only
      omega
    · omega
  · rw [if_neg hinside]
    obtain ⟨hflush, hfile, -, -, -, -⟩ := hmarked.flushBuffer (by simp only; omega)
    obtain ⟨⟨hwrite, hseek, herror, hworks, hend, -, -, -, -, -⟩, hroom'⟩ := hflush
    generalize Avio.flushBuffer _ = t at *
    have hset : ¬ t.seek = false := by simp [hseek]
    simp only [Backend.seek_works hworks hoffset, if_neg hnonneg, if_neg hset]
    refine ⟨_, rfl, ⟨⟨hwrite, hseek, herror, hworks, ?_, Nat.zero_le _, ?_, ?_, ?_, rfl⟩, ?_⟩,
      fun _ => ⟨rfl, rfl⟩⟩
    · simp [hwrite, hend]
    · simp only [hwrite, if_true]
      omega
    · simp only
      omega
    · simp [hfile]
    · simp only [hwrite, if_true]
      omega

theorem Buffered.avioSeek (h : Buffered s d) (offset : Int) (whence : Whence) :
    ∃ r s', avioSeek s offset whence = some (r, s') ∧ Buffered s' (d.call (.seek offset whence)) := by
  have hstart : s.bufferPos + s.bufPtr = d.cursor := by
    simp [AVIOContext.bufferPos, h.write, h.pos, h.cursor]
  have hto : ∀ offset, ∃ r s', avioSeekTo seekDepth s offset = some (r, s') ∧
      Buffered s' (d.seekTo offset) := by
    intro offset
    by_cases hneg : offset < 0
    · refine ⟨averrorEinval, s, ?_, ?_⟩
      · simp only [seekDepth, avioSeekTo, if_pos hneg]
      · rw [DirectFile.seekTo, if_pos hneg]
        exact h
    · obtain ⟨s', hseek, hs', -⟩ := h.seekTo (by omega : 0 ≤ offset) 1
      refine ⟨offset, s', hseek, ?_⟩
      rw [DirectFile.seekTo, if_neg hneg]
      exact hs'
  cases whence with
  | set => exact hto offset
  | cur =>
      simp only [Avio.avioSeek, DirectFile.call, hstart]
      by_cases hzero : offset = 0
      · subst hzero
        refine ⟨_, s, if_pos rfl, ?_⟩
        have hsame : d.seekTo (d.cursor + 0) = d := by
          rw [DirectFile.seekTo, if_neg (by omega)]
          simp
        split
        · exact h
        · rw [hsame]
          exact h
      · rw [if_neg hzero]
        split
        · exact ⟨_, s, rfl, h⟩
        · have := hto (offset + d.cursor)
          rwa [Int.add_comm offset] at this ⊢

theorem Buffered.avioTell (h : Buffered s d) : avioTell s = some ((d.cursor : Int), s) := by
  simp [Avio.avioTell, Avio.avioSeek, AVIOContext.bufferPos, h.write, h.pos, h.cursor]

/-- After a flush the backend is at the cursor, and its file is the file written at once. -/
theorem Buffered.avioFlush (h : Buffered s d) (hfits : (d.cursor : Int) ≤ int64Max) :
    ∃ s', avioFlush s = some s' ∧ Buffered s' d ∧ s'.io.file = d.file ∧ s'.io.cursor = d.cursor ∧
      s'.bufPtr = 0 ∧ s'.bufPtrMax = 0 := by
  obtain ⟨hholds, hroom⟩ := h
  obtain ⟨hflush, hfile, hptr, hmax, -, hcursor⟩ := hholds.flushBuffer (by omega)
  have hc := hholds.cursor
  by_cases hback : min 0 ((s.bufPtr : Int) - s.bufPtrMax) = 0
  · have hmark : max s.bufPtr s.bufPtrMax = s.bufPtr := by omega
    rw [hmark, ← hc] at hflush hcursor
    refine ⟨flushBuffer s, ?_, hflush, hfile, hcursor, hptr, hmax⟩
    simp [Avio.avioFlush, hholds.write, hback]
  · have hback' : min 0 ((s.bufPtr : Int) - s.bufPtrMax) = (s.bufPtr : Int) - s.bufPtrMax := by omega
    have hto : (flushBuffer s).bufferPos + ((flushBuffer s).bufPtr : Int) =
        (s.io.cursor + max s.bufPtr s.bufPtrMax : Nat) := by
      have h := hflush.cursor
      simp only at h
      simp [AVIOContext.bufferPos, hflush.write, hflush.pos, h]
    have htarget : ((s.bufPtr : Int) - s.bufPtrMax) + (s.io.cursor + max s.bufPtr s.bufPtrMax : Nat) =
        d.cursor := by omega
    obtain ⟨s', hseek, hs', hempty⟩ := hflush.seekTo (by omega : 0 ≤ (d.cursor : Int)) 1
    obtain ⟨hptr', hmax'⟩ := hempty (by rw [hcursor]; omega)
    rw [Int.toNat_natCast] at hs'
    refine ⟨s', ?_, hs', ?_, ?_, hptr', hmax'⟩
    · simp only [Avio.avioFlush, hholds.write, if_true]
      rw [if_pos hback, hback']
      simp only [Avio.avioSeek, hto, htarget, seekDepth]
      rw [if_neg (by omega), if_neg (by omega), hseek]
      rfl
    · have hfile' := hs'.file
      rw [hptr', hmax', Nat.max_self, List.take_zero, pwrite_nil] at hfile'
      exact hfile'.symm
    · have hcursor' := hs'.cursor
      rw [hptr'] at hcursor'
      exact hcursor'.symm

theorem Buffered.avioWrite (h : Buffered s d) (hfits : (d.cursor : Int) ≤ int64Max)
    (buf : List UInt8) : ∃ s', avioWrite s buf = some s' ∧ Buffered s' (d.write buf) := by
  by_cases hempty : buf.length ≤ 0
  · obtain rfl := List.length_eq_zero_iff.mp (Nat.le_zero.mp hempty)
    rw [d.write_nil]
    exact ⟨s, if_pos hempty, h⟩
  rw [Avio.avioWrite, if_neg hempty]
  by_cases hdirect : s.direct ∧ s.updateChecksum = false
  · obtain ⟨t, hflush, ht, hfile, hcursor, hptr, hmax⟩ := h.avioFlush hfits
    rw [if_pos hdirect, hflush]
    obtain ⟨⟨hwrite, hseek, herror, hworks, hend, _, hmark, hpos, -, -⟩, hroom⟩ := ht
    have hout : writeout t buf = { t with
        pos := t.pos + buf.length
        io := { t.io with
          file := pwrite t.io.file t.io.cursor buf
          cursor := t.io.cursor + buf.length
          calls := t.io.calls + 1 } } := by
      have hok : ¬ (buf.length : Int) < 0 := by omega
      simp [writeout, Backend.writePacket, herror, hworks, hok]
    refine ⟨_, rfl, ?_⟩
    show Buffered (writeout t buf) (d.write buf)
    rw [hout]
    refine ⟨⟨hwrite, hseek, herror, hworks, hend, by simp [hptr], hmark, ?_, ?_, ?_⟩, hroom⟩
    · simp only [hpos]
      omega
    · simp [DirectFile.write, hptr, hmax, hfile, hcursor]
    · simp [DirectFile.write, hptr, hcursor]
  · rw [if_neg hdirect]
    exact h.writeLoop _ (Nat.le_refl _) (by omega)

theorem Buffered.call (h : Buffered s d) (hfits : (d.cursor : Int) ≤ int64Max) (c : WriteCall) :
    ∃ s', s.call c = some s' ∧ Buffered s' (d.call c) := by
  cases c with
  | w8 b => exact h.avioW8 b
  | write buf => exact h.avioWrite hfits buf
  | fill b count => exact h.fillLoop _ (Nat.le_refl _)
  | seek offset whence =>
      obtain ⟨r, s', hseek, hs'⟩ := h.avioSeek offset whence
      exact ⟨s', by rw [AVIOContext.call, hseek]; rfl, hs'⟩
  | flush =>
      obtain ⟨s', hflush, hs', -⟩ := h.avioFlush hfits
      exact ⟨s', hflush, hs'⟩

theorem Buffered.calls {cs : List WriteCall} (h : Buffered s d)
    (hfits : ∀ before, before <+: cs → ((d.calls before).cursor : Int) ≤ int64Max) :
    ∃ s', s.calls cs = some s' ∧ Buffered s' (d.calls cs) := by
  induction cs generalizing s d with
  | nil => exact ⟨s, rfl, h⟩
  | cons c cs ih =>
      obtain ⟨t, hcall, ht⟩ := h.call (hfits [] (List.nil_prefix)) c
      obtain ⟨s', hcalls, hs'⟩ := ih ht fun before hb =>
        hfits (c :: before) ((List.prefix_cons_inj c).mpr hb)
      exact ⟨s', by rw [AVIOContext.calls, hcall]; exact hcalls, hs'⟩

theorem Buffered.opened {buffer : List UInt8} (hbuf : buffer ≠ []) {io : Backend}
    (hworks : ∀ n, io.fails n = false) (hcursor : io.cursor = 0) (direct updateChecksum : Bool) :
    Buffered { ffioInitContext buffer true true io with direct, updateChecksum } ⟨io.file, 0⟩ := by
  have hlen := List.length_pos_iff.mpr hbuf
  refine ⟨⟨rfl, rfl, rfl, hworks, rfl, Nat.zero_le _, hlen, ?_, ?_, ?_⟩, hlen⟩
  · simp [ffioInitContext, hcursor]
  · simp [ffioInitContext]
  · simp [ffioInitContext, hcursor]

/-- Calls of the writing functions, with a flush at the end, leave the file that the
writes leave at once; the context always tells their cursor. `none` would be a write
outside of the buffer or a loop without end. -/
theorem writes_as_if_direct (buffer : List UInt8) (hbuf : buffer ≠ []) (io : Backend)
    (hworks : ∀ n, io.fails n = false) (hcursor : io.cursor = 0) (direct updateChecksum : Bool)
    (cs : List WriteCall)
    (hfits : ∀ before, before <+: cs →
      ((DirectFile.calls ⟨io.file, 0⟩ before).cursor : Int) ≤ int64Max) :
    ∃ s s', ({ ffioInitContext buffer true true io with direct, updateChecksum }).calls cs = some s ∧
      avioTell s = some (((DirectFile.calls ⟨io.file, 0⟩ cs).cursor : Int), s) ∧
      avioFlush s = some s' ∧
      s'.io.file = (DirectFile.calls ⟨io.file, 0⟩ cs).file ∧
      avioTell s' = some (((DirectFile.calls ⟨io.file, 0⟩ cs).cursor : Int), s') := by
  obtain ⟨s, hcalls, hs⟩ :=
    (Buffered.opened hbuf hworks hcursor direct updateChecksum).calls hfits
  obtain ⟨s', hflush, hs', hfile, -⟩ := hs.avioFlush (hfits cs (List.prefix_refl _))
  exact ⟨s, s', hcalls, hs.avioTell, hflush, hfile, hs'.avioTell⟩

/-- A write that overflows the buffer after a seek back inside of it. -/
theorem writes_as_if_direct_back :
    ∃ s s', (ffioInitContext [0, 0, 0, 0] true true ⟨[], 0, 0, fun _ => false, id⟩).calls
        [.write [1, 2, 3], .seek 1 .set, .write [4, 5, 6, 7, 8], .seek (-3) .cur] = some s ∧
      avioFlush s = some s' ∧ s'.io.file = [1, 4, 5, 6, 7, 8] ∧ avioTell s' = some (3, s') := by
  have hfits : ∀ before ∈ List.inits [WriteCall.write [1, 2, 3], .seek 1 .set,
      .write [4, 5, 6, 7, 8], .seek (-3) .cur],
      ((DirectFile.calls ⟨[], 0⟩ before).cursor : Int) ≤ int64Max := by decide
  obtain ⟨s, s', hcalls, -, hflush, hfile, htell⟩ := writes_as_if_direct [0, 0, 0, 0] (by decide)
    ⟨[], 0, 0, fun _ => false, id⟩ (fun _ => rfl) rfl false false
    [.write [1, 2, 3], .seek 1 .set, .write [4, 5, 6, 7, 8], .seek (-3) .cur]
    fun before hb => hfits before ((List.mem_inits _ _).mpr hb)
  exact ⟨s, s', hcalls, hflush, hfile, htell⟩

end P2PFFmpeg.Avio
