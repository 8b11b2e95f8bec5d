import Mathlib.Data.List.Infix
import P2PFFmpeg.Avio.Context
import P2PFFmpeg.Library.Transition

namespace P2PFFmpeg.Avio

open Library.ByteFile Library.Transition

def slice (file : List UInt8) (pos len : Nat) : List UInt8 :=
  (file.drop pos).take len

/-- The context reads the file and stands at `p`. -/
structure Reads (file : List UInt8) (p : Nat) (s : AVIOContext) : Prop where
  read : s.writeFlag = false
  error : s.error = 0
  same : s.io.file = file
  size : 0 < s.buffer.length
  bufEnd : s.bufEnd ≤ s.buffer.length
  ptr : s.bufPtr ≤ s.bufEnd
  pos : s.pos = s.io.cursor
  start : s.bufEnd ≤ s.io.cursor
  bytes : s.buffer.take s.bufEnd = slice file (s.io.cursor - s.bufEnd) s.bufEnd
  cursor : p + s.bufEnd = s.io.cursor + s.bufPtr
  eof : s.eofReached = true → file.length ≤ s.io.cursor

variable {file : List UInt8} {s : AVIOContext} {p : Nat}

theorem slice_add (pos a b : Nat) : slice file pos (a + b) = slice file pos a ++ slice file (pos + a) b := by
  rw [slice, List.take_add, List.drop_drop]
  rfl

theorem length_slice (pos len : Nat) : (slice file pos len).length = min len (file.length - pos) := by
  rw [slice, List.length_take, List.length_drop]

theorem Reads.within (h : Reads file p s) (hend : 0 < s.bufEnd) : s.io.cursor ≤ file.length := by
  have hlen := congrArg List.length h.bytes
  have hbound := h.bufEnd
  have hstart := h.start
  rw [length_slice, List.length_take] at hlen
  omega

theorem Reads.bufferPos (h : Reads file p s) : s.bufferPos = (s.io.cursor - s.bufEnd : Nat) := by
  have hstart := h.start
  simp only [AVIOContext.bufferPos, h.read, h.pos, Bool.false_eq_true, if_false]
  omega

theorem Reads.avioTell (h : Reads file p s) : avioTell s = some ((p : Int), s) := by
  have hstart := h.start
  have hcursor := h.cursor
  have hp : s.bufferPos + s.bufPtr = (p : Int) := by
    rw [h.bufferPos]
    omega
  simp [Avio.avioTell, avioSeek, hp]

theorem Backend.readPacket_gives {io : Backend} {size : Nat} (hsize : 0 < size)
    (hmore : io.cursor < io.file.length) : ∃ n, 0 < n ∧ n ≤ size ∧ io.cursor + n ≤ io.file.length ∧
      io.readPacket size = (some (slice io.file io.cursor n),
        { io with cursor := io.cursor + n, calls := io.calls + 1 }) := by
  refine ⟨min (max 1 (min (io.chunk io.calls) size)) (io.file.length - io.cursor), by omega, by omega,
    by omega, ?_⟩
  have hlen : ((io.file.drop io.cursor).take (max 1 (min (io.chunk io.calls) size))).length =
      min (max 1 (min (io.chunk io.calls) size)) (io.file.length - io.cursor) := by
    rw [List.length_take, List.length_drop]
  rw [readPacket, if_neg (by omega)]
  simp only [hlen, slice]
  congr 2
  rw [List.take_eq_take_iff, List.length_drop]
  omega

theorem Backend.readPacket_eof {io : Backend} {size : Nat} (hend : io.file.length ≤ io.cursor) :
    io.readPacket size = (none, { io with calls := io.calls + 1 }) :=
  if_pos hend

theorem Reads.markEof {calls : Nat} (h : Reads file p s) (hend : file.length ≤ s.io.cursor) :
    Reads file p { s with io := { s.io with calls }, eofReached := true } := by
  obtain ⟨hread, herror, hsame, hsize, hbuf, hptr, hpos, hstart, hbytes, hcursor, -⟩ := h
  exact ⟨hread, herror, hsame, hsize, hbuf, hptr, hpos, hstart, hbytes, hcursor, fun _ => hend⟩

theorem Reads.fill_eof (h : Reads file p s) (hend : file.length ≤ s.io.cursor) :
    Reads file p (fillBuffer s) ∧ (fillBuffer s).eofReached = true ∧
      (fillBuffer s).bufPtr = s.bufPtr ∧ (fillBuffer s).bufEnd = s.bufEnd ∧
      (fillBuffer s).io.cursor = s.io.cursor := by
  by_cases heof : s.eofReached = true
  · have hfill : fillBuffer s = s := by simp [fillBuffer, heof]
    rw [hfill]
    exact ⟨h, heof, rfl, rfl, rfl⟩
  · have hfill : fillBuffer s =
        { s with io := { s.io with calls := s.io.calls + 1 }, eofReached := true } := by
      simp only [fillBuffer, if_neg heof, Backend.readPacket_eof (h.same.symm ▸ hend)]
    rw [hfill]
    exact ⟨h.markEof hend, rfl, rfl, rfl, rfl⟩

theorem take_pwrite_end {f data : List UInt8} {pos : Nat} (hfit : pos + data.length ≤ f.length) :
    (pwrite f pos data).take (pos + data.length) = f.take pos ++ data := by
  have htake := @take_pwrite _ _ f data pos pos (Nat.le_refl _) (by omega) hfit
  rw [Nat.max_eq_right (by omega)] at htake
  rw [htake]
  by_cases hd : data = []
  · simp [hd]
  · have hshort : (f.take pos).length ≤ pos + data.length := by
      rw [List.length_take]
      omega
    rw [pwrite, if_neg hd, List.drop_of_length_le hshort, List.length_take, Nat.min_eq_left (by omega),
      Nat.sub_self, List.replicate_zero, List.append_nil, List.append_nil, List.take_take, Nat.min_self]

theorem Reads.fillBuffer_eq (h : Reads file p s) (hmore : s.io.cursor < file.length) :
    ∃ dst n, (dst = s.bufEnd ∨ dst = 0) ∧ 0 < n ∧ dst + n ≤ s.buffer.length ∧
      s.io.cursor + n ≤ file.length ∧
      fillBuffer s = { s with
        io := { s.io with cursor := s.io.cursor + n, calls := s.io.calls + 1 }
        buffer := pwrite s.buffer dst (slice file s.io.cursor n)
        pos := s.pos + n
        bufPtr := dst
        bufEnd := dst + n } := by
  have heof : ¬ s.eofReached = true := by
    intro heof
    have := h.eof heof
    omega
  have hsize := h.size
  have hroom : ∀ dst, dst < s.buffer.length → ∃ n, 0 < n ∧ dst + n ≤ s.buffer.length ∧
      s.io.cursor + n ≤ file.length ∧ s.io.readPacket (s.buffer.length - dst) =
        (some (slice file s.io.cursor n),
          { s.io with cursor := s.io.cursor + n, calls := s.io.calls + 1 }) := by
    intro dst hdst
    obtain ⟨n, hn, hle, hfile, hread⟩ := @Backend.readPacket_gives s.io (s.buffer.length - dst)
      (by omega) (h.same.symm ▸ hmore)
    rw [show slice s.io.file s.io.cursor n = slice file s.io.cursor n by rw [h.same]] at hread
    exact ⟨n, hn, by omega, h.same ▸ hfile, hread⟩
  have hlength : ∀ n, s.io.cursor + n ≤ file.length → (slice file s.io.cursor n).length = n := by
    intro n hn
    rw [length_slice]
    omega
  have hpacket : 0 < (if s.maxPacketSize ≠ 0 then s.maxPacketSize else ioBufferSize) := by
    split
    · omega
    · decide
  generalize hp : (if s.maxPacketSize ≠ 0 then s.maxPacketSize else ioBufferSize) = packet at hpacket
  by_cases happend : s.bufEnd + packet ≤ s.buffer.length
  · obtain ⟨n, hn, hle, hfile, hread⟩ := hroom s.bufEnd (by omega)
    refine ⟨s.bufEnd, n, .inl rfl, hn, hle, hfile, ?_⟩
    simp only [fillBuffer, if_neg heof, hp, if_pos happend, hread, hlength n hfile]
  · obtain ⟨n, hn, hle, hfile, hread⟩ := hroom 0 hsize
    refine ⟨0, n, .inr rfl, hn, hle, hfile, ?_⟩
    simp only [fillBuffer, if_neg heof, hp, if_neg happend, hread, hlength n hfile]

/-- Away from the end the buffer gets bytes, behind those it has or in their place. -/
theorem Reads.fill (h : Reads file p s) (hmore : s.io.cursor < file.length) :
    Reads file s.io.cursor (fillBuffer s) ∧ (fillBuffer s).eofReached = false ∧
      (fillBuffer s).bufPtr < (fillBuffer s).bufEnd ∧ s.io.cursor < (fillBuffer s).io.cursor ∧
      (fillBuffer s).io.cursor - (fillBuffer s).bufEnd ≤ s.io.cursor := by
  have heof : s.eofReached = false := by
    cases heq : s.eofReached
    · rfl
    · have := h.eof heq
      omega
  obtain ⟨dst, n, hdst, hn, hfit, hfile, hfill⟩ := h.fillBuffer_eq hmore
  have hlen : (slice file s.io.cursor n).length = n := by
    rw [length_slice]
    omega
  have hstart := h.start
  have hcursor := h.cursor
  rw [hfill]
  refine ⟨⟨h.read, h.error, h.same, ?_, ?_, ?_, ?_, ?_, ?_, ?_, ?_⟩, heof, ?_, ?_, ?_⟩
  all_goals try simp only
  · rw [length_pwrite (by omega)]
    have := h.size
    omega
  · rw [length_pwrite (by omega)]
    omega
  · omega
  · rw [h.pos]
    omega
  · omega
  · have htake := @take_pwrite_end s.buffer (slice file s.io.cursor n) dst (by rw [hlen]; exact hfit)
    rw [hlen] at htake
    rw [htake]
    obtain rfl | rfl := hdst
    · rw [h.bytes, show s.io.cursor + n - (s.bufEnd + n) = s.io.cursor - s.bufEnd by omega, slice_add,
        show s.io.cursor - s.bufEnd + s.bufEnd = s.io.cursor by omega]
    · rw [List.take_zero, List.nil_append, Nat.zero_add, Nat.add_sub_cancel]
  · omega
  · rw [heof]
    simp
  · omega
  · omega
  · omega

theorem Reads.buffered {len : Nat} (h : Reads file p s) (hlen : s.bufPtr + len ≤ s.bufEnd) :
    (s.buffer.drop s.bufPtr).take len = slice file p len := by
  have hstart := h.start
  have hcursor := h.cursor
  have hdrop : ((s.buffer.take s.bufEnd).drop s.bufPtr).take len = (s.buffer.drop s.bufPtr).take len := by
    rw [List.drop_take, List.take_take, Nat.min_eq_left (by omega)]
  rw [← hdrop, h.bytes, slice, List.drop_take, List.take_take, Nat.min_eq_left (by omega),
    List.drop_drop, slice]
  congr 2
  omega

theorem Reads.advance {len : Nat} (h : Reads file p s) (hlen : s.bufPtr + len ≤ s.bufEnd) :
    Reads file (p + len) { s with bufPtr := s.bufPtr + len } := by
  obtain ⟨hread, herror, hsame, hsize, hbuf, hptr, hpos, hstart, hbytes, hcursor, heof⟩ := h
  refine ⟨hread, herror, hsame, hsize, hbuf, hlen, hpos, hstart, hbytes, ?_, heof⟩
  simp only
  omega

theorem Reads.refill (h : Reads file p s) (hempty : s.bufPtr = s.bufEnd) :
    Reads file p (fillBuffer s) ∧ ((fillBuffer s).bufPtr < (fillBuffer s).bufEnd ∧ p < file.length ∨
      (fillBuffer s).bufPtr = (fillBuffer s).bufEnd ∧ file.length ≤ p ∧
        (fillBuffer s).eofReached = true) := by
  have hcursor := h.cursor
  obtain rfl : p = s.io.cursor := by omega
  by_cases hmore : s.io.cursor < file.length
  · obtain ⟨hfill, -, hptr, -⟩ := h.fill hmore
    exact ⟨hfill, .inl ⟨hptr, hmore⟩⟩
  · obtain ⟨hfill, heof, hptr, hend, -⟩ := h.fill_eof (by omega)
    refine ⟨hfill, .inr ⟨?_, by omega, heof⟩⟩
    rw [hptr, hend, hempty]

theorem Reads.inside (h : Reads file p s) (hptr : s.bufPtr < s.bufEnd) : p < file.length := by
  have hwithin := h.within (by omega)
  have hcursor := h.cursor
  omega

theorem Reads.avioR8 (h : Reads file p s) : ∃ s', avioR8 s = ((file.getD p 0).toNat, s') ∧
      Reads file (p + min 1 (file.length - p)) s' := by
  have hgives : ∀ t, Reads file p t → t.bufPtr < t.bufEnd →
      (t.buffer.getD t.bufPtr 0).toNat = (file.getD p 0).toNat ∧
        Reads file (p + min 1 (file.length - p)) { t with bufPtr := t.bufPtr + 1 } := by
    intro t ht hptr
    have hin := ht.inside hptr
    refine ⟨?_, ?_⟩
    · have hone := @Reads.buffered file t p 1 ht (by omega)
      have hhead := congrArg (fun l => l[0]?) hone
      simp only [slice, List.getElem?_take, List.getElem?_drop, Nat.add_zero] at hhead
      rw [List.getD_eq_getElem?_getD, List.getD_eq_getElem?_getD]
      simpa using congrArg (fun b : Option UInt8 => (b.getD 0).toNat) hhead
    · rw [show min 1 (file.length - p) = 1 by omega]
      exact ht.advance (by omega)
  by_cases hempty : s.bufPtr ≥ s.bufEnd
  · have hle := h.ptr
    obtain ⟨hfill, hcase⟩ := h.refill (by omega)
    obtain ⟨hptr, hin⟩ | ⟨hptr, hend, -⟩ := hcase
    · obtain ⟨hbyte, hnext⟩ := hgives _ hfill hptr
      exact ⟨_, by simp only [Avio.avioR8, if_pos hempty, if_pos hptr, hbyte], hnext⟩
    · refine ⟨fillBuffer s, ?_, ?_⟩
      · have hout : file.getD p 0 = 0 := by
          rw [List.getD_eq_getElem?_getD, List.getElem?_eq_none hend]
          rfl
        simp only [Avio.avioR8, if_pos hempty, if_neg (by omega : ¬ (fillBuffer s).bufPtr <
          (fillBuffer s).bufEnd), hout]
        rfl
      · rw [show min 1 (file.length - p) = 0 by omega]
        exact hfill
  · obtain ⟨hbyte, hnext⟩ := hgives s h (by omega)
    exact ⟨_, by simp only [Avio.avioR8, if_neg hempty, if_pos (by omega : s.bufPtr < s.bufEnd), hbyte],
      hnext⟩

theorem slice_zero (pos : Nat) : slice file pos 0 = [] :=
  List.take_zero

theorem slice_past {pos : Nat} (len : Nat) (h : file.length ≤ pos) : slice file pos len = [] := by
  rw [slice, List.drop_of_length_le h, List.take_nil]

theorem Reads.bypass {n calls : Nat} (h : Reads file p s) (hempty : s.bufPtr = s.bufEnd) :
    Reads file (p + n) { s with
      io := { s.io with cursor := s.io.cursor + n, calls }
      pos := s.pos + n
      bufPtr := 0
      bufEnd := 0 } := by
  have hcursor := h.cursor
  refine ⟨h.read, h.error, h.same, h.size, Nat.zero_le _, Nat.le_refl _, ?_, Nat.zero_le _, ?_, ?_, ?_⟩
  all_goals try simp only
  · rw [h.pos]
    omega
  · rw [List.take_zero, slice_zero]
  · omega
  · intro heof
    have := h.eof heof
    omega

def LoopReads (file : List UInt8) (p fuel size : Nat) (buf : List UInt8) (s : AVIOContext) : Prop :=
  ∃ s', readLoop fuel s size buf = some (buf ++ slice file p size, s') ∧
    Reads file (p + (slice file p size).length) s' ∧ ((slice file p size).length < size → s'.eofReached = true)

theorem Reads.loop_nothing (h : Reads file p s) (fuel : Nat) (buf : List UInt8) : LoopReads file p fuel 0 buf s := by
  refine ⟨s, ?_, ?_, ?_⟩
  · rw [readLoop.eq_def]
    cases fuel <;> rw [slice_zero, List.append_nil] <;> rfl
  · rw [slice_zero]
    exact h
  · rw [slice_zero]
    exact fun hlt => absurd hlt (Nat.lt_irrefl _)

theorem Reads.readLoop (h : Reads file p s) (fuel size : Nat) (buf : List UInt8)
    (hfuel : 2 * size + (if s.bufPtr = s.bufEnd then 1 else 0) ≤ fuel) : LoopReads file p fuel size buf s := by
  induction fuel generalizing s p size buf with
  | zero =>
      obtain rfl : size = 0 := by omega
      exact h.loop_nothing 0 buf
  | succ fuel ih =>
      by_cases hsize : size > 0
      swap
      · obtain rfl : size = 0 := by omega
        exact h.loop_nothing _ buf
      have hptr := h.ptr
      have hcursor := h.cursor
      -- a round that has got some of the bytes
      have hround : ∀ (t : AVIOContext) (n : Nat), 0 < n → n ≤ size → Reads file (p + n) t →
          (slice file p n).length = n →
          Avio.readLoop (fuel + 1) s size buf = Avio.readLoop fuel t (size - n) (buf ++ slice file p n) →
          LoopReads file p (fuel + 1) size buf s := by
        intro t n hn hle ht hlen hstep
        obtain ⟨s', hloop, hs', heof⟩ := ih ht (size - n) (buf ++ slice file p n) (by
          split at hfuel <;> split <;> omega)
        have hsplit : slice file p size = slice file p n ++ slice file (p + n) (size - n) := by
          rw [← slice_add, Nat.add_sub_cancel' hle]
        refine ⟨s', ?_, ?_, ?_⟩
        · rw [hstep, hloop, hsplit, List.append_assoc]
        · rw [hsplit, List.length_append, hlen, ← Nat.add_assoc]
          exact hs'
        · rw [hsplit, List.length_append, hlen]
          intro hlt
          exact heof (by omega)
      by_cases hempty : min (s.bufEnd - s.bufPtr) size = 0
      · have hends : s.bufPtr = s.bufEnd := by omega
        obtain rfl : p = s.io.cursor := by omega
        by_cases hdirect : (s.direct ∨ size > s.buffer.length) ∧ s.updateChecksum = false
        · by_cases hmore : s.io.cursor < s.io.file.length
          · obtain ⟨n, hn, hle, hfile, hread⟩ := Backend.readPacket_gives hsize hmore
            have hsame := h.same
            subst hsame
            have hlen : (slice s.io.file s.io.cursor n).length = n := by
              rw [length_slice]
              omega
            refine hround _ n hn hle (@Reads.bypass _ s _ n (s.io.calls + 1) h hends) hlen ?_
            simp only [Avio.readLoop, if_pos hsize, if_pos (Or.inl hempty), if_pos hdirect, hread, hlen]
          · have hpast : file.length ≤ s.io.cursor := by
              rw [← h.same]
              omega
            refine ⟨{ s with io := { s.io with calls := s.io.calls + 1 }, eofReached := true }, ?_, ?_,
              fun _ => rfl⟩
            · simp only [Avio.readLoop, if_pos hsize, if_pos (Or.inl hempty), if_pos hdirect,
                Backend.readPacket_eof (by omega : s.io.file.length ≤ s.io.cursor), slice_past size hpast,
                List.append_nil]
            · rw [slice_past size hpast]
              exact h.markEof hpast
        · obtain ⟨hfill, hcase⟩ := h.refill hends
          obtain ⟨hmore, -⟩ | ⟨hnone, hpast, heof⟩ := hcase
          · obtain ⟨s', hloop, hs'⟩ := ih hfill size buf (by
              rw [if_neg (by omega)]
              split at hfuel <;> omega)
            refine ⟨s', ?_, hs'⟩
            simp only [Avio.readLoop, if_pos hsize, if_pos (Or.inl hempty), if_neg hdirect,
              if_neg (by omega : ¬ (fillBuffer s).bufEnd - (fillBuffer s).bufPtr = 0)]
            exact hloop
          · refine ⟨fillBuffer s, ?_, ?_, fun _ => heof⟩
            · simp only [Avio.readLoop, if_pos hsize, if_pos (Or.inl hempty), if_neg hdirect,
                if_pos (by omega : (fillBuffer s).bufEnd - (fillBuffer s).bufPtr = 0),
                slice_past size hpast, List.append_nil]
            · rw [slice_past size hpast]
              exact hfill
      · have hlen : (slice file p (min (s.bufEnd - s.bufPtr) size)).length =
            min (s.bufEnd - s.bufPtr) size := by
          have hwithin := h.within (by omega)
          rw [length_slice]
          omega
        refine hround { s with bufPtr := s.bufPtr + min (s.bufEnd - s.bufPtr) size }
          (min (s.bufEnd - s.bufPtr) size) (by omega) (by omega) (h.advance (by omega)) hlen ?_
        have hcopy : ¬ (min (s.bufEnd - s.bufPtr) size = 0 ∨ s.writeFlag = true) := by
          simp [h.read, hempty]
        simp only [Avio.readLoop, if_pos hsize, if_neg hcopy, h.buffered (by omega : s.bufPtr +
          min (s.bufEnd - s.bufPtr) size ≤ s.bufEnd)]

theorem Reads.avioRead (h : Reads file p s) (size : Nat) :
    ∃ ret s', avioRead s size = some (ret, slice file p size, s') ∧
      Reads file (p + (slice file p size).length) s' ∧
      (0 < size → ret = if p < file.length then ((slice file p size).length : Int) else averrorEof) := by
  obtain ⟨s', hloop, hs', heof⟩ := h.readLoop (2 * size + 1) size [] (by split <;> omega)
  rw [List.nil_append] at hloop
  rw [Avio.avioRead, hloop, Option.map_some]
  by_cases hnone : (slice file p size).length = 0
  · rw [hnone, Nat.add_zero] at hs' ⊢
    have hfeof : Reads file p (avioFeof s') ∧ (s'.eofReached = true → (avioFeof s').eofReached = true) := by
      by_cases he : s'.eofReached = true
      · have hend := hs'.eof he
        have hclear : Reads file p { s' with eofReached := false } := by
          obtain ⟨hread, herror, hsame, hsize, hbuf, hptr, hpos, hstart, hbytes, hcursor, -⟩ := hs'
          exact ⟨hread, herror, hsame, hsize, hbuf, hptr, hpos, hstart, hbytes, hcursor, nofun⟩
        obtain ⟨hfill, hmark, -⟩ := hclear.fill_eof hend
        rw [avioFeof, if_pos he]
        exact ⟨hfill, fun _ => hmark⟩
      · rw [avioFeof, if_neg he]
        exact ⟨hs', fun h => absurd h he⟩
    have herror : ¬ s'.error ≠ 0 := by simp [hs'.error]
    simp only [hnone, if_true, if_neg herror]
    rw [length_slice] at hnone
    by_cases hmark : (avioFeof s').eofReached = true
    · refine ⟨averrorEof, avioFeof s', by rw [if_pos hmark], hfeof.1, fun hsize => ?_⟩
      rw [if_neg (by omega)]
    · refine ⟨0, avioFeof s', by rw [if_neg hmark], hfeof.1, fun hsize => ?_⟩
      exact absurd (hfeof.2 (heof (by rw [length_slice]; omega))) hmark
  · refine ⟨(slice file p size).length, s', by simp only [if_neg hnone], hs', fun _ => ?_⟩
    rw [length_slice] at hnone
    rw [if_pos (by omega)]

theorem Reads.fillUntil {q : Nat} (h : Reads file p s) (hstart : s.io.cursor - s.bufEnd ≤ q)
    (fuel : Nat) (hpos : 0 < fuel) (hfuel : q < s.io.cursor + fuel) :
    ∃ p' s', fillUntil fuel s q = some s' ∧ Reads file p' s' ∧
      (s'.eofReached = false → s'.io.cursor - s'.bufEnd ≤ q ∧ q ≤ s'.io.cursor) := by
  induction fuel generalizing s p with
  | zero => omega
  | succ fuel ih =>
      have hat := h.pos
      by_cases hgo : s.pos < q ∧ s.eofReached = false
      · rw [Avio.fillUntil, if_pos hgo]
        by_cases hmore : s.io.cursor < file.length
        · obtain ⟨hfill, -, -, hlater, hfrom⟩ := h.fill hmore
          exact ih hfill (by omega) (by omega) (by omega)
        · obtain ⟨hfill, heof, -, -, -⟩ := h.fill_eof (by omega)
          obtain ⟨fuel, rfl⟩ := Nat.exists_eq_succ_of_ne_zero (by omega : fuel ≠ 0)
          refine ⟨p, fillBuffer s, ?_, hfill, ?_⟩
          · rw [Avio.fillUntil, if_neg (by simp [heof])]
          · rw [heof]
            exact nofun
      · refine ⟨p, s, by rw [Avio.fillUntil, if_neg hgo], h, fun heof => ⟨hstart, ?_⟩⟩
        rw [heof] at hgo
        simp only [and_true] at hgo
        omega

theorem Reads.placed {q : Nat} (h : Reads file p s) (hto : q ≤ s.io.cursor) {ptr ptrMax : Nat} (hptr : s.io.cursor + ptr = q + s.bufEnd) :
    Reads file q { s with bufPtr := ptr, bufPtrMax := ptrMax, eofReached := false } := by
  obtain ⟨hread, herror, hsame, hsize, hbuf, -, hpos, hstart, hbytes, hcursor, -⟩ := h
  refine ⟨hread, herror, hsame, hsize, hbuf, ?_, hpos, hstart, hbytes, ?_, nofun⟩
  · simp only
    omega
  · simp only
    omega

theorem Reads.moved {q ptrMax calls : Nat} (h : Reads file p s) :
    Reads file q { s with
      io := { s.io with cursor := q, calls }
      bufEnd := 0
      bufPtr := 0
      bufPtrMax := ptrMax
      pos := q
      eofReached := false } := by
  obtain ⟨hread, herror, hsame, hsize, -, -, -, -, -, -, -⟩ := h
  exact ⟨hread, herror, hsame, hsize, Nat.zero_le _, Nat.le_refl _, rfl, Nat.zero_le _, rfl, rfl, nofun⟩

theorem Backend.seek_cases {io : Backend} (q : Nat) :
    (io.seek q).1 < 0 ∨ io.seek q = ((q : Int), { io with cursor := q, calls := io.calls + 1 }) := by
  by_cases h : (q : Int) < 0 ∨ io.fails io.calls
  · rw [seek, if_pos h]
    exact .inl (by decide : averrorEio < 0)
  · rw [seek, if_neg h, Int.toNat_natCast]
    exact .inr rfl

/-- What a seek promises: it returns, and when it does not fail the context stands at the
target. -/
def SeekGives (file : List UInt8) (q : Nat) (r : Option (Int × AVIOContext)) : Prop :=
  ∃ ret s', r = some (ret, s') ∧ (0 ≤ ret → ret = q ∧ Reads file q s')

/-- One level of the recursion: it goes on from an empty buffer at a position that is not
behind the target, and not at all when the target is not before the buffer. -/
theorem Reads.seekTo_step {q depth : Nat} (h : Reads file p s)
    (hback : s.io.cursor - s.bufEnd ≤ q ∨ ∀ b t, Reads file b t → b ≤ q → t.bufEnd = 0 →
      SeekGives file q (avioSeekTo depth (fillBuffer t) q)) :
    SeekGives file q (avioSeekTo (depth + 1) s q) := by
  have hstart := h.start
  have hbufferPos := h.bufferPos
  have hpos := h.pos
  have hread := h.read
  have hnonneg : ¬ (q : Int) < 0 := by omega
  simp only [avioSeekTo, if_neg hnonneg, hbufferPos]
  by_cases hinside : (s.direct = false ∨ s.seek = false) ∧
      (q : Int) - (s.io.cursor - s.bufEnd : Nat) ≥ 0 ∧
      (q : Int) - (s.io.cursor - s.bufEnd : Nat) ≤
        (if s.writeFlag = true then ((max s.bufPtrMax s.bufPtr : Nat) : Int) else s.bufEnd)
  · rw [if_pos hinside]
    simp only [hread, Bool.false_eq_true, if_false] at hinside
    exact ⟨q, _, rfl, fun _ => ⟨rfl, h.placed (by omega) (by omega)⟩⟩
  rw [if_neg hinside]
  by_cases hforward : (s.seekable = false ∨
      (q : Int) - (s.io.cursor - s.bufEnd : Nat) ≤ s.bufEnd + s.shortSeek) ∧ s.writeFlag = false ∧
      (q : Int) - (s.io.cursor - s.bufEnd : Nat) ≥ 0 ∧ (s.direct = false ∨ s.seek = false)
  · rw [if_pos hforward]
    obtain ⟨hread', herror, hsame, hsize, hbuf, hptr, -, -, hbytes, hcursor, heof⟩ := h
    have hmark : Reads file p { s with bufPtrMax := max s.bufPtrMax s.bufPtr } :=
      ⟨hread', herror, hsame, hsize, hbuf, hptr, hpos, hstart, hbytes, hcursor, heof⟩
    obtain ⟨p', s', hfill, hs', hin⟩ := @Reads.fillUntil _ _ p q hmark (by simp only; omega)
      (((q : Int) - s.pos).toNat + 1) (by omega) (by simp only; omega)
    rw [hfill, Option.map_some]
    have hpos' := hs'.pos
    have hstart' := hs'.start
    by_cases he : s'.eofReached = true
    · exact ⟨averrorEof, s', by simp only [if_pos he],
        fun hret => absurd hret (by decide : ¬ 0 ≤ averrorEof)⟩
    · obtain ⟨hlow, hhigh⟩ := hin (Bool.eq_false_iff.mpr he)
      refine ⟨q, _, congrArg some (if_neg he), fun _ => ⟨rfl, ?_⟩⟩
      exact hs'.placed hhigh (by omega)
  rw [if_neg hforward]
  by_cases hshort : s.writeFlag = false ∧ (q : Int) - (s.io.cursor - s.bufEnd : Nat) < 0 ∧
      -((q : Int) - (s.io.cursor - s.bufEnd : Nat)) < (s.bufEnd : Int) / 2 ∧ s.seek = true ∧ (q : Int) > 0
  · rw [if_pos hshort]
    have htarget : ((s.io.cursor - s.bufEnd : Nat) : Int) -
        min ((s.bufEnd : Int) / 2) (s.io.cursor - s.bufEnd : Nat) =
        ((s.io.cursor - s.bufEnd) - min (s.bufEnd / 2) (s.io.cursor - s.bufEnd) : Nat) := by omega
    rw [htarget]
    obtain hfail | hok := @Backend.seek_cases s.io
      ((s.io.cursor - s.bufEnd) - min (s.bufEnd / 2) (s.io.cursor - s.bufEnd))
    · rw [if_pos hfail]
      exact ⟨_, _, rfl, fun hret => absurd hret (Int.not_le.mpr hfail)⟩
    · rw [hok, if_neg (by simp only; omega)]
      obtain hfrom | hrest := hback
      · omega
      · exact hrest _ _ h.moved (by omega) rfl
  rw [if_neg hshort, if_neg (by simp [hread] : ¬ s.writeFlag = true)]
  by_cases hseek : s.seek = false
  · rw [if_pos hseek]
    exact ⟨averrorEpipe, _, rfl, fun hret => absurd hret (by decide : ¬ 0 ≤ averrorEpipe)⟩
  rw [if_neg hseek]
  obtain hfail | hok := @Backend.seek_cases s.io q
  · rw [if_pos hfail]
    exact ⟨_, _, rfl, fun hret => absurd hret (Int.not_le.mpr hfail)⟩
  · rw [hok, if_neg hnonneg]
    refine ⟨q, _, rfl, fun _ => ⟨rfl, ?_⟩⟩
    rw [if_neg (by simp [hread] : ¬ s.writeFlag = true)]
    exact h.moved

theorem Reads.seekTo {q : Nat} (h : Reads file p s) : SeekGives file q (avioSeekTo seekDepth s q) := by
  refine h.seekTo_step (.inr fun b t ht hb hend => ?_)
  have hcursor := ht.cursor
  have hptr := ht.ptr
  by_cases hmore : t.io.cursor < file.length
  · obtain ⟨hfill, -, -, -, hfrom⟩ := ht.fill hmore
    exact hfill.seekTo_step (.inl (by omega))
  · obtain ⟨hfill, -, -, hend', hcursor'⟩ := ht.fill_eof (by omega)
    exact hfill.seekTo_step (.inl (by omega))

def Whence.target (p : Nat) (offset : Int) : Whence → Int
  | .set => offset
  | .cur => p + offset

theorem Reads.avioSeek (h : Reads file p s) (offset : Int) (whence : Whence) :
    ∃ ret s', avioSeek s offset whence = some (ret, s') ∧
      (0 ≤ ret → ret = whence.target p offset ∧ Reads file ret.toNat s') := by
  have hto : ∀ target : Int, ∃ ret s', avioSeekTo seekDepth s target = some (ret, s') ∧
      (0 ≤ ret → ret = target ∧ Reads file ret.toNat s') := by
    intro target
    by_cases hneg : target < 0
    · refine ⟨averrorEinval, s, ?_, fun hret => absurd hret (by decide : ¬ 0 ≤ averrorEinval)⟩
      simp only [seekDepth, avioSeekTo, if_pos hneg]
    · obtain ⟨q, rfl⟩ := Int.eq_ofNat_of_zero_le (by omega : 0 ≤ target)
      obtain ⟨ret, s', hseek, hs'⟩ := @Reads.seekTo file s p q h
      refine ⟨ret, s', hseek, fun hret => ?_⟩
      obtain ⟨rfl, hread⟩ := hs' hret
      exact ⟨rfl, hread⟩
  cases whence with
  | set => exact hto offset
  | cur =>
      have hstart := h.start
      have hcursor := h.cursor
      have hp : s.bufferPos + s.bufPtr = (p : Int) := by
        rw [h.bufferPos]
        omega
      simp only [Avio.avioSeek, hp]
      by_cases hzero : offset = 0
      · refine ⟨p, s, if_pos hzero, fun _ => ⟨?_, h⟩⟩
        rw [hzero, Whence.target, Int.add_zero]
      rw [if_neg hzero]
      by_cases hover : offset > int64Max - p
      · exact ⟨averrorEinval, s, if_pos hover, fun hret => absurd hret (by decide : ¬ 0 ≤ averrorEinval)⟩
      · rw [if_neg hover, Int.add_comm]
        exact hto (p + offset)

inductive ReadCall
  | r8
  | read (size : Nat)
  | seek (offset : Int) (whence : Whence)

def AVIOContext.readCall (s : AVIOContext) : ReadCall → Option AVIOContext
  | .r8 => some (avioR8 s).2
  | .read size => (avioRead s size).map (·.2.2)
  | .seek offset whence =>
      (avioSeek s offset whence).bind fun (ret, s') => if ret < 0 then none else some s'

def OpenedOn (file : List UInt8) (s : AVIOContext) : Prop :=
  ∃ buffer seek io direct seekable updateChecksum maxPacketSize shortSeek, buffer ≠ [] ∧
    io.file = file ∧ io.cursor = 0 ∧
    s = { ffioInitContext buffer false seek io with
      direct, seekable, updateChecksum, maxPacketSize, shortSeek }

def readCalls (file : List UInt8) : System AVIOContext ReadCall where
  init := OpenedOn file
  next := AVIOContext.readCall

theorem OpenedOn.reads (h : OpenedOn file s) : Reads file 0 s := by
  obtain ⟨buffer, seek, io, direct, seekable, checksum, packet, short, hbuf, hfile, hcursor, rfl⟩ := h
  refine ⟨rfl, rfl, hfile, List.length_pos_iff.mpr hbuf, Nat.zero_le _, Nat.le_refl _, ?_,
    Nat.zero_le _, rfl, ?_, nofun⟩
  · simp [ffioInitContext, hcursor]
  · simp [ffioInitContext, hcursor]

theorem readCalls_reads (hs : (readCalls file).Reachable s) : ∃ p, Reads file p s := by
  refine hs.invariant (fun s => ∃ p, Reads file p s) (fun s h => ⟨0, OpenedOn.reads h⟩) ?_
  rintro s c t - ⟨p, h⟩ hnext
  cases c with
  | r8 =>
      obtain ⟨s', hr8, hs'⟩ := h.avioR8
      simp only [readCalls, AVIOContext.readCall, hr8, Option.some.injEq] at hnext
      exact ⟨_, hnext ▸ hs'⟩
  | read size =>
      obtain ⟨ret, s', hread, hs', -⟩ := h.avioRead size
      simp only [readCalls, AVIOContext.readCall, hread, Option.map_some, Option.some.injEq] at hnext
      exact ⟨_, hnext ▸ hs'⟩
  | seek offset whence =>
      obtain ⟨ret, s', hseek, hs'⟩ := h.avioSeek offset whence
      simp only [readCalls, AVIOContext.readCall, hseek, Option.bind_some] at hnext
      split at hnext
      · cases hnext
      · cases hnext
        exact ⟨_, (hs' (by omega)).2⟩

/-- Wherever the calls have led, the context is a cursor on the file: a read gives the
bytes that follow the position it tells and moves it behind them, and a seek that does
not fail moves it to its target. Every call returns. -/
theorem reads_as_cursor (hs : (readCalls file).Reachable s) :
    ∃ p : Nat, avioTell s = some ((p : Int), s) ∧
      (∃ s', avioR8 s = ((file.getD p 0).toNat, s') ∧
        avioTell s' = some (((p + min 1 (file.length - p) : Nat) : Int), s')) ∧
      (∀ n, 0 < n → ∃ s', avioRead s n =
          some (if p < file.length then ((min n (file.length - p) : Nat) : Int) else averrorEof,
            (file.drop p).take n, s') ∧
        avioTell s' = some (((p + min n (file.length - p) : Nat) : Int), s')) ∧
      ∀ offset whence, ∃ ret s', avioSeek s offset whence = some (ret, s') ∧
        (0 ≤ ret → ret = whence.target p offset ∧ avioTell s' = some (ret, s')) := by
  obtain ⟨p, h⟩ := readCalls_reads hs
  refine ⟨p, h.avioTell, ?_, ?_, ?_⟩
  · obtain ⟨s', hr8, hs'⟩ := h.avioR8
    exact ⟨s', hr8, hs'.avioTell⟩
  · intro n hn
    obtain ⟨ret, s', hread, hs', hret⟩ := h.avioRead n
    rw [length_slice] at hs' hret
    rw [← hret hn]
    exact ⟨s', hread, hs'.avioTell⟩
  · intro offset whence
    obtain ⟨ret, s', hseek, hs'⟩ := h.avioSeek offset whence
    refine ⟨ret, s', hseek, fun hret => ?_⟩
    obtain ⟨htarget, hread⟩ := hs' hret
    have htell := hread.avioTell
    rw [Int.toNat_of_nonneg hret] at htell
    exact ⟨htarget, htell⟩

/-- A read around the buffer after a seek back, with a backend that gives three bytes at
a time. -/
theorem reads_as_cursor_back : ∃ s s', (readCalls [1, 2, 3, 4, 5, 6, 7]).Reachable s ∧
    avioRead s 9 = some (6, [2, 3, 4, 5, 6, 7], s') ∧ avioTell s' = some (7, s') := by
  let s₀ := ffioInitContext [0, 0, 0, 0] false true ⟨[1, 2, 3, 4, 5, 6, 7], 0, 0, fun _ => false, fun _ => 3⟩
  have hinit : OpenedOn [1, 2, 3, 4, 5, 6, 7] s₀ :=
    ⟨[0, 0, 0, 0], true, _, false, true, false, 0, shortSeekThreshold, by decide, rfl, rfl, rfl⟩
  have hrun : ((readCalls [1, 2, 3, 4, 5, 6, 7]).run [.r8, .read 5, .seek 1 .set] s₀).map
      (fun s => (avioTell s).map Prod.fst) = some (some 1) := by decide +kernel
  obtain ⟨s, hs, htell⟩ := Option.map_eq_some_iff.mp hrun
  have hreach : (readCalls [1, 2, 3, 4, 5, 6, 7]).Reachable s := .of_run hinit hs
  obtain ⟨p, hp, -, hread, -⟩ := reads_as_cursor hreach
  rw [hp, Option.map_some, Option.some.injEq] at htell
  obtain rfl : p = 1 := Int.ofNat.inj htell
  obtain ⟨s', h, h'⟩ := hread 9 (by decide)
  exact ⟨s, s', hreach, h, h'⟩

end P2PFFmpeg.Avio
