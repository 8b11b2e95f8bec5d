import P2PFFmpeg.Avio.Context

namespace P2PFFmpeg.Avio

def AVIOContext.target (s : AVIOContext) (offset : Int) : Whence → Int
  | .set => offset
  | .cur => offset + (s.bufferPos + s.bufPtr)

structure SkipsForward (s : AVIOContext) (target : Int) : Prop where
  read : s.writeFlag = false
  buffered : s.direct = false ∨ s.seek = false
  ahead : s.bufEnd < target - s.bufferPos
  near : s.seekable = false ∨ target - s.bufferPos ≤ s.bufEnd + s.shortSeek

structure StepsBack (s : AVIOContext) (target : Int) : Prop where
  read : s.writeFlag = false
  before : target - s.bufferPos < 0
  near : -(target - s.bufferPos) < (s.bufEnd : Int) / 2
  seek : s.seek = true
  positive : target > 0

/-- Where the position of the backend has moved before the step that fails: bytes are written out
that lie ahead of the cursor, bytes are read on the way to a position, or the backend goes back. -/
inductive MovesFirst (s : AVIOContext) (target : Int) : Prop
  | written (write : s.writeFlag = true) (ahead : s.bufPtr < s.bufPtrMax) (valid : 0 ≤ target)
  | skipped (skips : SkipsForward s target) (eof : s.eofReached = false) (more : s.io.cursor < s.io.file.length)
  | wentBack (back : StepsBack s target)
      (sought : 0 ≤ (s.io.seek (s.bufferPos - min ((s.bufEnd : Int) / 2) s.bufferPos)).1)

def AVIOContext.cursor (s : AVIOContext) : Int := s.bufferPos + s.bufPtr

variable {s s' : AVIOContext} {offset ret : Int}

theorem avioTell_cursor (s : AVIOContext) : avioTell s = some (s.cursor, s) := by
  rw [avioTell, avioSeek, if_pos rfl]
  rfl

theorem flushBuffer_cursor (hwrite : s.writeFlag = true) (h : s.bufPtrMax ≤ s.bufPtr)
    (hptr : s.bufPtr ≤ s.buffer.length) :
    (flushBuffer s).cursor = s.cursor ∧ (flushBuffer s).writeFlag = true := by
  have hmax : max s.bufPtr s.bufPtrMax = s.bufPtr := Nat.max_eq_left h
  have hlen : (s.buffer.take s.bufPtr).length = s.bufPtr := by
    rw [List.length_take, Nat.min_eq_left hptr]
  unfold flushBuffer writeout AVIOContext.cursor AVIOContext.bufferPos
  simp only [hwrite, hmax, true_and]
  by_cases hpos : s.bufPtr > 0
  · simp only [if_pos hpos, hlen]
    split
    · split <;> simp
    · simp
  · have hzero : s.bufPtr = 0 := by omega
    simp [hzero]

theorem fillUntil_end {fuel : Nat} (hfuel : 1 < fuel)
    (hend : s.eofReached = true ∨ s.io.file.length ≤ s.io.cursor) (h : fillUntil fuel s offset = some s')  :
    s'.cursor = s.cursor := by
  obtain ⟨fuel, rfl⟩ : ∃ n, fuel = n + 2 := ⟨fuel - 2, by omega⟩
  rw [fillUntil] at h
  split at h
  · next hgo =>
      have hmore : s.io.file.length ≤ s.io.cursor := by
        rcases hend with heof | hmore
        · rw [hgo.2] at heof
          cases heof
        · exact hmore
      have hfill : fillBuffer s = { s with
          io := { s.io with calls := s.io.calls + 1 }
          eofReached := true } := by
        simp [fillBuffer, hgo.2, Backend.readPacket, hmore]
      have hstop : ¬ ((fillBuffer s).pos < offset ∧ (fillBuffer s).eofReached = false) := by
        rw [hfill]
        exact fun hno => absurd hno.2 nofun
      rw [fillUntil, if_neg hstop, hfill] at h
      rw [← Option.some.inj h]
      rfl
  · rw [← Option.some.inj h]

theorem snd_eq {α β : Type} {a c : α} {b d : β} (h : some (a, b) = some (c, d)) : b = d :=
  congrArg Prod.snd (Option.some.inj h)

theorem fst_eq {α β : Type} {a c : α} {b d : β} (h : some (a, b) = some (c, d)) : a = c :=
  congrArg Prod.fst (Option.some.inj h)

theorem seekTo_failed_write {depth : Nat} (hwrite : s.writeFlag = true)
    (h : avioSeekTo (depth + 1) s offset = some (ret, s')) (hret : ret < 0)
    (hptr : s.bufPtr ≤ s.buffer.length) (hstill : ¬ MovesFirst s offset) : s'.cursor = s.cursor := by
  by_cases hvalid : offset < 0
  · rw [avioSeekTo, if_pos hvalid] at h
    rw [← snd_eq h]
  have hmark : max s.bufPtrMax s.bufPtr ≤ s.bufPtr := by
    by_contra hno
    exact hstill (.written hwrite (by omega) (Int.not_lt.mp hvalid))
  have hflush := (@flushBuffer_cursor { s with bufPtrMax := max s.bufPtrMax s.bufPtr } hwrite hmark hptr).1
  obtain ⟨buffer, bufPtr, bufPtrMax, bufEnd, pos, eof, error, writeFlag⟩ := s
  subst hwrite
  rw [avioSeekTo] at h
  simp only [if_neg hvalid, if_true, Bool.true_eq_false, false_and, and_false, if_false] at h
  split at h
  · exact absurd (fst_eq h) (by omega)
  split at h
  · rw [← snd_eq h]
    exact hflush
  split at h
  · rw [← snd_eq h]
    exact hflush
  · exact absurd (fst_eq h) (by omega)

theorem seekTo_failed_read {depth : Nat} (hread : s.writeFlag = false)
    (h : avioSeekTo (depth + 1) s offset = some (ret, s')) (hret : ret < 0)
    (hstill : ¬ MovesFirst s offset) : s'.cursor = s.cursor := by
  have hbuffer : s.bufferPos = s.pos - s.bufEnd := by simp [AVIOContext.bufferPos, hread]
  simp only [avioSeekTo, hread, if_false, Bool.false_eq_true, true_and] at h
  split at h
  · rw [← snd_eq h]
  split at h
  · exact absurd (fst_eq h) (by omega)
  next hinside =>
  split at h
  · next hforward =>
      obtain ⟨t, hfill, ht⟩ := Option.map_eq_some_iff.mp h
      split at ht
      · obtain rfl : t = s' := congrArg Prod.snd ht
        have hahead : (s.bufEnd : Int) < offset - s.bufferPos := by
          by_contra hno
          exact hinside ⟨hforward.2.2, hforward.2.1, by omega⟩
        have hend : s.eofReached = true ∨ s.io.file.length ≤ s.io.cursor := by
          by_contra hno
          rw [not_or, Bool.not_eq_true, Nat.not_le] at hno
          exact hstill (.skipped ⟨hread, hforward.2.2, hahead, hforward.1⟩ hno.1 hno.2)
        have hfuel : 1 < (offset - s.pos).toNat + 1 := by omega
        have hsame := fillUntil_end hfuel (by exact hend) hfill
        simpa only [AVIOContext.cursor, AVIOContext.bufferPos, hread] using hsame
      · exact absurd (congrArg Prod.fst ht) (by simp only; omega)
  split at h
  · next hback =>
      split at h
      · rw [← snd_eq h]
        simp only [AVIOContext.cursor, AVIOContext.bufferPos, hread]
      · next hsought =>
          exact absurd (.wentBack ⟨hread, hback.1, hback.2.1, hback.2.2.1, hback.2.2.2⟩
            (Int.not_lt.mp hsought)) hstill
  split at h
  · rw [← snd_eq h]
    simp only [AVIOContext.cursor, AVIOContext.bufferPos, hread]
  split at h
  · rw [← snd_eq h]
    simp only [AVIOContext.cursor, AVIOContext.bufferPos, hread]
  · exact absurd (fst_eq h) (by omega)

theorem seekTo_failed {depth : Nat} (h : avioSeekTo (depth + 1) s offset = some (ret, s')) (hret : ret < 0)
    (hptr : s.bufPtr ≤ s.buffer.length) (hstill : ¬ MovesFirst s offset) : s'.cursor = s.cursor := by
  cases hwrite : s.writeFlag with
  | true => exact seekTo_failed_write hwrite h hret hptr hstill
  | false => exact seekTo_failed_read hwrite h hret hstill

/-- A seek that fails leaves the cursor, unless the backend had moved before. -/
theorem failed_seek_keeps_cursor {whence : Whence} (hptr : s.bufPtr ≤ s.buffer.length)
    (h : avioSeek s offset whence = some (ret, s')) (hret : ret < 0)
    (hstill : ¬ MovesFirst s (s.target offset whence)) :
    (avioTell s').map Prod.fst = (avioTell s).map Prod.fst := by
  rw [avioTell_cursor, avioTell_cursor, Option.map_some, Option.map_some]
  congr 1
  cases whence with
  | set => exact seekTo_failed h hret hptr hstill
  | cur =>
      simp only [avioSeek] at h
      split at h
      · rw [← snd_eq h]
      · split at h
        · rw [← snd_eq h]
        · exact seekTo_failed h hret hptr hstill

def eightBytes (fails : Nat → Bool) : Backend := ⟨[1, 2, 3, 4, 5, 6, 7, 8], 0, 0, fails, fun _ => 8⟩

def threeRead (seek : Bool) (fails : Nat → Bool) : AVIOContext :=
  (avioR8 (avioR8 (avioR8 (ffioInitContext [0, 0, 0, 0] false seek (eightBytes fails))).2).2).2

def wroteFour : Option AVIOContext :=
  (avioWrite (ffioInitContext [0, 0, 0, 0, 0, 0, 0, 0] true false (eightBytes fun _ => false)) [1, 2, 3, 4]).bind
    fun s => (avioSeek s 1 .set).map Prod.snd

def aroundSeek (offset : Int) (s : AVIOContext) : Option (Int × Int × Int) := do
  let before ← avioTell s
  let sought ← avioSeek s offset .set
  let after ← avioTell sought.2
  some (before.1, sought.1, after.1)

theorem failed_seek_keeps_cursor_refused :
    ∃ s', avioSeek (threeRead true (· == 1)) 100000 .set = some (averrorEio, s') ∧
      (avioTell s').map Prod.fst = some 3 := by
  have hstill : ¬ MovesFirst (threeRead true (· == 1)) 100000 := by
    rintro (hwrite | hskips | hback)
    · exact absurd hwrite (by decide)
    · exact absurd hskips.near (by decide +kernel)
    · exact absurd hback.before (by decide +kernel)
  obtain ⟨s', hseek⟩ : ∃ s', avioSeek (threeRead true (· == 1)) 100000 .set = some (averrorEio, s') := ⟨_, rfl⟩
  refine ⟨s', hseek, ?_⟩
  rw [failed_seek_keeps_cursor (by decide) hseek (by decide) hstill]
  decide +kernel

/-- The writer's bytes ahead of the cursor are written out before `EPIPE`; the reader takes what is
left on the way to the end. -/
theorem failed_seek_moves_cursor :
    wroteFour.bind (aroundSeek 100) = some (1, averrorEpipe, 4) ∧
      aroundSeek 100 (threeRead false fun _ => false) = some (3, averrorEof, 4) := by
  decide +kernel

end P2PFFmpeg.Avio
