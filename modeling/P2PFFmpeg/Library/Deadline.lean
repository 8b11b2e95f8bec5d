import P2PFFmpeg.Library.Transition
import Mathlib.Algebra.Order.Group.Unbundled.Int
import Mathlib.Data.Int.Order.Basic

namespace P2PFFmpeg.Library.Deadline

def rounds (period limit start now : Int) : ℕ :=
  if limit < now - start then 0 else ((limit - (now - start)) / period).toNat + 1

variable {period limit start now : Int}

theorem rounds_anti (hp : 0 < period) {later : Int} (h : now ≤ later) :
    rounds period limit start later ≤ rounds period limit start now := by
  unfold rounds
  split
  · exact Nat.zero_le _
  · next hlater =>
      rw [if_neg (by omega)]
      have hdiv : (limit - (later - start)) / period ≤ (limit - (now - start)) / period :=
        Int.ediv_le_ediv hp (by omega)
      omega

theorem rounds_sleep (hp : 0 < period) (h : ¬ limit < now - start) :
    rounds period limit start (now + period) + 1 ≤ rounds period limit start now := by
  unfold rounds
  rw [if_neg h]
  split
  · omega
  · next hlater =>
      have hsplit : limit - (now - start) = limit - (now + period - start) + 1 * period := by omega
      have hdiv := Int.add_mul_ediv_right (limit - (now + period - start)) 1 (Int.ne_of_gt hp)
      rw [← hsplit] at hdiv
      have hnonneg : 0 ≤ (limit - (now + period - start)) / period := Int.ediv_nonneg (by omega) (by omega)
      omega

theorem rounds_le_succ (hp : 0 < period) :
    rounds period limit start now ≤ rounds period limit start (now + period) + 1 := by
  unfold rounds
  split
  · exact Nat.zero_le _
  · split
    · next hlater =>
        have hlt : (limit - (now - start)) / period < 1 := Int.ediv_lt_of_lt_mul hp (by omega)
        omega
    · have hsplit : limit - (now - start) = limit - (now + period - start) + 1 * period := by omega
      have hdiv := Int.add_mul_ediv_right (limit - (now + period - start)) 1 (Int.ne_of_gt hp)
      rw [← hsplit] at hdiv
      omega

theorem rounds_le (hp : 0 < period) (h : start ≤ now) :
    rounds period limit start now ≤ (limit / period).toNat + 1 := by
  unfold rounds
  split
  · exact Nat.zero_le _
  · have hdiv : (limit - (now - start)) / period ≤ limit / period := Int.ediv_le_ediv hp (by omega)
    omega

end P2PFFmpeg.Library.Deadline

namespace P2PFFmpeg.Library.Transition

variable {σ Label : Type}

/-- Where every costly step of an active system spends some of its potential,
there are no more of them than the potential at the start. -/
theorem System.Run.spent {S : System σ Label} (I active : σ → Prop) (potential : σ → ℕ)
    (costly : Label → Bool) (hstep : ∀ s l t, I s → S.next s l = some t → I t ∧
      (active t → active s ∧ potential t + (if costly l then 1 else 0) ≤ potential s))
    {s t : σ} {ls : List Label} (h : S.Run s ls t) (hs : I s) :
    I t ∧ (active t → ls.countP costly + potential t ≤ potential s) := by
  induction h with
  | nil =>
      refine ⟨hs, fun _ => ?_⟩
      rw [List.countP_nil, Nat.zero_add]
  | @snoc ls u l v _ hn ih =>
      obtain ⟨hu, hspent⟩ := ih
      obtain ⟨hv, hnext⟩ := hstep u l v hu hn
      refine ⟨hv, fun hactive => ?_⟩
      obtain ⟨hactive', hle⟩ := hnext hactive
      have hsofar := hspent hactive'
      rw [List.countP_append, List.countP_singleton]
      omega

end P2PFFmpeg.Library.Transition
