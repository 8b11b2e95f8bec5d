import P2PFFmpeg.Util.Tree

namespace P2PFFmpeg.Util

open Library AVTreeNode

variable {ν α : Type} {id : ν} {elem : α} {state : Int} {child : Bool → AVTreeNode ν α} {i : Bool}

def leans (i : Bool) (state : Int) : Int := state * toward i

theorem leans_cases (i : Bool) : (toward i = 1 ∧ ∀ state, leans i state = state) ∨
      (toward i = -1 ∧ ∀ state, leans i state = -state) := by
  cases i with
  | false => exact .inr ⟨rfl, fun state => by simp [leans, toward]⟩
  | true => exact .inl ⟨rfl, fun state => by simp [leans, toward]⟩

theorem leans_neg (i : Bool) (state : Int) : leans i (-state) = -leans i state :=
  Int.neg_mul ..

theorem leans_not (i : Bool) (state : Int) : leans (!i) state = -leans i state := by
  cases i <;> simp [leans, toward]

theorem height_node (i : Bool) :
    (node id elem state child).height = max (child i).height (child !i).height + 1 := by
  cases i with
  | false => rfl
  | true => rw [height, Bool.not_true, Nat.max_comm]

theorem balanced_node (i : Bool) : (node id elem state child).Balanced ↔
      leans i state = (child i).height - (child !i).height ∧ -1 ≤ state ∧ state ≤ 1 ∧
        (child i).Balanced ∧ (child !i).Balanced := by
  have hsides : state = (child true).height - (child false).height ↔
      leans i state = (child i).height - (child !i).height := by
    cases i with
    | false =>
        simp only [leans, toward, Bool.false_eq_true, if_false, Bool.not_false]
        omega
    | true => simp [leans, toward]
  constructor
  · intro h
    cases h with
    | node hstate hlow hhigh hchild => exact ⟨hsides.mp hstate, hlow, hhigh, hchild i, hchild _⟩
  · rintro ⟨hstate, hlow, hhigh, hi, hnot⟩
    refine .node (hsides.mpr hstate) hlow hhigh ?_
    intro j
    by_cases hj : j = i
    · rwa [hj]
    · rwa [Bool.eq_not.mpr hj]

theorem eq_node_of_height {t : AVTreeNode ν α} (h : 0 < t.height) :
    ∃ id elem state child, t = node id elem state child := by
  cases t with
  | null => cases h
  | node id elem state child => exact ⟨id, elem, state, child, rfl⟩

section Rotations

variable {childId : ν} {childElem : α} {childState : Int}
  {grandchild : Bool → AVTreeNode ν α} {topId : ν} {topElem : α} {topState : Int}
  {rest : Bool → AVTreeNode ν α}

theorem rotateOnce_nodes (h : child i = node childId childElem childState grandchild) :
    (rotateOnce id elem state child i childId childElem childState grandchild).nodes =
      (node id elem state child).nodes := by
  cases i <;> simp [rotateOnce, nodes, Function.update, h]

theorem rotateTwice_nodes (h : child i = node childId childElem childState grandchild)
    (htop : grandchild (!i) = node topId topElem topState rest) :
    (rotateTwice id elem child i childId childElem grandchild topId topElem topState rest).nodes =
      (node id elem state child).nodes := by
  cases i <;> simp_all [rotateTwice, nodes, Function.update]

theorem rotateOnce_balanced (h : child i = node childId childElem childState grandchild)
    (hstate : state = 2 * toward i) (houter : 0 ≤ leans i childState)
    (hchild : (child i).Balanced) (hnot : (child !i).Balanced)
    (hheight : (child i).height = (child !i).height + 2) {t : AVTreeNode ν α}
    (ht : t = rotateOnce id elem state child i childId childElem childState grandchild) :
    t.Balanced ∧ (t.state = 0 ∧ t.height = (child i).height ∨
      t.state ≠ 0 ∧ t.height = (child i).height + 1) := by
  rw [h] at hchild
  obtain ⟨hsides, hlow, hhigh, hbig, hinside⟩ := (balanced_node i).mp hchild
  have htall : (child i).height = max (grandchild i).height (grandchild !i).height + 1 := by
    rw [h, height_node i]
  obtain ⟨outer, houter'⟩ : ∃ outer, outer = if childState ≠ 0 then 0 else state / 2 := ⟨_, rfl⟩
  have hfacts : (-1 ≤ outer ∧ outer ≤ 1) ∧
      (leans i childState = 1 ∧ outer = 0 ∧ leans i outer = 0 ∨
        leans i childState = 0 ∧ outer ≠ 0 ∧ leans i outer = 1) := by
    obtain ⟨htoward, hleans⟩ | ⟨htoward, hleans⟩ := leans_cases i
    all_goals
      rw [htoward] at hstate
      simp only [hleans] at hsides houter ⊢
      split at houter' <;> omega
  obtain ⟨⟨hlow', hhigh'⟩, hwhich⟩ := hfacts
  obtain ⟨inner, hinner⟩ :
      ∃ inner, inner = node id elem outer (Function.update child i (grandchild !i)) := ⟨_, rfl⟩
  have hbalanced : inner.Balanced := by
    rw [hinner, balanced_node i]
    simp only [Function.update_self, ne_eq, Bool.not_eq_self, not_false_eq_true,
      Function.update_of_ne, hinside, hnot, and_true]
    omega
  have hinnerHeight : inner.height = max (grandchild !i).height (child !i).height + 1 := by
    rw [hinner, height_node i]
    simp
  have ht' : t = node childId childElem (-outer) (Function.update grandchild (!i) inner) := by
    rw [ht, hinner, houter']
    rfl
  subst ht'
  rw [balanced_node i, height_node i, AVTreeNode.state, leans_neg]
  simp only [Function.update_self, ne_eq, Bool.eq_not_self, not_false_eq_true,
    Function.update_of_ne, hbig, hbalanced, and_true]
  omega

theorem rotateTwice_balanced (h : child i = node childId childElem childState grandchild)
    (htop : grandchild (!i) = node topId topElem topState rest)
    (hinner : leans i childState = -1) (hchild : (child i).Balanced) (hnot : (child !i).Balanced)
    (hheight : (child i).height = (child !i).height + 2) {t : AVTreeNode ν α}
    (ht : t = rotateTwice id elem child i childId childElem grandchild topId topElem topState rest) :
    t.Balanced ∧ t.state = 0 ∧ t.height = (child i).height := by
  rw [h] at hchild
  obtain ⟨hsides, hlow, hhigh, hbig, hinside⟩ := (balanced_node i).mp hchild
  have htall : (child i).height = max (grandchild i).height (grandchild !i).height + 1 := by
    rw [h, height_node i]
  have htopTall : (grandchild !i).height = max (rest i).height (rest !i).height + 1 := by
    rw [htop, height_node i]
  rw [htop] at hinside
  obtain ⟨hrest, hrestLow, hrestHigh, hrestI, hrestNot⟩ := (balanced_node i).mp hinside
  obtain ⟨below, hbelow⟩ : ∃ below : Bool → Int, below = fun j =>
    if j then (if topState < 0 then 1 else 0) else (if topState > 0 then -1 else 0) := ⟨_, rfl⟩
  have hfacts : leans i (below i) = (grandchild i).height - (rest i).height ∧
      leans i (below !i) = (rest !i).height - (child !i).height ∧
      ∀ j, -1 ≤ below j ∧ below j ≤ 1 := by
    refine ⟨?_, ?_, ?_⟩
    · cases i <;> simp [leans, toward, hbelow] at * <;> split <;> omega
    · cases i <;> simp [leans, toward, hbelow] at * <;> split <;> omega
    · intro j
      cases j <;> simp [hbelow] <;> split <;> decide
  obtain ⟨hi, hnoti, hbounds⟩ := hfacts
  obtain ⟨near, hnear⟩ : ∃ near, near =
      node childId childElem (below i) (Function.update grandchild (!i) (rest i)) := ⟨_, rfl⟩
  obtain ⟨far, hfar⟩ : ∃ far, far = node id elem (below !i) (Function.update child i (rest !i)) :=
    ⟨_, rfl⟩
  have hnearBalanced : near.Balanced ∧
      near.height = max (grandchild i).height (rest i).height + 1 := by
    rw [hnear, balanced_node i, height_node i]
    simp only [Function.update_self, ne_eq, Bool.eq_not_self, not_false_eq_true,
      Function.update_of_ne, hbig, hrestI, and_true]
    exact ⟨hi, hbounds i⟩
  have hfarBalanced : far.Balanced ∧ far.height = max (rest !i).height (child !i).height + 1 := by
    rw [hfar, balanced_node i, height_node i]
    simp only [Function.update_self, ne_eq, Bool.not_eq_self, not_false_eq_true,
      Function.update_of_ne, hrestNot, hnot, and_true]
    exact ⟨hnoti, hbounds !i⟩
  have ht' : t = node topId topElem 0 (Function.update (fun _ => near) (!i) far) := by
    rw [ht, hnear, hfar, hbelow]
    rfl
  subst ht'
  rw [balanced_node i, height_node i, AVTreeNode.state]
  simp only [Function.update_self, ne_eq, Bool.eq_not_self, not_false_eq_true,
    Function.update_of_ne, hnearBalanced.1, hfarBalanced.1, and_true, true_and, leans, Int.zero_mul]
  omega

end Rotations

@[simp] theorem rebalance_nodes (i : Bool) :
    (rebalance id elem state child i).nodes = (node id elem state child).nodes := by
  simp only [rebalance]
  by_cases htwo : (state + toward i) % 2 = 0 ∧ state + toward i ≠ 0
  · rw [if_pos htwo]
    cases hchild : child i with
    | null => rfl
    | node childId childElem childState grandchild =>
        simp only
        by_cases hinner : childState * 2 = -(state + toward i)
        · rw [if_pos hinner]
          cases htop : grandchild (!i) with
          | null => rfl
          | node topId topElem topState rest => exact rotateTwice_nodes hchild htop
        · rw [if_neg hinner]
          exact rotateOnce_nodes hchild
  · rw [if_neg htwo]
    rfl

/-- A node whose sides differ by two at most is balanced again; its state tells
whether it is as high as its higher side was then. -/
theorem rebalance_balanced {i : Bool} (hlow : -1 ≤ state) (hhigh : state ≤ 1)
    (hstate : leans i state + 1 = (child i).height - (child !i).height)
    (hi : (child i).Balanced) (hnot : (child !i).Balanced) {t : AVTreeNode ν α}
    (ht : t = rebalance id elem state child i) : t.Balanced ∧
      ((child i).height = (child !i).height ∧ t.state = 0 ∧ t.height = (child i).height + 1 ∨
        (child i).height = (child !i).height + 1 ∧ t.state ≠ 0 ∧
          t.height = (child i).height + 1 ∨
        (child i).height = (child !i).height + 2 ∧ (t.state = 0 ∧ t.height = (child i).height ∨
          t.state ≠ 0 ∧ t.height = (child i).height + 1)) := by
  have hnext : leans i (state + toward i) = leans i state + 1 := by
    obtain ⟨htoward, hleans⟩ | ⟨htoward, hleans⟩ := leans_cases i <;> rw [hleans, hleans] <;> omega
  have hsum : ((state + toward i) % 2 = 0 ∧ state + toward i ≠ 0 ↔ leans i state = 1) ∧
      (leans i state = 1 → state + toward i = 2 * toward i) ∧
      (leans i state ≠ 1 → -1 ≤ state + toward i ∧ state + toward i ≤ 1 ∧
        (state + toward i = 0 ↔ leans i state = -1)) ∧
      -1 ≤ leans i state ∧ leans i state ≤ 1 := by
    obtain ⟨htoward, hleans⟩ | ⟨htoward, hleans⟩ := leans_cases i
    all_goals
      simp only [hleans, htoward]
      omega
  obtain ⟨htwo, hdouble, hsingle, hleanLow, hleanHigh⟩ := hsum
  by_cases hone : leans i state = 1
  · have hheight : (child i).height = (child !i).height + 2 := by omega
    obtain ⟨childId, childElem, childState, grandchild, hchild⟩ :=
      eq_node_of_height (show 0 < (child i).height by omega)
    simp only [rebalance, if_pos (htwo.mpr hone), hchild] at ht
    have hside := hi
    rw [hchild, balanced_node i] at hside
    by_cases hinner : childState * 2 = -(state + toward i)
    · have hlean : leans i childState = -1 := by
        rw [hdouble hone] at hinner
        obtain ⟨htoward, hleans⟩ | ⟨htoward, hleans⟩ := leans_cases i <;> rw [hleans] <;> omega
      obtain ⟨topId, topElem, topState, rest, htop⟩ :=
        eq_node_of_height (show 0 < (grandchild !i).height by omega)
      rw [if_pos hinner, htop] at ht
      obtain ⟨hbalanced, hzero, htall⟩ :=
        rotateTwice_balanced hchild htop hlean hi hnot hheight ht
      exact ⟨hbalanced, .inr (.inr ⟨hheight, .inl ⟨hzero, htall⟩⟩)⟩
    · have hlean : 0 ≤ leans i childState := by
        rw [hdouble hone] at hinner
        obtain ⟨htoward, hleans⟩ | ⟨htoward, hleans⟩ := leans_cases i <;> rw [hleans] <;> omega
      rw [if_neg hinner] at ht
      obtain ⟨hbalanced, hwhich⟩ :=
        rotateOnce_balanced hchild (hdouble hone) hlean hi hnot hheight ht
      exact ⟨hbalanced, .inr (.inr ⟨hheight, hwhich⟩)⟩
  · rw [rebalance, if_neg (fun h => hone (htwo.mp h))] at ht
    subst ht
    obtain ⟨hbelow, habove, hzero⟩ := hsingle hone
    refine ⟨(balanced_node i).mpr ⟨by omega, hbelow, habove, hi, hnot⟩, ?_⟩
    rw [height_node i, AVTreeNode.state]
    omega

end P2PFFmpeg.Util
