import P2PFFmpeg.Util.TreeBalance

namespace P2PFFmpeg.Util

open Library AVTreeNode

variable {ν α : Type} {cmp : α → α → Int} {id : ν} {elem : α} {state : Int}
  {child : Bool → AVTreeNode ν α}

@[simp] theorem elems_null : (null : AVTreeNode ν α).elems = [] := rfl

@[simp] theorem ids_null : (null : AVTreeNode ν α).ids = [] := rfl

@[simp] theorem elems_node :
    (node id elem state child).elems = (child false).elems ++ elem :: (child true).elems := by
  simp [elems, nodes]

@[simp] theorem ids_node : (node id elem state child).ids = (child false).ids ++ id :: (child true).ids := by
  simp [ids, nodes]

theorem increasing_node (h : Increasing cmp (node id elem state child).elems) (i : Bool) :
    Increasing cmp (child i).elems := by
  rw [elems_node, increasing_middle] at h
  cases i with
  | false => exact h.1
  | true => exact h.2.1

theorem ordered_iff (hcmp : TotalCmp cmp) (t : AVTreeNode ν α) : t.Ordered cmp ↔ Increasing cmp t.elems := by
  induction t with
  | null => exact ⟨fun _ => .nil, fun _ => .null⟩
  | node id elem state child ih =>
      rw [elems_node, increasing_middle]
      constructor
      · intro h
        cases h with
        | node hleft hright hchild =>
            exact ⟨(ih false).mp (hchild false), (ih true).mp (hchild true), hleft, hright,
              fun x hx y hy => hcmp.lt_of_lt_of_le (hleft x hx) (Int.le_of_lt (hright y hy))⟩
      · rintro ⟨hinc, hinc', hleft, hright, _⟩
        refine .node hleft hright ?_
        intro i
        cases i with
        | false => exact (ih false).mpr hinc
        | true => exact (ih true).mpr hinc'

def neighbours (cmp : α → α → Int) (key : α) (xs : List α) (next : Bool → Option α) (i : Bool) :
    Option α :=
  if i then (behind cmp key xs).head?.or (next true) else (before cmp key xs).getLast?.or (next false)

/-- A search finds the equal element and its neighbours in the list of the elements. -/
theorem avTreeFind_eq (hcmp : TotalCmp cmp) (key : α) (t : AVTreeNode ν α)
    (h : Increasing cmp t.elems) (next : Option (Bool → Option α)) : avTreeFind cmp key t next =
      ((equal cmp key t.elems).head?, next.map (neighbours cmp key t.elems)) := by
  induction t generalizing next with
  | null =>
      have hsame : neighbours cmp key [] = fun n => n := by
        funext n i
        cases i <;> rfl
      simp [avTreeFind, equal, hsame]
  | node id elem state child ih =>
      have hleft := increasing_node h false
      have hright := increasing_node h true
      rw [elems_node] at h ⊢
      by_cases hzero : cmp key elem = 0
      · obtain ⟨hbefore, hequal, hbehind⟩ := split_middle hcmp h (hcmp.symm hzero)
        obtain ⟨_, _, hsmaller, hlarger, _⟩ := increasing_middle.mp h
        simp only [avTreeFind, hzero, ne_eq, not_true_eq_false, if_false, hequal, List.head?_cons]
        cases next with
        | none => rfl
        | some n =>
            obtain ⟨hbefore', _, hbehind'⟩ := all_before fun x hx =>
              hcmp.lt_of_lt_of_le (hsmaller x hx) (Int.le_of_eq (hcmp.symm hzero))
            obtain ⟨hbefore'', _, hbehind''⟩ := all_behind fun x hx => (hcmp.swap key x).mp
              (hcmp.lt_of_le_of_lt (Int.le_of_eq hzero) (hlarger x hx))
            simp only [ih false hleft, ih true hright, Option.map_some]
            congr 2
            funext i
            cases i with
            | false => simp [neighbours, hbefore, hbefore', hbefore'']
            | true => simp [neighbours, hbehind, hbehind', hbehind'']
      · simp only [avTreeFind, ne_eq, hzero, not_false_eq_true, if_true]
        by_cases hneg : cmp key elem < 0
        · obtain ⟨hbefore, hequal, hbehind⟩ := split_front hcmp h ((hcmp.swap key elem).mp hneg)
          rw [decide_eq_true hneg, Bool.not_true, ih false hleft, hequal, Option.map_map]
          congr 2
          funext n i
          cases i with
          | false => simp [neighbours, hbefore]
          | true =>
              simp only [neighbours, hbehind, Function.comp, if_true, Function.update_self]
              cases behind cmp key (child false).elems <;> rfl
        · have hpos : cmp elem key < 0 := (hcmp.swap elem key).mpr (by omega)
          obtain ⟨hbefore, hequal, hbehind⟩ := split_back hcmp h hpos
          rw [decide_eq_false hneg, Bool.not_false, ih true hright, hequal, Option.map_map]
          congr 2
          funext n i
          cases i with
          | true => simp [neighbours, hbehind]
          | false =>
              simp only [neighbours, hbefore, Function.comp, Bool.false_eq_true, if_false,
                Function.update_self]
              rw [List.getLast?_append, List.getLast?_cons]
              cases (before cmp key (child true).elems).getLast? <;> rfl

/-- A result of NULL tells that the tree is higher than it was. -/
def Grows (ret : Option α) (was now : Nat) : Prop := now = was + if ret.isNone then 1 else 0

/-- A result of NULL tells that the tree is less high than it was. -/
def Shrinks (ret : Option α) (was now : Nat) : Prop := was = now + if ret.isNone then 1 else 0

section Below

variable {side : Bool} {key : α} {below : TreeResult ν α}

@[simp] theorem avTreeInsertBelow_next :
    (avTreeInsertBelow id elem state child side key below).next = below.next := by
  simp only [avTreeInsertBelow]
  cases below.ret with
  | some ret => rfl
  | none => simp only; split <;> rfl

@[simp] theorem avTreeInsertBelow_nodes : (avTreeInsertBelow id elem state child side key below).tree.nodes =
      (node id elem state (Function.update child side below.tree)).nodes := by
  simp only [avTreeInsertBelow]
  cases below.ret with
  | some ret => rfl
  | none => simp only; split <;> exact rebalance_nodes _

theorem avTreeInsertBelow_same (h : (node id elem state child).Balanced)
    (hbelow : below.tree.Balanced) (hheight : below.tree.height = (child side).height) :
    (node id elem state (Function.update child side below.tree)).Balanced ∧
      (node id elem state (Function.update child side below.tree)).height =
        (node id elem state child).height := by
  obtain ⟨hstate, hlow, hhigh, _, hnot⟩ := (balanced_node side).mp h
  rw [balanced_node side, height_node side, height_node side]
  simpa [hbelow, hheight] using ⟨hstate, hlow, hhigh, hnot⟩

theorem avTreeInsertBelow_grows (h : (node id elem state child).Balanced)
    (hbelow : below.tree.Balanced) (hnext : below.next.isNode = false)
    (hgrows : Grows below.ret (child side).height below.tree.height) {r : TreeResult ν α}
    (hr : r = avTreeInsertBelow id elem state child side key below) :
    r.tree.Balanced ∧ Grows r.ret (node id elem state child).height r.tree.height := by
  simp only [avTreeInsertBelow, hnext, Bool.xor_false] at hr
  cases hret : below.ret with
  | some ret =>
      rw [hret] at hr hgrows
      subst hr
      exact avTreeInsertBelow_same h hbelow hgrows
  | none =>
      obtain ⟨hstate, hlow, hhigh, _, hnot⟩ := (balanced_node side).mp h
      rw [hret] at hr hgrows
      obtain ⟨child', hchild'⟩ : ∃ child', child' = Function.update child side below.tree := ⟨_, rfl⟩
      have hside : child' side = below.tree := by simp [hchild']
      have hother : child' (!side) = child !side := by simp [hchild']
      obtain ⟨tree, htree⟩ : ∃ tree, tree = rebalance id elem state child' side := ⟨_, rfl⟩
      simp only [Grows, Option.isNone_none, if_true] at hgrows
      obtain ⟨hbalanced, hheights⟩ := rebalance_balanced hlow hhigh
        (by rw [hside, hother]; omega) (hside ▸ hbelow) (hother ▸ hnot) htree
      simp only [← hchild', ← htree] at hr
      rw [hside, hother] at hheights
      rw [height_node side]
      by_cases hzero : tree.state = 0
      · rw [if_pos (beq_iff_eq.mpr hzero)] at hr
        subst hr
        refine ⟨hbalanced, ?_⟩
        simp only [Grows, Option.isNone_some, Bool.false_eq_true, if_false]
        omega
      · rw [if_neg (mt beq_iff_eq.mp hzero)] at hr
        subst hr
        refine ⟨hbalanced, ?_⟩
        simp only [Grows, Option.isNone_none, if_true]
        omega

theorem avTreeInsertBelow_shrinks (h : (node id elem state child).Balanced)
    (hbelow : below.tree.Balanced) (hnext : below.next.isNode = true)
    (hshrinks : Shrinks below.ret (child side).height below.tree.height) {r : TreeResult ν α}
    (hr : r = avTreeInsertBelow id elem state child side key below) :
    r.tree.Balanced ∧ Shrinks r.ret (node id elem state child).height r.tree.height := by
  simp only [avTreeInsertBelow, hnext, Bool.xor_true] at hr
  cases hret : below.ret with
  | some ret =>
      rw [hret] at hr hshrinks
      subst hr
      obtain ⟨hbalanced, hheight⟩ := avTreeInsertBelow_same h hbelow hshrinks.symm
      exact ⟨hbalanced, hheight.symm⟩
  | none =>
      obtain ⟨hstate, hlow, hhigh, _, hnot⟩ := (balanced_node side).mp h
      rw [hret] at hr hshrinks
      obtain ⟨child', hchild'⟩ : ∃ child', child' = Function.update child side below.tree := ⟨_, rfl⟩
      have hside : child' (!!side) = below.tree := by simp [hchild']
      have hother : child' (!side) = child !side := by simp [hchild']
      obtain ⟨tree, htree⟩ : ∃ tree, tree = rebalance id elem state child' !side := ⟨_, rfl⟩
      simp only [Shrinks, Option.isNone_none, if_true] at hshrinks
      obtain ⟨hbalanced, hheights⟩ := rebalance_balanced hlow hhigh
        (by rw [hside, hother, leans_not]; omega) (hother ▸ hnot) (hside ▸ hbelow) htree
      simp only [← hchild', ← htree] at hr
      rw [hside, hother] at hheights
      rw [height_node side]
      by_cases hzero : tree.state = 0
      · rw [if_neg (by simp [hzero])] at hr
        subst hr
        refine ⟨hbalanced, ?_⟩
        simp only [Shrinks, Option.isNone_none, if_true]
        omega
      · rw [if_pos (by simp [hzero])] at hr
        subst hr
        refine ⟨hbalanced, ?_⟩
        simp only [Shrinks, Option.isNone_some, Bool.false_eq_true, if_false]
        omega

end Below

variable {side : Bool} {key : α}

theorem avTreeInsert_front {next : AVTreeNode ν α} (h : 0 < cmp elem key) :
    avTreeInsert cmp (node id elem state child) key next =
      avTreeInsertBelow id elem state child false key (avTreeInsert cmp (child false) key next) := by
  rw [avTreeInsert, if_neg (by omega), decide_eq_false (by omega)]

theorem avTreeInsert_back {next : AVTreeNode ν α} (h : cmp elem key < 0) :
    avTreeInsert cmp (node id elem state child) key next =
      avTreeInsertBelow id elem state child true key (avTreeInsert cmp (child true) key next) := by
  rw [avTreeInsert, if_neg (by omega), decide_eq_true h]

inductive Insertion (cmp : α → α → Int) (t : AVTreeNode ν α) (key : α) (id : ν) (elem : α) :
    TreeResult ν α → Prop
  | present {x : α} : equal cmp key t.elems = [x] → Insertion cmp t key id elem ⟨some x, t, leaf id elem⟩
  | inserted {ret : Option α} {tree : AVTreeNode ν α} : equal cmp key t.elems = [] → tree.Balanced →
      Grows ret t.height tree.height →
      tree.elems = before cmp key t.elems ++ key :: behind cmp key t.elems →
      tree.ids.Perm (id :: t.ids) → Insertion cmp t key id elem ⟨ret, tree, null⟩

theorem ids_perm (side : Bool) :
    (node id elem state child).ids.Perm (id :: ((child side).ids ++ (child !side).ids)) := by
  rw [ids_node]
  cases side with
  | false => exact List.perm_middle
  | true => exact List.perm_middle.trans (List.Perm.cons _ List.perm_append_comm)

theorem avTreeInsertBelow_elems {below : TreeResult ν α} :
    (avTreeInsertBelow id elem state child side key below).tree.elems =
      (node id elem state (Function.update child side below.tree)).elems := by
  rw [elems, avTreeInsertBelow_nodes, elems]

theorem avTreeInsertBelow_ids {below : TreeResult ν α} :
    (avTreeInsertBelow id elem state child side key below).tree.ids.Perm
      (id :: (below.tree.ids ++ (child !side).ids)) := by
  rw [ids, avTreeInsertBelow_nodes]
  have hperm := @ids_perm _ _ id elem state (Function.update child side below.tree) side
  rwa [Function.update_self, Function.update_of_ne (by simp)] at hperm

theorem Insertion.below (hbal : (node id elem state child).Balanced) {newId : ν} {junk : α}
    {below : TreeResult ν α} (h : Insertion cmp (child side) key newId junk below)
    (hequal : equal cmp key (node id elem state child).elems = equal cmp key (child side).elems)
    (helems : ∀ tree : AVTreeNode ν α,
      tree.elems = before cmp key (child side).elems ++ key :: behind cmp key (child side).elems →
      (node id elem state (Function.update child side tree)).elems =
        before cmp key (node id elem state child).elems ++
          key :: behind cmp key (node id elem state child).elems) :
    Insertion cmp (node id elem state child) key newId junk
      (avTreeInsertBelow id elem state child side key below) := by
  cases h with
  | present hpresent =>
      rw [avTreeInsertBelow]
      simp only [Function.update_eq_self]
      exact .present (hequal.trans hpresent)
  | @inserted ret tree habsent hbalanced hgrows htree hids =>
      obtain ⟨r, hr⟩ : ∃ r, r = avTreeInsertBelow id elem state child side key ⟨ret, tree, null⟩ :=
        ⟨_, rfl⟩
      obtain ⟨hbalanced', hgrows'⟩ := avTreeInsertBelow_grows hbal hbalanced rfl hgrows hr
      have hnext : r.next = null := by rw [hr, avTreeInsertBelow_next]
      have helems' : r.tree.elems = (node id elem state (Function.update child side tree)).elems := by
        rw [hr, avTreeInsertBelow_elems]
      have hids' : r.tree.ids.Perm (id :: (tree.ids ++ (child !side).ids)) := by
        rw [hr]
        exact avTreeInsertBelow_ids
      rw [← hr, show r = ⟨r.ret, r.tree, null⟩ by rw [← hnext]]
      refine .inserted (hequal.trans habsent) hbalanced' hgrows' (helems'.trans (helems tree htree)) ?_
      -- the new node goes behind the root, and then to the front
      refine hids'.trans (((hids.append_right _).cons _).trans ?_)
      exact (List.Perm.swap _ _ _).trans ((ids_perm side).symm.cons _)

theorem avTreeInsert_insertion (hcmp : TotalCmp cmp) (t : AVTreeNode ν α) (hbal : t.Balanced)
    (hinc : Increasing cmp t.elems) (key : α) (newId : ν) (junk : α) :
    Insertion cmp t key newId junk (avTreeInsert cmp t key (leaf newId junk)) := by
  induction t with
  | null =>
      refine .inserted rfl (.node rfl (by decide) (by decide) fun _ => .null) rfl rfl ?_
      exact List.Perm.refl _
  | node id elem state child ih =>
      have hincs := increasing_node hinc
      have hbals : ∀ i, (child i).Balanced := fun i => ((balanced_node i).mp hbal).2.2.2.1
      have hnode : (leaf newId junk : AVTreeNode ν α).isNode = true := rfl
      rw [elems_node] at hinc
      by_cases hzero : cmp elem key = 0
      · obtain ⟨_, hequal, _⟩ := split_middle hcmp hinc hzero
        rw [avTreeInsert, if_pos hzero, if_pos hnode]
        exact .present (by rw [elems_node, hequal])
      · by_cases hneg : cmp elem key < 0
        · obtain ⟨hbefore, hequal, hbehind⟩ := split_back hcmp hinc hneg
          rw [avTreeInsert_back hneg]
          refine (ih true (hbals true) (hincs true)).below hbal (by rw [elems_node, hequal]) ?_
          intro tree htree
          rw [elems_node, elems_node, hbefore, hbehind, Function.update_self, htree]
          simp
        · have hpos : 0 < cmp elem key := by omega
          obtain ⟨hbefore, hequal, hbehind⟩ := split_front hcmp hinc hpos
          rw [avTreeInsert_front hpos]
          refine (ih false (hbals false) (hincs false)).below hbal (by rw [elems_node, hequal]) ?_
          intro tree htree
          rw [elems_node, elems_node, hbefore, hbehind, Function.update_self, htree]
          simp

inductive Removal (cmp : α → α → Int) (t : AVTreeNode ν α) (key : α) : TreeResult ν α → Prop
  | absent : equal cmp key t.elems = [] → Removal cmp t key ⟨some key, t, null⟩
  | removed {x : α} {ret : Option α} {tree : AVTreeNode ν α} {id : ν} {elem : α} :
      equal cmp key t.elems = [x] → tree.Balanced → Shrinks ret t.height tree.height →
      tree.elems = before cmp key t.elems ++ behind cmp key t.elems →
      t.ids.Perm (id :: tree.ids) → Removal cmp t key ⟨ret, tree, leaf id elem⟩

/-- A removal below a node, which may have got another element, is one at the node. -/
theorem Removal.below (hbal : (node id elem state child).Balanced) {key key' x : α} {elem' : α}
    {below : TreeResult ν α} (h : Removal cmp (child side) key' below)
    (hpresent : equal cmp key' (child side).elems = [x]) {y : α}
    (hequal : equal cmp key (node id elem state child).elems = [y]) (helems : ∀ tree : AVTreeNode ν α,
      tree.elems = before cmp key' (child side).elems ++ behind cmp key' (child side).elems →
      (node id elem' state (Function.update child side tree)).elems =
        before cmp key (node id elem state child).elems ++
          behind cmp key (node id elem state child).elems) : Removal cmp (node id elem state child) key
      (avTreeInsertBelow id elem' state child side key' below) := by
  cases h with
  | absent habsent =>
      rw [hpresent] at habsent
      cases habsent
  | @removed _ ret tree leafId leafElem _ hbalanced hshrinks htree hids =>
      obtain ⟨r, hr⟩ : ∃ r, r = avTreeInsertBelow id elem' state child side key'
        ⟨ret, tree, leaf leafId leafElem⟩ := ⟨_, rfl⟩
      have hbal' : (node id elem' state child).Balanced := by
        rw [balanced_node side] at hbal ⊢
        exact hbal
      obtain ⟨hbalanced', hshrinks'⟩ := avTreeInsertBelow_shrinks hbal' hbalanced rfl hshrinks hr
      have hnext : r.next = leaf leafId leafElem := by rw [hr, avTreeInsertBelow_next]
      have helems' : r.tree.elems = (node id elem' state (Function.update child side tree)).elems := by
        rw [hr, avTreeInsertBelow_elems]
      have hids' : r.tree.ids.Perm (id :: (tree.ids ++ (child !side).ids)) := by
        rw [hr]
        exact avTreeInsertBelow_ids
      rw [← hr, show r = ⟨r.ret, r.tree, leaf leafId leafElem⟩ by rw [← hnext]]
      refine .removed hequal hbalanced' hshrinks' (helems'.trans (helems tree htree)) ?_
      refine (ids_perm side).trans (((hids.append_right _).cons _).trans ?_)
      exact (List.Perm.swap _ _ _).trans (hids'.symm.cons _)

theorem Removal.through (hbal : (node id elem state child).Balanced) {below : TreeResult ν α}
    (h : Removal cmp (child side) key below)
    (hequal : equal cmp key (node id elem state child).elems = equal cmp key (child side).elems)
    (helems : ∀ tree : AVTreeNode ν α,
      tree.elems = before cmp key (child side).elems ++ behind cmp key (child side).elems →
      (node id elem state (Function.update child side tree)).elems =
        before cmp key (node id elem state child).elems ++
          behind cmp key (node id elem state child).elems) : Removal cmp (node id elem state child) key
      (avTreeInsertBelow id elem state child side key below) := by
  have hsome := h
  cases hsome with
  | absent habsent =>
      rw [avTreeInsertBelow]
      simp only [Function.update_eq_self]
      exact .absent (hequal.trans habsent)
  | removed hpresent => exact h.below hbal hpresent (hequal.trans hpresent) helems

theorem equal_cases (hcmp : TotalCmp cmp) {xs : List α} (h : Increasing cmp xs) (key : α) :
    equal cmp key xs = [] ∨ ∃ x, equal cmp key xs = [x] := by
  cases hequal : equal cmp key xs with
  | nil => exact .inl rfl
  | cons x rest =>
      refine .inr ⟨x, ?_⟩
      cases rest with
      | nil => rfl
      | cons y rest =>
          have hinc : Increasing cmp (equal cmp key xs) := h.filter _
          have hx := (mem_equal.mp (hequal ▸ List.mem_cons_self : x ∈ equal cmp key xs)).2
          have hy := (mem_equal.mp
            (hequal ▸ List.mem_cons_of_mem _ List.mem_cons_self : y ∈ equal cmp key xs)).2
          rw [hequal] at hinc
          have hlt := (List.pairwise_cons.mp hinc).1 y List.mem_cons_self
          have hback := hcmp.lt_of_lt_of_le hlt (Int.le_of_eq hy)
          omega

theorem null_of_isNode {t : AVTreeNode ν α} (h : t.isNode = false) : t = null := by
  cases t with
  | null => rfl
  | node => cases h

theorem elems_ne_nil {t : AVTreeNode ν α} (h : t.isNode = true) : t.elems ≠ [] := by
  cases t with
  | null => cases h
  | node => simp

theorem avTreeInsert_removal (hcmp : TotalCmp cmp) (t : AVTreeNode ν α) (hbal : t.Balanced)
    (hinc : Increasing cmp t.elems) (key : α) : Removal cmp t key (avTreeInsert cmp t key null) := by
  induction t generalizing key with
  | null => exact .absent rfl
  | node id elem state child ih =>
      have hincs := increasing_node hinc
      have hbals : ∀ i, (child i).Balanced := fun i => ((balanced_node i).mp hbal).2.2.2.1
      have hinc' := hinc
      rw [elems_node] at hinc'
      by_cases hzero : cmp elem key = 0
      · obtain ⟨hbefore, hequal, hbehind⟩ := split_middle hcmp hinc' hzero
        obtain ⟨_, _, hsmaller, hlarger, _⟩ := increasing_middle.mp hinc'
        rw [avTreeInsert, if_pos hzero, if_neg (by simp [isNode])]
        simp only [avTreeFind_eq hcmp key _ (hincs _), Option.map_some, Option.bind_some]
        by_cases hleft : (child false).isNode = true
        · -- the greatest smaller element takes the place of the removed one
          obtain ⟨front, last, hlast⟩ :=
            (List.eq_nil_or_concat (child false).elems).resolve_left (elems_ne_nil hleft)
          rw [List.concat_eq_append] at hlast
          have hincLast := hincs false
          rw [hlast] at hincLast
          obtain ⟨hbefore', hequal', hbehind'⟩ := split_middle hcmp hincLast (hcmp.refl last)
          have hfound : (neighbours cmp key (child false).elems (fun _ => none) false).getD elem =
              last := by
            have hall := (all_before fun x hx =>
              hcmp.lt_of_lt_of_le (hsmaller x hx) (Int.le_of_eq hzero)).1
            rw [neighbours, if_neg Bool.false_ne_true, hall, hlast, List.getLast?_concat]
            rfl
          rw [if_pos (by rw [hleft, Bool.true_or]), hleft, Bool.not_true, hfound]
          refine (ih false (hbals false) (hincs false) last).below hbal (hlast ▸ hequal')
            (by rw [elems_node, hequal]) ?_
          intro tree htree
          rw [hlast, hbefore', hbehind', List.append_nil] at htree
          rw [elems_node, elems_node, hbefore, hbehind, Function.update_self, htree, hlast]
          simp
        · rw [Bool.not_eq_true] at hleft
          by_cases hright : (child true).isNode = true
          · -- there is no smaller element: the least greater one does
            obtain ⟨first, back, hfirst⟩ := List.exists_cons_of_ne_nil (elems_ne_nil hright)
            have hincFirst : Increasing cmp ([] ++ first :: back) := hfirst ▸ hincs true
            obtain ⟨hbefore', hequal', hbehind'⟩ := split_middle hcmp hincFirst (hcmp.refl first)
            rw [List.nil_append] at hbefore' hequal' hbehind'
            have hfound : (neighbours cmp key (child true).elems (fun _ => none) true).getD elem =
                first := by
              have hall := (all_behind fun x hx => (hcmp.swap key x).mp
                (hcmp.lt_of_le_of_lt (Int.le_of_eq (hcmp.symm hzero)) (hlarger x hx))).2.2
              rw [neighbours, if_pos rfl, hall, hfirst]
              rfl
            rw [if_pos (by rw [hright, Bool.or_true]), hleft, Bool.not_false, hfound]
            refine (ih true (hbals true) (hincs true) first).below hbal (hfirst ▸ hequal')
              (by rw [elems_node, hequal]) ?_
            intro tree htree
            rw [hfirst, hbefore', hbehind', List.nil_append] at htree
            rw [elems_node, elems_node, hbefore, hbehind, Function.update_self, htree, hfirst,
              Function.update_of_ne Bool.false_ne_true, null_of_isNode hleft]
          · rw [Bool.not_eq_true] at hright
            have hnull : child = fun _ => null := by
              funext i
              cases i with
              | false => exact null_of_isNode hleft
              | true => exact null_of_isNode hright
            subst hnull
            have hstate := ((balanced_node true).mp hbal).1
            obtain rfl : state = 0 := by simpa [leans, toward, height] using hstate
            refine .removed (by rw [elems_node, hequal]) .null rfl ?_ (List.Perm.refl _)
            rw [elems_node, hbefore, hbehind]
            rfl
      · by_cases hneg : cmp elem key < 0
        · obtain ⟨hbefore, hequal, hbehind⟩ := split_back hcmp hinc' hneg
          rw [avTreeInsert_back hneg]
          refine (ih true (hbals true) (hincs true) key).through hbal (by rw [elems_node, hequal]) ?_
          intro tree htree
          rw [elems_node, elems_node, hbefore, hbehind, Function.update_self, htree]
          simp
        · have hpos : 0 < cmp elem key := by omega
          obtain ⟨hbefore, hequal, hbehind⟩ := split_front hcmp hinc' hpos
          rw [avTreeInsert_front hpos]
          refine (ih false (hbals false) (hincs false) key).through hbal (by rw [elems_node, hequal]) ?_
          intro tree htree
          rw [elems_node, elems_node, hbefore, hbehind, Function.update_self, htree]
          simp

end P2PFFmpeg.Util
