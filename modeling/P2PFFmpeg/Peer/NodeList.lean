import P2PFFmpeg.Library.HeapList
import P2PFFmpeg.Peer.Invariant

namespace P2PFFmpeg.Peer.NodeList

open Library Library.HeapList Library.CellMemory

variable {α κ : Type} [DecidableEq κ]

/-- Each loop is cut after fuel cells: none is a read of freed memory or a list without end. -/
def findLoop (key : α → Option κ) (k : κ) (heap : Ptr → Option (Cell α)) :
    Nat → Option Ptr → Option (Option Ptr)
  | _, none => some none
  | 0, some _ => none
  | fuel + 1, some p =>
      (heap p).bind fun c => if key c.item = some k then some (some p) else findLoop key k heap fuel c.next

def removeLoop (key : α → Option κ) (k : κ) (m : CellMemory α) :
    Nat → Option Ptr → Option Ptr → Option (CellMemory α)
  | _, _, none => some m
  | 0, _, some _ => none
  | fuel + 1, prev, some p =>
      (m.heap p).bind fun c =>
        if key c.item = some k then (m.setLink c.next prev).map fun m' => m'.free p
        else removeLoop key k m fuel (some p) c.next

def tailLoop (heap : Ptr → Option (Cell α)) : Nat → Ptr → Option Ptr
  | 0, _ => none
  | fuel + 1, p =>
      (heap p).bind fun c =>
        match c.next with
        | none => some p
        | some q => tailLoop heap fuel q

/-- No key is a remote id that is NULL. -/
def findInList (key : α → Option κ) (fuel : Nat) (m : CellMemory α) : Option κ → Option (Option Ptr)
  | none => some none
  | some k => findLoop key k m.heap fuel m.head

def removeFromList (key : α → Option κ) (fuel : Nat) (m : CellMemory α) :
    Option κ → Option (CellMemory α × Int)
  | none => some (m, averrorInvaliddata)
  | some k => (removeLoop key k m fuel none m.head).map fun m' => (m', 0)

def linkAtTail (fuel : Nat) (m : CellMemory α) (p : Ptr) : Option (CellMemory α × Int) :=
  match m.head with
  | none => some ({ m with head := some p }, 0)
  | some h => (tailLoop m.heap fuel h).bind fun tail => (m.setNext tail (some p)).map fun m' => (m', 0)

def appendToList (key : α → Option κ) (fuel : Nat) (m : CellMemory α) :
    Option Ptr → Option (CellMemory α × Int)
  | none => some (m, averrorInvaliddata)
  | some p =>
      (m.heap p).bind fun c =>
        (findInList key fuel m (key c.item)).bind fun found =>
          if found.isSome then
            (removeFromList key fuel m (key c.item)).bind fun r =>
              if r.2 ≠ 0 then some r else linkAtTail fuel r.1 p
          else linkAtTail fuel m p

def findPeerConnectionNodeByRemoteId :
    Nat → CellMemory PeerConnectionNode → Option String → Option (Option Ptr) :=
  findInList PeerConnectionNode.remoteId

def removePeerConnectionNodeFromList :
    Nat → CellMemory PeerConnectionNode → Option String → Option (CellMemory PeerConnectionNode × Int) :=
  removeFromList PeerConnectionNode.remoteId

def appendPeerConnectionNodeToList :
    Nat → CellMemory PeerConnectionNode → Option Ptr → Option (CellMemory PeerConnectionNode × Int) :=
  appendToList PeerConnectionNode.remoteId

def trackKey (track : PeerConnectionTrack) : Option Int := some track.trackId

def findPeerConnectionTrackByTrackId :
    Nat → CellMemory PeerConnectionTrack → Option Int → Option (Option Ptr) :=
  findInList trackKey

def removePeerConnectionTrackFromList :
    Nat → CellMemory PeerConnectionTrack → Option Int → Option (CellMemory PeerConnectionTrack × Int) :=
  removeFromList trackKey

def appendPeerConnectionTrackToList :
    Nat → CellMemory PeerConnectionTrack → Option Ptr → Option (CellMemory PeerConnectionTrack × Int) :=
  appendToList trackKey

def keyed (key : α → Option κ) (k : κ) (c : Ptr × α) : Bool := decide (key c.2 = some k)

def others (key : α → Option κ) (k : Option κ) (cells : List (Ptr × α)) : List (Ptr × α) :=
  match k with
  | none => cells
  | some k => cells.filter fun c => !keyed key k c

def Distinct (key : α → Option κ) (cells : List (Ptr × α)) : Prop :=
  cells.Pairwise fun c d => ∀ k, key c.2 = some k → key d.2 ≠ some k

section Loops

variable {key : α → Option κ} {k : κ} {m : CellMemory α} {heap : Ptr → Option (Cell α)}
  {start : Option Ptr} {cells front back : List (Ptr × α)} {fuel : Nat} {p : Ptr} {a : α}

theorem findLoop_chain (h : Chain heap start cells) (hfuel : cells.length ≤ fuel) :
    findLoop key k heap fuel start = some ((cells.find? (keyed key k)).map Prod.fst) := by
  induction cells generalizing start fuel with
  | nil =>
      rw [show start = none from h]
      cases fuel <;> rfl
  | cons c cells ih =>
      obtain ⟨rfl, next, hcell, hrest⟩ := h
      obtain ⟨fuel, rfl⟩ := Nat.exists_eq_succ_of_ne_zero (Nat.ne_of_gt (Nat.lt_of_lt_of_le (Nat.succ_pos _) hfuel))
      rw [findLoop, hcell, Option.bind_some, List.find?_cons]
      by_cases hk : key c.2 = some k
      · simp [keyed, hk]
      · rw [if_neg hk, ih hrest (Nat.le_of_succ_le_succ hfuel)]
        simp [keyed, hk]

theorem tailLoop_chain (h : Chain heap (some p) cells) (hfuel : cells.length ≤ fuel) :
    tailLoop heap fuel p = lastAddr cells := by
  induction cells generalizing p fuel with
  | nil => exact absurd h (Option.some_ne_none p)
  | cons c cells ih =>
      obtain ⟨hp, next, hcell, hrest⟩ := h
      obtain rfl := Option.some.inj hp
      obtain ⟨fuel, rfl⟩ := Nat.exists_eq_succ_of_ne_zero (Nat.ne_of_gt (Nat.lt_of_lt_of_le (Nat.succ_pos _) hfuel))
      rw [tailLoop, hcell, Option.bind_some]
      cases cells with
      | nil =>
          rw [show next = none from hrest]
          rfl
      | cons d cells =>
          obtain rfl := hrest.1
          exact ih hrest (Nat.le_of_succ_le_succ hfuel)

theorem removeLoop_chain (h : Chain m.heap m.head (front ++ back)) (hnodup : (addrs (front ++ back)).Nodup)
    (hback : Chain m.heap start back) (hfuel : back.length ≤ fuel) :
    ∃ m', removeLoop key k m fuel (lastAddr front) start = some m' ∧
      Chain m'.heap m'.head (front ++ back.eraseP (keyed key k)) ∧
      ∀ p, p ∉ addrs (front ++ back) → m'.heap p = m.heap p := by
  induction back generalizing front start fuel with
  | nil =>
      rw [show start = none from hback]
      refine ⟨m, ?_, h, fun _ _ => rfl⟩
      cases fuel <;> rfl
  | cons c back ih =>
      obtain ⟨rfl, next, hcell, hrest⟩ := hback
      obtain ⟨fuel, rfl⟩ := Nat.exists_eq_succ_of_ne_zero (Nat.ne_of_gt (Nat.lt_of_lt_of_le (Nat.succ_pos _) hfuel))
      rw [removeLoop, hcell, Option.bind_some]
      by_cases hk : key c.2 = some k
      · have hapart := hnodup
        simp only [addrs, List.map_append, List.map_cons, List.nodup_append, List.nodup_cons] at hapart
        obtain ⟨hfront, ⟨hc, _⟩, hdisjoint⟩ := hapart
        obtain ⟨m', hset, hchain, hsame⟩ := setLink_chain h hfront hrest
          fun p hp hp' => hdisjoint p hp p (List.mem_cons_of_mem _ hp') rfl
        have hfreed : c.1 ∉ addrs (front ++ back) := by
          simp only [addrs, List.map_append, List.mem_append, not_or]
          exact ⟨fun hp => hdisjoint c.1 hp c.1 List.mem_cons_self rfl, hc⟩
        refine ⟨m'.free c.1, ?_, ?_, ?_⟩
        · rw [if_pos hk, hset, Option.map_some]
        · rw [List.eraseP_cons_of_pos (by simp [keyed, hk])]
          apply hchain.congr
          intro p hp
          apply Function.update_of_ne
          rintro rfl
          exact hfreed hp
        · intro p hp
          simp only [addrs, List.map_append, List.map_cons, List.mem_append, List.mem_cons, not_or] at hp
          rw [show (m'.free c.1).heap p = m'.heap p from Function.update_of_ne hp.2.1 _ _, hsame p hp.1]
      · have hsplit : ∀ l, front ++ c :: l = (front ++ [c]) ++ l := List.append_cons front c
        rw [if_neg hk, List.eraseP_cons_of_neg (by simp [keyed, hk]), ← lastAddr_snoc front c,
          hsplit (back.eraseP (keyed key k)), hsplit back]
        rw [hsplit back] at h hnodup
        exact ih h hnodup hrest (Nat.le_of_succ_le_succ hfuel)

theorem findInList_lists (h : m.Lists cells) (hfuel : cells.length ≤ fuel) :
    findInList key fuel m (some k) = some ((cells.find? (keyed key k)).map Prod.fst) :=
  findLoop_chain h.chain hfuel

theorem eraseP_keyed (h : Distinct key cells) : cells.eraseP (keyed key k) = others key (some k) cells := by
  induction cells with
  | nil => rfl
  | cons c cells ih =>
      obtain ⟨hc, hrest⟩ := List.pairwise_cons.mp h
      by_cases hk : key c.2 = some k
      · have hkept : ∀ d ∈ cells, (!keyed key k d) = true := by
          intro d hd
          simpa [keyed] using hc d hd k hk
        rw [List.eraseP_cons_of_pos (by simp [keyed, hk]), others,
          List.filter_cons_of_neg (by simp [keyed, hk]), List.filter_eq_self.mpr hkept]
      · rw [List.eraseP_cons_of_neg (by simp [keyed, hk]), ih hrest, others, others,
          List.filter_cons_of_pos (by simp [keyed, hk])]

theorem others_sublist (key : α → Option κ) (k : Option κ) (cells : List (Ptr × α)) :
    (others key k cells).Sublist cells := by
  cases k with
  | none => exact List.Sublist.refl _
  | some k => exact List.filter_sublist

theorem Distinct.others (h : Distinct key cells) (k : Option κ) : Distinct key (others key k cells) :=
  h.sublist (others_sublist key k cells)

theorem Distinct.snoc (h : Distinct key cells) (p : Ptr) (a : α) :
    Distinct key (NodeList.others key (key a) cells ++ [(p, a)]) := by
  refine List.pairwise_append.mpr ⟨h.others _, List.pairwise_singleton .., ?_⟩
  intro c hc d hd k hck hdk
  rw [List.mem_singleton.mp hd] at hdk
  change key a = some k at hdk
  rw [hdk, NodeList.others, List.mem_filter] at hc
  simp [keyed, hck] at hc

theorem removeFromList_eraseP (h : m.Lists cells) (hfuel : cells.length ≤ fuel) (k : κ) :
    ∃ m', removeFromList key fuel m (some k) = some (m', 0) ∧
      m'.Lists (cells.eraseP (keyed key k)) ∧ ∀ p, p ∉ addrs cells → m'.heap p = m.heap p := by
  obtain ⟨m', hrun, hchain, hsame⟩ :=
    @removeLoop_chain α κ _ key k m m.head [] cells fuel h.chain h.nodup h.chain hfuel
  refine ⟨m', ?_, ⟨hchain, h.nodup.sublist (List.eraseP_sublist.map _)⟩, hsame⟩
  change (removeLoop key k m fuel (lastAddr ([] : List (Ptr × α))) m.head).map _ = _
  rw [hrun, Option.map_some]

theorem removeFromList_lists (h : m.Lists cells) (hdistinct : Distinct key cells)
    (hfuel : cells.length ≤ fuel) (k : κ) :
    ∃ m', removeFromList key fuel m (some k) = some (m', 0) ∧ m'.Lists (others key (some k) cells) ∧
      ∀ p, p ∉ addrs cells → m'.heap p = m.heap p := by
  rw [← eraseP_keyed hdistinct]
  exact removeFromList_eraseP h hfuel k

theorem linkAtTail_lists (h : m.Lists cells) (hfuel : cells.length ≤ fuel)
    (hnew : m.heap p = some ⟨a, none⟩) (hp : p ∉ addrs cells) :
    ∃ m', linkAtTail fuel m p = some (m', 0) ∧ m'.Lists (cells ++ [(p, a)]) := by
  have hsingle : Chain m.heap (some p) [(p, a)] := ⟨rfl, none, hnew, rfl⟩
  have hdisjoint : ∀ q ∈ addrs cells, q ∉ addrs [(p, a)] := by
    intro q hq hmem
    obtain rfl : q = p := by simpa [addrs] using hmem
    exact hp hq
  have hnodup : (addrs (cells ++ [(p, a)])).Nodup := by
    rw [addrs, List.map_append, List.nodup_append]
    refine ⟨h.nodup, List.nodup_singleton _, ?_⟩
    rintro q hq r hr rfl
    exact hdisjoint q hq hr
  obtain ⟨m', hset, hchain, _⟩ := @setLink_chain α m cells [] [(p, a)] (some p)
    (by rw [List.append_nil]; exact h.chain) h.nodup hsingle hdisjoint
  refine ⟨m', ?_, hchain, hnodup⟩
  unfold linkAtTail
  cases hhead : m.head with
  | none =>
      have hempty : cells = [] := by
        cases cells with
        | nil => rfl
        | cons c cells => exact absurd (hhead.symm.trans h.chain.1).symm (Option.some_ne_none _)
      subst hempty
      rw [← Option.some.inj hset]
  | some q =>
      have htail := tailLoop_chain (hhead ▸ h.chain) hfuel
      have hlast : ∃ r, lastAddr cells = some r := by
        rcases List.eq_nil_or_concat' cells with rfl | ⟨front, c, rfl⟩
        · exact absurd (hhead.symm.trans h.chain) (Option.some_ne_none q)
        · exact ⟨c.1, lastAddr_snoc front c⟩
      obtain ⟨r, hr⟩ := hlast
      rw [hr] at htail hset
      change m.setNext r (some p) = some m' at hset
      change ((tailLoop m.heap fuel q).bind fun tail => (m.setNext tail (some p)).map fun m' => (m', 0)) = _
      rw [htail, Option.bind_some, hset, Option.map_some]

theorem others_of_find_none {k : Option κ}
    (h : ∀ j, k = some j → cells.find? (keyed key j) = none) : others key k cells = cells := by
  cases k with
  | none => rfl
  | some k =>
      refine List.filter_eq_self.mpr fun c hc => ?_
      simpa using List.find?_eq_none.mp (h k rfl) c hc

theorem appendToList_lists (h : m.Lists cells) (hdistinct : Distinct key cells)
    (hfuel : cells.length ≤ fuel) (hnew : m.heap p = some ⟨a, none⟩) (hp : p ∉ addrs cells) :
    ∃ m', appendToList key fuel m (some p) = some (m', 0) ∧
      m'.Lists (others key (key a) cells ++ [(p, a)]) := by
  have hunfold : appendToList key fuel m (some p) =
      (findInList key fuel m (key a)).bind fun found =>
        if found.isSome then
          (removeFromList key fuel m (key a)).bind fun r =>
            if r.2 ≠ 0 then some r else linkAtTail fuel r.1 p
        else linkAtTail fuel m p := by
    rw [appendToList, hnew, Option.bind_some]
  rw [hunfold]
  cases hk : key a with
  | none => exact linkAtTail_lists h hfuel hnew hp
  | some k =>
      rw [findInList_lists h hfuel, Option.bind_some]
      cases hfind : cells.find? (keyed key k) with
      | none =>
          have hothers : others key (some k) cells = cells :=
            others_of_find_none fun j hj => (Option.some.inj hj) ▸ hfind
          rw [hothers]
          exact linkAtTail_lists h hfuel hnew hp
      | some c =>
          obtain ⟨m', hremove, hlists, hsame⟩ := removeFromList_lists h hdistinct hfuel k
          have hsublist := others_sublist key (some k) cells
          rw [Option.map_some, Option.isSome_some, if_pos rfl, hremove, Option.bind_some,
            if_neg (not_not.mpr rfl)]
          apply linkAtTail_lists hlists (hsublist.length_le.trans hfuel)
          · rw [hsame p hp, hnew]
          · exact fun hmem => hp ((hsublist.map Prod.fst).subset hmem)

end Loops

section Runs

inductive ListOp (α κ : Type)
  | append (p : Ptr) (a : α)
  | remove (k : Option κ)

inductive Built (key : α → Option κ) (fuel : Nat) : List (ListOp α κ) → CellMemory α → Prop
  | empty (heap : Ptr → Option (Cell α)) : Built key fuel [] ⟨heap, none⟩
  | append {ops m m' ret} (h : Built key fuel ops m) (p : Ptr) (a : α) (hp : m.heap p = none)
      (hrun : appendToList key fuel (m.malloc p a) (some p) = some (m', ret)) :
      Built key fuel (.append p a :: ops) m'
  | remove {ops m m' ret} (h : Built key fuel ops m) (k : Option κ)
      (hrun : removeFromList key fuel m k = some (m', ret)) : Built key fuel (.remove k :: ops) m'

def latest (key : α → Option κ) (k : κ) : List (ListOp α κ) → Option Ptr
  | [] => none
  | .append p a :: older => if key a = some k then some p else latest key k older
  | .remove j :: older => if j = some k then none else latest key k older

def linked (key : α → Option κ) : List (ListOp α κ) → List (Ptr × α)
  | [] => []
  | .append p a :: older => others key (key a) (linked key older) ++ [(p, a)]
  | .remove k :: older => others key k (linked key older)

variable {key : α → Option κ} {k : κ} {m : CellMemory α} {ops : List (ListOp α κ)} {fuel : Nat}

theorem linked_distinct (key : α → Option κ) (ops : List (ListOp α κ)) : Distinct key (linked key ops) := by
  induction ops with
  | nil => exact List.Pairwise.nil
  | cons op ops ih =>
      cases op with
      | append p a => exact ih.snoc p a
      | remove k => exact ih.others k

theorem linked_length (key : α → Option κ) (ops : List (ListOp α κ)) :
    (linked key ops).length ≤ ops.length := by
  induction ops with
  | nil => exact Nat.le_refl 0
  | cons op ops ih =>
      cases op with
      | append p a =>
          have hothers := (others_sublist key (key a) (linked key ops)).length_le
          simp only [linked, List.length_append, List.length_cons, List.length_nil]
          omega
      | remove k =>
          have hothers := (others_sublist key k (linked key ops)).length_le
          simp only [linked, List.length_cons]
          omega

theorem find_others (k : κ) (j : Option κ) (cells : List (Ptr × α)) :
    (others key j cells).find? (keyed key k) =
      if j = some k then none else cells.find? (keyed key k) := by
  cases j with
  | none => rw [if_neg (Option.some_ne_none k).symm, others]
  | some j =>
      rw [others, List.find?_filter]
      split
      · next hj =>
          obtain rfl := Option.some.inj hj
          exact List.find?_eq_none.mpr fun c _ => by simp
      · next hj =>
          congr 1
          funext c
          by_cases hk : key c.2 = some k
          · simp [keyed, hk, Ne.symm hj]
          · simp [keyed, hk]

theorem find_linked (k : κ) (ops : List (ListOp α κ)) :
    ((linked key ops).find? (keyed key k)).map Prod.fst = latest key k ops := by
  induction ops with
  | nil => rfl
  | cons op ops ih =>
      cases op with
      | append p a =>
          rw [linked, List.find?_append, find_others, latest, List.find?_singleton]
          by_cases hk : key a = some k
          · simp [keyed, hk]
          · simp only [keyed, hk, if_false, decide_false, Bool.false_eq_true, Option.or_none]
            exact ih
      | remove j =>
          rw [linked, find_others, latest]
          split
          · rfl
          · exact ih

theorem Built.lists (h : Built key fuel ops m) (hfuel : ops.length ≤ fuel) : m.Lists (linked key ops) := by
  induction h with
  | empty heap => exact ⟨rfl, List.nodup_nil⟩
  | @append ops m m' ret _ p a hp hrun ih =>
      have hops : ops.length ≤ fuel := Nat.le_of_succ_le hfuel
      obtain ⟨hlists, hfresh, hnew⟩ := (ih hops).malloc hp
      obtain ⟨m'', hres, hafter⟩ := appendToList_lists hlists (linked_distinct key ops)
        ((linked_length key ops).trans hops) hnew hfresh
      have heq : m'' = m' := congrArg Prod.fst (Option.some.inj (hres.symm.trans hrun))
      exact heq ▸ hafter
  | @remove ops m m' ret _ k hrun ih =>
      have hops : ops.length ≤ fuel := Nat.le_of_succ_le hfuel
      cases k with
      | none =>
          have heq : m = m' := congrArg Prod.fst (Option.some.inj hrun)
          exact heq ▸ ih hops
      | some k =>
          obtain ⟨m'', hres, hafter, _⟩ := removeFromList_lists (ih hops) (linked_distinct key ops)
            ((linked_length key ops).trans hops) k
          have heq : m'' = m' := congrArg Prod.fst (Option.some.inj (hres.symm.trans hrun))
          exact heq ▸ hafter

end Runs

/-- What the three operations of a list owe to each other. -/
structure Disciplined (key : α → Option κ) (find : Nat → CellMemory α → Option κ → Option (Option Ptr))
    (remove : Nat → CellMemory α → Option κ → Option (CellMemory α × Int))
    (append : Nat → CellMemory α → Option Ptr → Option (CellMemory α × Int)) : Prop where
  appended : ∀ (fuel : Nat) (m : CellMemory α) (cells : List (Ptr × α)) (p : Ptr) (a : α),
    m.Lists cells → Distinct key cells → m.heap p = some ⟨a, none⟩ → p ∉ addrs cells →
    cells.length ≤ fuel →
    ∃ m', append fuel m (some p) = some (m', 0) ∧ m'.Lists (others key (key a) cells ++ [(p, a)]) ∧
      Distinct key (others key (key a) cells ++ [(p, a)])
  goesOn : ∀ (fuel : Nat) (ops : List (ListOp α κ)) (m : CellMemory α), Built key fuel ops m →
    ops.length ≤ fuel →
    (∀ p a, m.heap p = none → ∃ m', append fuel (m.malloc p a) (some p) = some (m', 0)) ∧
    ∀ k, ∃ m', remove fuel m (some k) = some (m', 0)
  found : ∀ (fuel : Nat) (ops : List (ListOp α κ)) (m : CellMemory α), Built key fuel ops m →
    ops.length ≤ fuel → ∀ k, find fuel m (some k) = some (latest key k ops)

theorem disciplined (key : α → Option κ) :
    Disciplined key (findInList key) (removeFromList key) (appendToList key) where
  appended := by
    intro fuel m cells p a hlists hdistinct hnew hp hfuel
    obtain ⟨m', hrun, hafter⟩ := appendToList_lists hlists hdistinct hfuel hnew hp
    exact ⟨m', hrun, hafter, hdistinct.snoc p a⟩
  goesOn := by
    intro fuel ops m hbuilt hfuel
    have hlists := hbuilt.lists hfuel
    have hlength := (linked_length key ops).trans hfuel
    constructor
    · intro p a hp
      obtain ⟨hmalloc, hfresh, hnew⟩ := hlists.malloc hp
      obtain ⟨m', hrun, _⟩ :=
        appendToList_lists hmalloc (linked_distinct key ops) hlength hnew hfresh
      exact ⟨m', hrun⟩
    · intro k
      obtain ⟨m', hrun, _⟩ := removeFromList_lists hlists (linked_distinct key ops) hlength k
      exact ⟨m', hrun⟩
  found := by
    intro fuel ops m hbuilt hfuel k
    rw [findInList_lists (hbuilt.lists hfuel) ((linked_length key ops).trans hfuel), find_linked]

/-- Both lists are disciplined; a node without a remote id has no key there. -/
theorem peer_lists_disciplined :
    Disciplined PeerConnectionNode.remoteId findPeerConnectionNodeByRemoteId
        removePeerConnectionNodeFromList appendPeerConnectionNodeToList ∧
      Disciplined trackKey findPeerConnectionTrackByTrackId removePeerConnectionTrackFromList
        appendPeerConnectionTrackToList :=
  ⟨disciplined _, disciplined _⟩

/-- Of three nodes, the last one takes the place of the first and the second is removed; one of
two tracks is replaced by a new one with its id. -/
theorem peer_lists_disciplined_replaced :
    (∃ m, Built PeerConnectionNode.remoteId 4 [.remove (some "b"), .append 2 (newNode (some "a") 3),
        .append 1 (newNode (some "b") 2), .append 0 (newNode (some "a") 1)] m ∧
      findPeerConnectionNodeByRemoteId 4 m (some "a") = some (some 2) ∧
      findPeerConnectionNodeByRemoteId 4 m (some "b") = some none ∧
      ∃ m', appendPeerConnectionNodeToList 4 (m.malloc 3 (newNode (some "c") 4)) (some 3) = some (m', 0)) ∧
    ∃ m m', appendPeerConnectionTrackToList 2 m (some 2) = some (m', 0) ∧
      m'.Lists [(1, ⟨1, .audio, 8⟩), (2, ⟨2, .video, 7⟩)] := by
  obtain ⟨hnodes, htracks⟩ := peer_lists_disciplined
  have hfirst : Built PeerConnectionNode.remoteId 4 [.append 0 (newNode (some "a") 1)] _ :=
    .append (.empty fun _ => none) 0 _ rfl rfl
  have hsecond := hfirst.append 1 (newNode (some "b") 2) rfl rfl
  have hthird := hsecond.append 2 (newNode (some "a") 3) rfl rfl
  have hlast := hthird.remove (some "b") rfl
  refine ⟨⟨_, hlast, ?_, ?_, ?_⟩, ?_⟩
  · exact hnodes.found 4 _ _ hlast (by decide) "a"
  · exact hnodes.found 4 _ _ hlast (by decide) "b"
  · exact (hnodes.goesOn 4 _ _ hlast (by decide)).1 3 (newNode (some "c") 4) rfl
  · let heap : Ptr → Option (Cell PeerConnectionTrack) := fun p =>
      if p = 0 then some ⟨⟨0, .video, 7⟩, some 1⟩ else if p = 1 then some ⟨⟨1, .audio, 8⟩, none⟩
      else if p = 2 then some ⟨⟨2, .video, 7⟩, none⟩ else none
    have hlists : CellMemory.Lists ⟨heap, some 0⟩ [(0, ⟨0, .video, 7⟩), (1, ⟨1, .audio, 8⟩)] :=
      ⟨⟨rfl, some 1, rfl, rfl, none, rfl, rfl⟩, by decide⟩
    obtain ⟨m', hrun, hafter, -⟩ := htracks.appended 2 ⟨heap, some 0⟩ _ 2 ⟨2, .video, 7⟩ hlists
      (by simp [Distinct, trackKey]) rfl (by decide) (by decide)
    exact ⟨_, m', hrun, hafter⟩

/-- Two nodes without a remote id stay beside each other, and no search finds them. -/
theorem null_ids_repeat :
    ∃ (m m' : CellMemory PeerConnectionNode) (cells : List (Ptr × PeerConnectionNode))
      (new : Ptr × PeerConnectionNode),
      m.Lists cells ∧ (cells.map fun c => c.2.remoteId).Nodup ∧ m.heap new.1 = some ⟨new.2, none⟩ ∧
      new.1 ∉ addrs cells ∧ appendPeerConnectionNodeToList 1 m (some new.1) = some (m', 0) ∧
      m'.Lists (cells ++ [new]) ∧ ¬ ((cells ++ [new]).map fun c => c.2.remoteId).Nodup ∧
      findPeerConnectionNodeByRemoteId 2 m' none = some none := by
  have hone : (CellMemory.malloc ⟨fun _ => none, some 0⟩ 0 (newNode none 1)).Lists [(0, newNode none 1)] :=
    ⟨⟨rfl, none, rfl, rfl⟩, List.nodup_singleton _⟩
  obtain ⟨hlists, hfresh, hnew⟩ := @Lists.malloc _ _ _ 1 (newNode none 2) hone rfl
  obtain ⟨m', hrun, hafter⟩ := @appendToList_lists _ _ _ PeerConnectionNode.remoteId _ _ 1 1 _ hlists
    (List.pairwise_singleton _ _) (Nat.le_refl 1) hnew hfresh
  refine ⟨_, m', _, (1, newNode none 2), hlists, List.nodup_singleton _, hnew, hfresh, hrun, hafter, ?_, rfl⟩
  simp [newNode]

end P2PFFmpeg.Peer.NodeList
