import P2PFFmpeg.Library.Comparison
import Mathlib.Logic.Function.Basic

namespace P2PFFmpeg.Util

open Library

/-- A tree by its root node; `id` tells the nodes apart, and `child` is the array
of the two children, with `false` for index 0. -/
inductive AVTreeNode (ν α : Type) where
  | null
  | node (id : ν) (elem : α) (state : Int) (child : Bool → AVTreeNode ν α)

namespace AVTreeNode

variable {ν α : Type}

def isNode : AVTreeNode ν α → Bool
  | null => false
  | node .. => true

def state : AVTreeNode ν α → Int
  | null => 0
  | node _ _ state _ => state

def leaf (id : ν) (elem : α) : AVTreeNode ν α := node id elem 0 fun _ => null

def nodes : AVTreeNode ν α → List (ν × α)
  | null => []
  | node id elem _ child => nodes (child false) ++ (id, elem) :: nodes (child true)

def elems (t : AVTreeNode ν α) : List α := t.nodes.map Prod.snd

def ids (t : AVTreeNode ν α) : List ν := t.nodes.map Prod.fst

def height : AVTreeNode ν α → Nat
  | null => 0
  | node _ _ _ child => max (height (child false)) (height (child true)) + 1

inductive Balanced : AVTreeNode ν α → Prop
  | null : Balanced null
  | node {id : ν} {elem : α} {state : Int} {child : Bool → AVTreeNode ν α} :
      state = (child true).height - (child false).height → -1 ≤ state → state ≤ 1 →
      (∀ i, Balanced (child i)) → Balanced (node id elem state child)

inductive Ordered (cmp : α → α → Int) : AVTreeNode ν α → Prop
  | null : Ordered cmp null
  | node {id : ν} {elem : α} {state : Int} {child : Bool → AVTreeNode ν α} :
      (∀ x ∈ (child false).elems, cmp x elem < 0) → (∀ x ∈ (child true).elems, cmp elem x < 0) →
      (∀ i, Ordered cmp (child i)) → Ordered cmp (node id elem state child)

end AVTreeNode

open AVTreeNode

variable {ν α : Type}

/-- `next` is the array of the two neighbours, if one is given. -/
def avTreeFind (cmp : α → α → Int) (key : α) :
    AVTreeNode ν α → Option (Bool → Option α) → Option α × Option (Bool → Option α)
  | .null, next => (none, next)
  | .node _ elem _ child, next =>
      let v := cmp key elem
      if v ≠ 0 then
        avTreeFind cmp key (child (!decide (v < 0)))
          (next.map fun n => Function.update n (decide (v < 0)) (some elem))
      else
        match next with
        | none => (some elem, none)
        | some n =>
            let left := avTreeFind cmp key (child false) (some n)
            (some elem, (avTreeFind cmp key (child true) left.2).2)

def toward (i : Bool) : Int := if i then 1 else -1

def rotateTwice (id : ν) (elem : α) (child : Bool → AVTreeNode ν α) (i : Bool) (childId : ν)
    (childElem : α) (grandchild : Bool → AVTreeNode ν α) (topId : ν) (topElem : α) (topState : Int)
    (rest : Bool → AVTreeNode ν α) : AVTreeNode ν α :=
  let below (j : Bool) : Int :=
    if j then (if topState < 0 then 1 else 0) else (if topState > 0 then -1 else 0)
  .node topId topElem 0 (Function.update
    (fun _ => .node childId childElem (below i) (Function.update grandchild (!i) (rest i)))
    (!i) (.node id elem (below !i) (Function.update child i (rest !i))))

def rotateOnce (id : ν) (elem : α) (state : Int) (child : Bool → AVTreeNode ν α) (i : Bool)
    (childId : ν) (childElem : α) (childState : Int) (grandchild : Bool → AVTreeNode ν α) :
    AVTreeNode ν α :=
  let outer := if childState ≠ 0 then 0 else state / 2
  .node childId childElem (-outer)
    (Function.update grandchild (!i) (.node id elem outer (Function.update child i (grandchild !i))))

/-- The end of av_tree_insert at a node below which the height has changed, where
`i` is the side that is higher now than it was before. -/
def rebalance (id : ν) (elem : α) (state : Int) (child : Bool → AVTreeNode ν α) (i : Bool) :
    AVTreeNode ν α :=
  let state := state + toward i
  if state % 2 = 0 ∧ state ≠ 0 then
    match child i with
    | .null => .node id elem state child
    | .node childId childElem childState grandchild =>
        if childState * 2 = -state then
          match grandchild (!i) with
          | .null => .node id elem state child
          | .node topId topElem topState rest =>
              rotateTwice id elem child i childId childElem grandchild topId topElem topState rest
        else rotateOnce id elem state child i childId childElem childState grandchild
  else .node id elem state child

/-- What av_tree_insert returns, the tree, and what is left in `next`. -/
structure TreeResult (ν α : Type) where
  ret : Option α
  tree : AVTreeNode ν α
  next : AVTreeNode ν α

def avTreeInsertBelow (id : ν) (elem : α) (state : Int) (child : Bool → AVTreeNode ν α) (side : Bool)
    (key : α) (below : TreeResult ν α) : TreeResult ν α :=
  let child := Function.update child side below.tree
  match below.ret with
  | some ret => ⟨some ret, .node id elem state child, below.next⟩
  | none =>
      let tree := rebalance id elem state child (side ^^ below.next.isNode)
      if (tree.state == 0) ^^ below.next.isNode then ⟨some key, tree, below.next⟩
      else ⟨none, tree, below.next⟩

def avTreeInsert (cmp : α → α → Int) :
    AVTreeNode ν α → α → AVTreeNode ν α → TreeResult ν α
  | .null, key, next =>
      match next with
      | .null => ⟨some key, .null, .null⟩
      | .node id _ state child => ⟨none, .node id key state child, .null⟩
  | .node id elem state child, key, next =>
      let v := cmp elem key
      if v = 0 then
        if next.isNode then ⟨some elem, .node id elem state child, next⟩
        else if (child false).isNode || (child true).isNode then
          let i := !(child false).isNode
          -- next_elem[i] is filled in: the child is not empty
          let key := ((avTreeFind cmp key (child i) (some fun _ => none)).2.bind (· i)).getD elem
          avTreeInsertBelow id key state child i key (avTreeInsert cmp (child i) key next)
        else ⟨none, .null, .node id elem state child⟩
      else
        let side := decide (v < 0)
        avTreeInsertBelow id elem state child side key (avTreeInsert cmp (child side) key next)

end P2PFFmpeg.Util
