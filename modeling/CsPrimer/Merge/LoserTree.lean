import Mathlib.Algebra.Group.Int.Defs
import Mathlib.Data.List.Basic

namespace CsPrimer.Merge

/-!
# `LoserTree::mergeKLists`

The merge owns two vectors: `leaf_` caches the head value of every list, with a
virtual minimum after the last one, and `loser_` is the tree of losers with the
champion at index 0.  The input lists live in one memory of nodes; the result
is spliced together from the same nodes behind a dummy node on the stack.

An index outside a vector, a dereference of the null pointer or of an
unallocated address is a fault, written `none`.
-/

/-- `INT_MIN` and `INT_MAX`. -/
def intMin : Int := -2 ^ 31

def intMax : Int := 2 ^ 31 - 1

/-- The address of a `ListNode`. -/
abbrev NodePtr := Nat

/-- `struct ListNode`; the null pointer is `none`. -/
structure ListNode where
  val : Int
  next : Option NodePtr
  deriving Repr, DecidableEq

/-- The members of a `LoserTree` object. -/
structure LoserTree where
  loser_ : List Nat
  leaf_ : List Int
  deriving Repr, DecidableEq

/-- `vector[index] = value`, undefined outside the vector. -/
def assign {α : Type} (vector : List α) (index : Nat) (value : α) :
    Option (List α) :=
  if index < vector.length then
    some (vector.set index value)
  else
    none

/-- `std::vector::resize`, which value-initialises new elements. -/
def resize {α : Type} (vector : List α) (size : Nat) (zero : α) :
    List α :=
  vector.take size ++ List.replicate (size - vector.length) zero

/--
The loop of `Adjust` from node `p`: the walk to the root with the candidate
`s`.
-/
def adjustLoop
    (leaf_ : List Int)
    (loser_ : List Nat)
    (s p : Nat) : Option (List Nat × Nat) :=
  if 0 < p then do
    let own ← leaf_[s]?
    let opponent ← loser_[p]?
    let other ← leaf_[opponent]?
    if own > other then
      adjustLoop leaf_ (loser_.set p s) opponent (p / 2)
    else
      adjustLoop leaf_ loser_ s (p / 2)
  else
    some (loser_, s)
termination_by p

/-- `Adjust`. -/
def adjust (tree : LoserTree) (s : Nat) : Option LoserTree := do
  let kWays := tree.loser_.length
  let (loser_, champion) ←
    adjustLoop tree.leaf_ tree.loser_ s ((s + kWays) / 2)
  let loser_ ← assign loser_ 0 champion
  return { tree with loser_ := loser_ }

/-- The second loop of `CreateLoserTree`, for the ways below `ways`. -/
def enterWays (tree : LoserTree) : Nat → Option LoserTree
  | 0 =>
      some tree
  | ways + 1 => do
      let adjusted ← adjust tree ways
      enterWays adjusted ways

/-- `CreateLoserTree`. -/
def createLoserTree (tree : LoserTree) : Option LoserTree := do
  let kWays := tree.loser_.length
  let leaf_ ← assign tree.leaf_ kWays intMin
  enterWays
    { leaf_ := leaf_
      loser_ := tree.loser_.map fun _ => kWays }
    kWays

/-- The memory and the local variables of `mergeKLists`. -/
structure MergeState where
  tree : LoserTree
  nodes : List ListNode
  lists : List (Option NodePtr)
  dummyNext : Option NodePtr
  /-- The node `tail` points to, or `none` for the dummy node. -/
  tail : Option NodePtr
  deriving Repr, DecidableEq

/-- `input`: cache the value of the head of one list. -/
def input (state : MergeState) (i : Nat) : Option MergeState := do
  let head ← state.lists[i]?
  let value ←
    match head with
    | some node => state.nodes[node]?.map ListNode.val
    | none => some intMax
  let leaf_ ← assign state.tree.leaf_ i value
  return { state with tree := { state.tree with leaf_ := leaf_ } }

/-- `tail->next = link`. -/
def linkTail
    (state : MergeState)
    (link : Option NodePtr) : Option MergeState :=
  match state.tail with
  | none =>
      some { state with dummyNext := link }
  | some node => do
      let object ← state.nodes[node]?
      return { state with
        nodes := state.nodes.set node { object with next := link } }

/-- `output`: move the head of the champion's list behind the tail. -/
def output (state : MergeState) : Option MergeState := do
  let champion ← state.tree.loser_[0]?
  let head ← state.lists[champion]?
  let linked ← linkTail state head
  let node ← head
  let object ← linked.nodes[node]?
  let lists ← assign linked.lists champion object.next
  return { linked with tail := some node, lists := lists }

/-- The first loop of `mergeKLists`: `input` for the ways from `i` on. -/
def inputWays (state : MergeState) (i : Nat) : Nat → Option MergeState
  | 0 =>
      some state
  | ways + 1 => do
      let cached ← input state i
      inputWays cached (i + 1) ways

/-- The second loop of `mergeKLists`; `none` also when the fuel runs out. -/
def mergeLoop : Nat → MergeState → Option MergeState
  | 0, _ =>
      none
  | fuel + 1, state => do
      let champion ← state.tree.loser_[0]?
      let least ← state.tree.leaf_[champion]?
      if least ≠ intMax then
        let moved ← output state
        let next ← moved.tree.loser_[0]?
        let cached ← input moved next
        let adjusted ← adjust cached.tree next
        mergeLoop fuel { cached with tree := adjusted }
      else
        return state

/-- What a call of `mergeKLists` leaves behind. -/
structure MergeResult where
  head : Option NodePtr
  nodes : List ListNode
  lists : List (Option NodePtr)
  tree : LoserTree
  deriving Repr, DecidableEq

/-- `mergeKLists`, on an object whose vectors may hold anything. -/
def mergeKLists
    (fuel : Nat)
    (tree : LoserTree)
    (nodes : List ListNode)
    (lists : List (Option NodePtr)) : Option MergeResult :=
  if lists = [] then
    some { head := none, nodes := nodes, lists := lists, tree := tree }
  else do
    let kWays := lists.length
    let entered ←
      inputWays
        { tree :=
            { loser_ := resize tree.loser_ kWays 0
              leaf_ := resize tree.leaf_ (kWays + 1) 0 }
          nodes := nodes
          lists := lists
          dummyNext := none
          tail := none }
        0 kWays
    let created ← createLoserTree entered.tree
    let merged ← mergeLoop fuel { entered with tree := created }
    return { head := merged.dummyNext
             nodes := merged.nodes
             lists := merged.lists
             tree := merged.tree }

end CsPrimer.Merge
