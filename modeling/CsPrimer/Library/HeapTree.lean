import Mathlib.Data.List.Nodup

namespace CsPrimer.Library

/-!
# Binary trees in memory

Nodes are allocated at increasing addresses and refer to each other by their
addresses; a node that has been deleted leaves a hole.  A tree in memory that
takes each of its addresses once shares no node.
-/

/-- A node, which refers to its children by their addresses. -/
inductive TreeNode (Leaf Branch : Type) where
  | leaf (label : Leaf)
  | branch (label : Branch) (left right : Nat)
  deriving Repr, DecidableEq

/-- The nodes by their addresses, and holes where nodes have been deleted. -/
abbrev Heap (Leaf Branch : Type) : Type :=
  List (Option (TreeNode Leaf Branch))

/-- A binary tree. -/
inductive LabelledTree (Leaf Branch : Type) where
  | leaf (label : Leaf)
  | branch (label : Branch) (left right : LabelledTree Leaf Branch)
  deriving Repr, DecidableEq

/-- The number of nodes on a longest path. -/
def LabelledTree.height
    {Leaf Branch : Type} :
    LabelledTree Leaf Branch → Nat
  | leaf _ => 1
  | branch _ left right => max left.height right.height + 1

theorem LabelledTree.exists_of_height_leaf_le
    {Leaf Branch : Type}
    {label : Leaf}
    {depth : Nat}
    (enough : (leaf label : LabelledTree Leaf Branch).height ≤ depth) :
    ∃ rest, depth = rest + 1 :=
  Nat.exists_eq_add_of_le' enough

/-- A depth that is enough for a branch leaves enough for its subtrees. -/
theorem LabelledTree.exists_of_height_branch_le
    {Leaf Branch : Type}
    {label : Branch}
    {left right : LabelledTree Leaf Branch}
    {depth : Nat}
    (enough : (branch label left right).height ≤ depth) :
    ∃ rest, depth = rest + 1 ∧ left.height ≤ rest ∧ right.height ≤ rest := by
  obtain ⟨rest, rfl⟩ :=
    Nat.exists_eq_add_of_le' (Nat.le_of_add_left_le enough)
  rw [height, Nat.add_le_add_iff_right, Nat.max_le] at enough
  exact ⟨rest, rfl, enough⟩

/-- The labels of the leaves from left to right. -/
def LabelledTree.leaves
    {Leaf Branch : Type} :
    LabelledTree Leaf Branch → List Leaf
  | leaf label => [label]
  | branch _ left right => left.leaves ++ right.leaves

namespace Heap

variable
  {Leaf Branch : Type}
  {heap later : Heap Leaf Branch}
  {node : TreeNode Leaf Branch}
  {address root : Nat}
  {addresses : List Nat}
  {tree : LabelledTree Leaf Branch}

/-- The node at an address, unless it is a hole. -/
def node?
    (heap : Heap Leaf Branch)
    (address : Nat) : Option (TreeNode Leaf Branch) :=
  heap[address]?.join

/-- Put a hole in the place of a node. -/
def delete
    (heap : Heap Leaf Branch)
    (address : Nat) : Heap Leaf Branch :=
  heap.set address none

/-- Delete the nodes at some addresses. -/
def deleteAll
    (heap : Heap Leaf Branch)
    (addresses : List Nat) : Heap Leaf Branch :=
  addresses.foldl delete heap

theorem node?_delete (other : Nat) :
    node? (heap.delete address) other =
      if address = other then none else heap.node? other := by
  unfold node? delete
  rw [List.getElem?_set]
  split
  case isTrue same =>
    subst same
    split <;> rfl
  case isFalse => rfl

theorem node?_deleteAll (other : Nat) :
    node? (heap.deleteAll addresses) other =
      if other ∈ addresses then none else heap.node? other := by
  induction addresses generalizing heap with
  | nil =>
      rfl
  | cons address rest inductionHypothesis =>
      rw [deleteAll, List.foldl_cons, ← deleteAll, inductionHypothesis,
        node?_delete]
      by_cases isLater : other ∈ rest
      · rw [if_pos isLater, if_pos (List.mem_cons_of_mem address isLater)]
      · simp only [List.mem_cons, isLater, or_false, if_false,
          eq_comm (a := address)]

theorem deleteAll_append (front back : List Nat) :
    heap.deleteAll (front ++ back) =
      deleteAll (heap.deleteAll front) back :=
  List.foldl_append

theorem lt_length_of_node?
    (present : heap.node? address = some node) :
    address < heap.length := by
  by_contra outside
  rw [node?, List.getElem?_eq_none (Nat.not_lt.mp outside)] at present
  cases present

/-- Allocation does not change what has been allocated before. -/
theorem node?_append
    (nodes : Heap Leaf Branch)
    (inside : address < heap.length) :
    node? (heap ++ nodes) address = heap.node? address := by
  rw [node?, List.getElem?_append_left inside, node?]

theorem node?_concat :
    node? (heap ++ [some node]) heap.length = some node := by
  simp [node?]

/-- A tree stands at an address, with its nodes in postorder. -/
inductive TreeAt (heap : Heap Leaf Branch) :
    Nat → LabelledTree Leaf Branch → List Nat → Prop where
  | leaf
      {address : Nat}
      {label : Leaf}
      (isLeaf : heap.node? address = some (.leaf label)) :
      TreeAt heap address (.leaf label) [address]
  | branch
      {address left right : Nat}
      {label : Branch}
      {leftTree rightTree : LabelledTree Leaf Branch}
      {leftAddresses rightAddresses : List Nat}
      (isBranch : heap.node? address = some (.branch label left right))
      (leftAt : TreeAt heap left leftTree leftAddresses)
      (rightAt : TreeAt heap right rightTree rightAddresses) :
      TreeAt heap address (.branch label leftTree rightTree)
        (leftAddresses ++ rightAddresses ++ [address])

/-- The addresses that can be reached from a root. -/
inductive Reachable (heap : Heap Leaf Branch) (root : Nat) : Nat → Prop where
  | root :
      Reachable heap root root
  | left
      {address left right : Nat}
      {label : Branch}
      (earlier : Reachable heap root address)
      (isBranch : heap.node? address = some (.branch label left right)) :
      Reachable heap root left
  | right
      {address left right : Nat}
      {label : Branch}
      (earlier : Reachable heap root address)
      (isBranch : heap.node? address = some (.branch label left right)) :
      Reachable heap root right

/-- A tree only depends on the nodes at its addresses. -/
theorem TreeAt.of_same
    (isTree : TreeAt heap root tree addresses)
    (same :
      ∀ address ∈ addresses, later.node? address = heap.node? address) :
    TreeAt later root tree addresses := by
  induction isTree with
  | leaf isLeaf =>
      refine .leaf ?_
      rw [same _ (List.mem_singleton_self _)]
      exact isLeaf
  | branch isBranch leftAt rightAt leftHypothesis rightHypothesis =>
      refine .branch ?_ (leftHypothesis ?_) (rightHypothesis ?_)
      · rw [same _ (List.mem_append_right _ (List.mem_singleton_self _))]
        exact isBranch
      · intro address member
        exact same address (by simp [member])
      · intro address member
        exact same address (by simp [member])

theorem TreeAt.root_mem
    (isTree : TreeAt heap root tree addresses) :
    root ∈ addresses := by
  cases isTree with
  | leaf => exact List.mem_singleton_self root
  | branch => exact List.mem_append_right _ (List.mem_singleton_self root)

theorem TreeAt.lt_length
    (isTree : TreeAt heap root tree addresses) :
    ∀ address ∈ addresses, address < heap.length := by
  induction isTree with
  | leaf isLeaf =>
      intro address member
      exact List.mem_singleton.mp member ▸ lt_length_of_node? isLeaf
  | branch isBranch leftAt rightAt leftHypothesis rightHypothesis =>
      simp only [List.mem_append, List.mem_singleton]
      rintro address ((inLeft | inRight) | rfl)
      · exact leftHypothesis address inLeft
      · exact rightHypothesis address inRight
      · exact lt_length_of_node? isBranch

/-- Allocation does not change a tree. -/
theorem TreeAt.append
    (isTree : TreeAt heap root tree addresses)
    (nodes : Heap Leaf Branch) :
    TreeAt (heap ++ nodes) root tree addresses :=
  isTree.of_same fun address member =>
    node?_append nodes (isTree.lt_length address member)

/-- The children of a node of a tree belong to the tree. -/
theorem TreeAt.children_mem
    {left right : Nat}
    {label : Branch}
    (isTree : TreeAt heap root tree addresses)
    (member : address ∈ addresses)
    (isBranch : heap.node? address = some (.branch label left right)) :
    left ∈ addresses ∧ right ∈ addresses := by
  induction isTree with
  | leaf isLeaf =>
      obtain rfl := List.mem_singleton.mp member
      rw [isLeaf] at isBranch
      cases isBranch
  | branch isRoot leftAt rightAt leftHypothesis rightHypothesis =>
      simp only [List.mem_append, List.mem_singleton] at member ⊢
      rcases member with (inLeft | inRight) | rfl
      · obtain ⟨leftIn, rightIn⟩ := leftHypothesis inLeft
        exact ⟨.inl (.inl leftIn), .inl (.inl rightIn)⟩
      · obtain ⟨leftIn, rightIn⟩ := rightHypothesis inRight
        exact ⟨.inl (.inr leftIn), .inl (.inr rightIn)⟩
      · rw [isRoot] at isBranch
        cases isBranch
        exact ⟨.inl (.inl leftAt.root_mem), .inl (.inr rightAt.root_mem)⟩

/-- What can be reached from the root of a tree can be reached from above. -/
theorem TreeAt.reachable_of_mem
    {above : Nat}
    (isTree : TreeAt heap root tree addresses)
    (isReachable : heap.Reachable above root) :
    ∀ address ∈ addresses, heap.Reachable above address := by
  induction isTree with
  | leaf isLeaf =>
      intro address member
      exact List.mem_singleton.mp member ▸ isReachable
  | branch isBranch leftAt rightAt leftHypothesis rightHypothesis =>
      simp only [List.mem_append, List.mem_singleton]
      rintro address ((inLeft | inRight) | rfl)
      · exact leftHypothesis (isReachable.left isBranch) address inLeft
      · exact rightHypothesis (isReachable.right isBranch) address inRight
      · exact isReachable

/-- The addresses of a tree are those that can be reached from its root. -/
theorem TreeAt.reachable_iff
    (isTree : TreeAt heap root tree addresses) :
    heap.Reachable root address ↔ address ∈ addresses := by
  constructor
  · intro isReachable
    induction isReachable with
    | root =>
        exact isTree.root_mem
    | left earlier isBranch inductionHypothesis =>
        exact (isTree.children_mem inductionHypothesis isBranch).1
    | right earlier isBranch inductionHypothesis =>
        exact (isTree.children_mem inductionHypothesis isBranch).2
  · exact isTree.reachable_of_mem .root address

end Heap

end CsPrimer.Library
