import CsPrimer.RbTree.Node
import Mathlib.Data.List.Nodup

namespace CsPrimer.RbTree

open Library

/-!
# How the memory holds a tree

A node points to its children and to its parent, and the header is the parent
of the root, which it points to as it points to both ends.  The memory holds a
tree as a subtree and the path that leads to it, so each store is followed at
the place where it happens.
-/

/-- A node with what it points to on a side named first. -/
def record
    (color : Color)
    (parent : Address)
    (side : Side)
    (near far : Address) : NodeBase :=
  match side with
  | .left => ⟨color, parent, near, far⟩
  | .right => ⟨color, parent, far, near⟩

section Record

variable
  (color color' : Color)
  (parent parent' near near' far far' : Address)
  (side : Side)

@[simp]
theorem record_color : (record color parent side near far).color = color := by
  cases side <;> rfl

@[simp]
theorem record_parent :
    (record color parent side near far).parent = parent := by
  cases side <;> rfl

@[simp]
theorem record_child : (record color parent side near far).child side = near :=
  by cases side <;> rfl

@[simp]
theorem record_child_other :
    (record color parent side near far).child side.other = far := by
  cases side <;> rfl

@[simp]
theorem record_setColor :
    (record color parent side near far).setColor color' =
      record color' parent side near far := by
  cases side <;> rfl

@[simp]
theorem record_setParent :
    (record color parent side near far).setParent parent' =
      record color parent' side near far := by
  cases side <;> rfl

@[simp]
theorem record_setChild :
    (record color parent side near far).setChild side near' =
      record color parent side near' far := by
  cases side <;> rfl

@[simp]
theorem record_setChild_other :
    (record color parent side near far).setChild side.other far' =
      record color parent side near far' := by
  cases side <;> rfl

theorem record_other :
    record color parent side.other near far =
      record color parent side far near := by
  cases side <;> rfl

end Record

/-- The address of a tree, which is null for the empty one. -/
def root : ColoredTree Address → Address
  | .nil => null
  | .node _ _ label _ => label

@[simp]
theorem root_nil : root .nil = null :=
  rfl

@[simp]
theorem root_join
    (side : Side)
    (color : Color)
    (near far : ColoredTree Address)
    (label : Address) :
    root (.join side color near label far) = label := by
  cases side <;> rfl

/-- The subtree of a node with this parent. -/
def HoldsTree (memory : Memory) (parent : Address) : ColoredTree Address → Prop
  | .nil => True
  | .node color left label right =>
      memory label = some ⟨color, parent, root left, root right⟩ ∧
        HoldsTree memory label left ∧ HoldsTree memory label right

/-- The parent of what is at the end of a path. -/
def parentOf (header : Address) : Path Address → Address
  | [] => header
  | frame :: _ => frame.label

@[simp]
theorem parentOf_cons
    (header : Address)
    (frame : Frame Address)
    (path : Path Address) :
    parentOf header (frame :: path) = frame.label :=
  rfl

/-- The nodes of a path, from which the last points to `hole`. -/
def HoldsPath
    (memory : Memory)
    (header first last : Address) : Path Address → Address → Prop
  | [], hole =>
      memory header = some ⟨.red, hole, first, last⟩
  | frame :: above, hole =>
      memory frame.label =
          some (record frame.color (parentOf header above) frame.side hole
            (root frame.sibling)) ∧
        HoldsTree memory frame.label frame.sibling ∧
        HoldsPath memory header first last above frame.label

/-- The memory holds a subtree at the end of a path, and nothing twice. -/
structure Held
    (memory : Memory)
    (header first last : Address)
    (path : Path Address)
    (tree : ColoredTree Address) : Prop where
  above : HoldsPath memory header first last path (root tree)
  below : HoldsTree memory (parentOf header path) tree
  distinct : (null :: header :: (tree.inorder ++ path.labels)).Nodup

section Frame

variable
  {memory memory' : Memory}
  {parent header first last hole : Address}
  {path : Path Address}
  {tree : ColoredTree Address}

theorem holdsTree_join
    {side : Side}
    {color : Color}
    {near far : ColoredTree Address}
    {label : Address} :
    HoldsTree memory parent (.join side color near label far) ↔
      memory label = some (record color parent side (root near) (root far)) ∧
        HoldsTree memory label near ∧ HoldsTree memory label far := by
  cases side with
  | left =>
      exact Iff.rfl
  | right =>
      exact and_congr_right fun _ => and_comm

theorem HoldsTree.congr
    (holds : HoldsTree memory parent tree)
    (same : ∀ address ∈ tree.inorder, memory' address = memory address) :
    HoldsTree memory' parent tree := by
  induction tree generalizing parent with
  | nil =>
      trivial
  | node color left label right leftHypothesis rightHypothesis =>
      simp only [ColoredTree.inorder, List.mem_append, List.mem_cons] at same
      obtain ⟨isNode, holdsLeft, holdsRight⟩ := holds
      refine ⟨?_, leftHypothesis holdsLeft ?_, rightHypothesis holdsRight ?_⟩
      · rw [same label (Or.inr (Or.inl rfl)), isNode]
      · exact fun address member => same address (Or.inl member)
      · exact fun address member => same address (Or.inr (Or.inr member))

theorem HoldsPath.congr
    (holds : HoldsPath memory header first last path hole)
    (sameHeader : memory' header = memory header)
    (same : ∀ address ∈ path.labels, memory' address = memory address) :
    HoldsPath memory' header first last path hole := by
  induction path generalizing hole with
  | nil =>
      rw [HoldsPath, sameHeader]
      exact holds
  | cons frame above inductionHypothesis =>
      simp only [Path.labels, List.mem_append, List.mem_cons] at same
      obtain ⟨isNode, holdsSibling, holdsAbove⟩ := holds
      refine ⟨?_, holdsSibling.congr ?_, inductionHypothesis holdsAbove ?_⟩
      · rw [same frame.label (Or.inl rfl), isNode]
      · exact fun address member =>
          same address (Or.inr (Or.inl member))
      · exact fun address member =>
          same address (Or.inr (Or.inr member))

/-- What is on a path is held with the path or with the subtree. -/
theorem held_cons
    {frame : Frame Address} :
    Held memory header first last (frame :: path) tree ↔
      Held memory header first last path (frame.fill tree) := by
  have perm :
      (tree.inorder ++ Path.labels (frame :: path)).Perm
        ((frame.fill tree).inorder ++ Path.labels path) :=
    (Path.inorder_plug_perm (frame :: path) tree).symm.trans
      (Path.inorder_plug_perm path (frame.fill tree))
  have distinct :
      (null :: header ::
          (tree.inorder ++ Path.labels (frame :: path))).Nodup ↔
        (null :: header ::
          ((frame.fill tree).inorder ++ Path.labels path)).Nodup :=
    ((perm.cons header).cons null).nodup_iff
  constructor
  · intro held
    obtain ⟨⟨isNode, holdsSibling, holdsAbove⟩, holdsTree, nodup⟩ := held
    refine ⟨?_, ?_, distinct.mp nodup⟩
    · rw [Frame.fill, root_join]
      exact holdsAbove
    · rw [Frame.fill, holdsTree_join]
      exact ⟨isNode, holdsTree, holdsSibling⟩
  · intro held
    obtain ⟨holdsAbove, holdsTree, nodup⟩ := held
    rw [Frame.fill, root_join] at holdsAbove
    rw [Frame.fill, holdsTree_join] at holdsTree
    exact ⟨⟨holdsTree.1, holdsTree.2.2, holdsAbove⟩, holdsTree.2.1,
      distinct.mpr nodup⟩

theorem held_append
    {inner : Path Address} :
    Held memory header first last (inner ++ path) tree ↔
      Held memory header first last path (inner.plug tree) := by
  induction inner generalizing tree with
  | nil =>
      exact Iff.rfl
  | cons frame above inductionHypothesis =>
      rw [List.cons_append, held_cons, inductionHypothesis, Path.plug]

/-- The whole tree, whatever its subtree. -/
theorem held_plug :
    Held memory header first last path tree ↔
      Held memory header first last [] (path.plug tree) := by
  rw [← held_append, List.append_nil]

end Frame

namespace Held

variable
  {memory : Memory}
  {header first last : Address}
  {path : Path Address}
  {tree : ColoredTree Address}

theorem header_ne_null (held : Held memory header first last path tree) :
    header ≠ null := by
  rintro rfl
  simpa using held.distinct

theorem label_ne_null
    (held : Held memory header first last path tree)
    {address : Address}
    (member : address ∈ tree.inorder) :
    address ≠ null := by
  rintro rfl
  have distinct := held.distinct
  simp [member] at distinct

theorem load_header (held : Held memory header first last path tree) :
    load memory header =
      some ⟨.red, root (path.plug tree), first, last⟩ := by
  rw [load, if_neg held.header_ne_null]
  exact (held_plug.mp held).above

theorem load_root
    {side : Side}
    {color : Color}
    {near far : ColoredTree Address}
    {label : Address}
    (held :
      Held memory header first last path (.join side color near label far)) :
    load memory label =
      some (record color (parentOf header path) side (root near)
        (root far)) := by
  have member := ColoredTree.mem_join side color near far label
  rw [load, if_neg (held.label_ne_null member)]
  exact (holdsTree_join.mp held.below).1

theorem load_parent
    {frame : Frame Address}
    (held : Held memory header first last (frame :: path) tree) :
    load memory frame.label =
      some (record frame.color (parentOf header path) frame.side (root tree)
        (root frame.sibling)) :=
  (held_cons.mp held).load_root

/-- Whether the root of the subtree is red, the way the source asks. -/
theorem isRed_root (held : Held memory header first last path tree) :
    isRed memory (root tree) = some (decide (tree.color = .red)) := by
  by_cases isNil : tree = .nil
  · subst isNil
    simp [isRed, root, ColoredTree.color]
  · obtain ⟨color, near, label, far, rfl⟩ :=
      ColoredTree.exists_join .left isNil
    have member := ColoredTree.mem_join .left color near far label
    rw [root_join, isRed, if_neg (held.label_ne_null member), held.load_root]
    simp

/-- A subtree that is not empty is not at the address of anything else. -/
theorem root_ne
    (held : Held memory header first last path tree)
    (notEmpty : tree ≠ .nil)
    {address : Address}
    (isOther : address = null ∨ address = header ∨ address ∈ path.labels) :
    root tree ≠ address := by
  obtain ⟨color, near, label, far, rfl⟩ :=
    ColoredTree.exists_join .left notEmpty
  have member := ColoredTree.mem_join .left color near far label
  have distinct := held.distinct
  rw [root_join]
  rintro rfl
  simp only [List.nodup_cons, List.mem_cons, List.mem_append,
    List.nodup_append, not_or] at distinct
  rcases isOther with rfl | rfl | onPath
  · exact distinct.1.2.1 member
  · exact distinct.2.1.1 member
  · exact distinct.2.2.2.2 label member label onPath rfl

/-- The subtree is the whole tree exactly if its address is the root. -/
theorem root_eq_iff (held : Held memory header first last path tree) :
    root tree = root (path.plug tree) ↔ path = [] := by
  constructor
  · intro isRoot
    by_contra notTop
    obtain ⟨above, frame, rfl⟩ :=
      (List.eq_nil_or_concat path).resolve_left notTop
    have isTop : root (Path.plug (above.concat frame) tree) = frame.label := by
      rw [List.concat_eq_append, Path.plug_append]
      exact root_join ..
    have onPath : frame.label ∈ Path.labels (above.concat frame) := by
      simp [List.concat_eq_append, Path.labels_append, Path.labels]
    rw [isTop] at isRoot
    by_cases isEmpty : tree = .nil
    · subst isEmpty
      have distinct := held.distinct
      rw [root_nil] at isRoot
      rw [isRoot, List.nodup_cons, List.mem_cons, List.mem_append] at distinct
      exact distinct.1 (Or.inr (Or.inr onPath))
    · exact held.root_ne isEmpty (Or.inr (Or.inr onPath)) isRoot
  · rintro rfl
    rfl

/-- A child that is not null is not the other child. -/
theorem isChild
    {frame : Frame Address}
    (held : Held memory header first last (frame :: path) tree)
    (notBoth : tree ≠ .nil ∨ frame.sibling ≠ .nil) :
    root tree ≠ root frame.sibling := by
  have distinct := held.distinct
  cases isTree : tree with
  | nil =>
      cases isSibling : frame.sibling with
      | nil =>
          simp [isTree, isSibling] at notBoth
      | node color left label right =>
          intro same
          simp only [root] at same
          subst same
          simp [Path.labels, isSibling, ColoredTree.inorder] at distinct
  | node color left label right =>
      rw [← isTree]
      apply held.root_ne (by simp [isTree])
      cases isSibling : frame.sibling with
      | nil =>
          exact Or.inl rfl
      | node color' left' label' right' =>
          simp [Path.labels, isSibling, ColoredTree.inorder, root]

end Held

end CsPrimer.RbTree
