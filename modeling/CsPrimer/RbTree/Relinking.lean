import CsPrimer.RbTree.Unlinking

namespace CsPrimer.RbTree

open Library

/-!
# The successor in the place of a node

The successor has no left child.  Its right child is left where it was, and
from there the tree may have to be balanced.
-/

section TakePlace

variable
  {memory : Memory}
  {header first last y z : Address}
  {path : Path Address}
  {nodeY nodeZ : NodeBase}

theorem takePlace_spec
    (holds : HoldsPath memory header first last path z)
    (loadZ : load memory z = some nodeZ)
    (isParent : nodeZ.parent = parentOf header path)
    (loadY : load memory y = some nodeY)
    (distinct : (null :: header :: y :: z :: path.labels).Nodup) :
    ∃ memory', takePlace y z header memory = some memory' ∧
      HoldsPath memory' header first last path y ∧
      memory' y =
        some ((nodeY.setParent (parentOf header path)).setColor
          nodeZ.color) ∧
      memory' z = some (nodeZ.setColor nodeY.color) ∧
      ∀ other, other ≠ header → other ≠ y → other ≠ z →
        other ∉ path.labels → memory' other = memory other := by
  have yNotNull : y ≠ null := by grind
  have zNotNull : z ≠ null := by grind
  have notSame : y ≠ z := by grind
  obtain ⟨memory1, replaces, holds1, others1⟩ :=
    replaceChild_spec .left y holds loadZ isParent (by grind)
  have loadZ1 : load memory1 z = some nodeZ := by
    rw [load_eq zNotNull, others1 z (by grind) (by grind), of_load loadZ]
  have loadY1 : load memory1 y = some nodeY := by
    rw [load_eq yNotNull, others1 y (by grind) (by grind), of_load loadY]
  obtain ⟨memory2, store2, isY2, others2⟩ :=
    store_spec loadY1 (NodeBase.setParent nodeZ.parent)
  have loadY2 := (load_eq yNotNull).trans isY2
  have loadZ2 : load memory2 z = some nodeZ := by
    rw [load_eq zNotNull, others2 z notSame.symm, of_load loadZ1]
  obtain ⟨memory3, store3, isY3, others3⟩ :=
    store_spec loadY2 (NodeBase.setColor nodeZ.color)
  have loadZ3 : load memory3 z = some nodeZ := by
    rw [load_eq zNotNull, others3 z notSame.symm, of_load loadZ2]
  obtain ⟨memory4, store4, isZ4, others4⟩ :=
    store_spec loadZ3 (NodeBase.setColor nodeY.color)
  refine ⟨memory4, ?_, ?_, ?_, isZ4, ?_⟩
  · simp [takePlace, replaces, loadZ1, store2, loadY2, loadZ2, store3, store4,
      NodeBase.setParent]
  · exact ((holds1.frame (by grind) (by grind) others2).frame (by grind)
      (by grind) others3).frame (by grind) (by grind) others4
  · rw [others4 y notSame, isY3, isParent]
  · intro other notHeader notY notZ offPath
    rw [others4 other notZ, others3 other notY, others2 other notY,
      others1 other notHeader offPath]

end TakePlace

section Spine

variable
  {memory memory' : Memory}
  {parent : Address}
  {spine : Path Address}
  {tree tree' : ColoredTree Address}

/-- Another subtree at the same address. -/
theorem HoldsTree.plug_congr
    (holds : HoldsTree memory parent (spine.plug tree))
    (sameRoot : root tree' = root tree)
    (replaced :
      ∀ above, HoldsTree memory above tree → HoldsTree memory' above tree')
    (same : ∀ address ∈ spine.labels, memory' address = memory address) :
    HoldsTree memory' parent (spine.plug tree') := by
  induction spine generalizing tree tree' with
  | nil =>
      exact replaced parent holds
  | cons frame above inductionHypothesis =>
      simp only [Path.labels, List.mem_cons, List.mem_append] at same
      apply inductionHypothesis holds
      · rw [Frame.fill, Frame.fill, root_join, root_join]
      · intro parent filled
        rw [Frame.fill, holdsTree_join] at filled ⊢
        obtain ⟨isNode, holdsTree, holdsSibling⟩ := filled
        refine ⟨?_, replaced _ holdsTree, holdsSibling.congr ?_⟩
        · rw [same frame.label (Or.inl rfl), isNode, sameRoot]
        · exact fun address member =>
            same address (Or.inr (Or.inl member))
      · exact fun address member => same address (Or.inr (Or.inr member))

/-- The top of a path does not depend on the subtree below. -/
theorem root_plug_cons
    (frame : Frame Address)
    (tree tree' : ColoredTree Address) :
    root (Path.plug (frame :: spine) tree) =
      root (Path.plug (frame :: spine) tree') := by
  induction spine generalizing frame tree tree' with
  | nil =>
      simp [Path.plug, Frame.fill]
  | cons next above inductionHypothesis =>
      exact inductionHypothesis next (frame.fill tree) (frame.fill tree')

theorem parentOf_append
    (header : Address)
    (frame : Frame Address)
    (path : Path Address) :
    parentOf header (spine ++ frame :: path) = parentOf frame.label spine := by
  cases spine <;> rfl

theorem root_plug_mem
    (frame : Frame Address)
    (tree : ColoredTree Address) :
    root (Path.plug (frame :: spine) tree) ∈ Path.labels (frame :: spine) := by
  induction spine generalizing frame tree with
  | nil =>
      simp [Path.plug, Frame.fill, Path.labels]
  | cons next above inductionHypothesis =>
      have member := inductionHypothesis next (frame.fill tree)
      simp only [Path.labels, List.mem_cons, List.mem_append] at member ⊢
      exact Or.inr (Or.inr member)

end Spine

section Relink

variable
  {memory : Memory}
  {header first last y z : Address}
  {path spine : Path Address}
  {frame : Frame Address}
  {colorY colorZ : Color}
  {left right tree : ColoredTree Address}

/-- The end of the relinking, when `y` has the children that it shall have. -/
theorem exists_placed
    {nodeZ : NodeBase}
    {parentY : Address}
    (above : HoldsPath memory header first last path z)
    (loadZ : load memory z = some nodeZ)
    (isParent : nodeZ.parent = parentOf header path)
    (loadY :
      load memory y = some ⟨colorY, parentY, root left, root right⟩)
    (holdsLeft : HoldsTree memory y left)
    (holdsRight : HoldsTree memory y right)
    (distinct :
      (null :: header :: y :: z ::
        (left.inorder ++ right.inorder ++ path.labels)).Nodup) :
    ∃ memory', takePlace y z header memory = some memory' ∧
      Held memory' header first last path
        (.node nodeZ.color left y right) ∧
      load memory' z = some (nodeZ.setColor colorY) ∧
      ∀ other, other ≠ header → other ≠ y → other ≠ z →
        other ∉ path.labels → memory' other = memory other := by
  obtain ⟨memory', places, above', isY, isZ, others⟩ :=
    takePlace_spec above loadZ isParent loadY (by grind)
  have zNotNull : z ≠ null := by grind
  refine ⟨memory', places, ⟨above', ⟨isY, ?_, ?_⟩, ?_⟩,
    (load_eq zNotNull).trans isZ, others⟩
  · exact holdsLeft.congr (by grind)
  · exact holdsRight.congr (by grind)
  · simp only [ColoredTree.inorder]
    grind

/-- What the relinking has to know of the lists of labels. -/
structure Apart
    (header y z p : Address)
    (tree spine left path : List Address) : Prop where
  yNotNull : y ≠ null
  zNotNull : z ≠ null
  pNotNull : p ≠ null
  yOffTree : y ∉ tree
  zOffTree : z ∉ tree
  zOffLeft : z ∉ left
  pOffLeft : p ∉ left
  yNotP : y ≠ p
  zNotP : z ≠ p
  zNotY : z ≠ y
  yOffRight : y ∉ tree ++ spine
  leftOffRight : ∀ label ∈ tree ++ spine, label ∉ left
  leftOff : ∀ label ∈ left, label ∉ tree ∧ label ≠ p
  headerOff : header ≠ y ∧ header ∉ left ∧ header ∉ tree ++ spine
  pathOff :
    ∀ label ∈ path, label ≠ y ∧ label ∉ left ∧ label ∉ tree ++ spine
  adopting : (null :: y :: z :: left).Nodup
  detaching : (null :: (tree ++ spine)).Nodup
  settling : (null :: header :: y :: z :: (left ++ (tree ++ spine) ++ path)).Nodup

theorem apart_of_nodup
    {header y z p : Address}
    {tree spine left path : List Address}
    (distinct :
      (null :: header :: (y :: tree ++
        (spine ++ z :: (left ++ path)))).Nodup)
    (onSpine : p ∈ spine) :
    Apart header y z p tree spine left path := by
  have perm :
      (null :: header :: (y :: tree ++ (spine ++ z :: (left ++ path)))).Perm
        (null :: header :: y :: z :: (left ++ (tree ++ spine) ++ path)) := by
    rw [List.perm_iff_count]
    intro label
    simp only [List.count_cons, List.count_append]
    omega
  have settling := perm.nodup_iff.mp distinct
  have apart := settling
  simp only [List.nodup_cons, List.nodup_append, List.mem_cons,
    List.mem_append, not_or] at apart
  constructor
  case settling => exact settling
  all_goals grind

/-- The left subtree moves to `y`. -/
theorem exists_adopted
    {parentY child : Address}
    {nodeZ : NodeBase}
    (loadZ : load memory z = some nodeZ)
    (isLeft : nodeZ.left = root left)
    (holdsLeft : HoldsTree memory z left)
    (notEmpty : left ≠ .nil)
    (loadY : load memory y = some ⟨colorY, parentY, null, child⟩)
    (distinct : (null :: y :: z :: left.inorder).Nodup) :
    ∃ memory1 memory2,
      store memory nodeZ.left (NodeBase.setParent y) = some memory1 ∧
        load memory1 z = some nodeZ ∧
        store memory1 y (NodeBase.setChild .left nodeZ.left) =
          some memory2 ∧
        memory2 y = some ⟨colorY, parentY, root left, child⟩ ∧
        HoldsTree memory2 y left ∧
        ∀ other, other ≠ y → other ∉ left.inorder →
          memory2 other = memory other := by
  have yNotNull : y ≠ null := by grind
  have zNotNull : z ≠ null := by grind
  have rootNotNull : root left ≠ null := by
    intro isNull
    exact notEmpty (eq_nil_of_root isNull (by grind))
  obtain ⟨memory1, adopts, holds1, others1⟩ :=
    adopt_spec holdsLeft (by grind) y
  rw [adopt, if_neg rootNotNull, ← isLeft] at adopts
  have loadY1 : load memory1 y = some ⟨colorY, parentY, null, child⟩ := by
    rw [load_eq yNotNull, others1 y (by grind), of_load loadY]
  obtain ⟨memory2, store2, isY2, others2⟩ :=
    store_spec loadY1 (NodeBase.setChild .left nodeZ.left)
  refine ⟨memory1, memory2, adopts, ?_, store2, ?_, ?_, ?_⟩
  · rw [load_eq zNotNull, others1 z (by grind), of_load loadZ]
  · rw [isY2, isLeft]
    rfl
  · exact holds1.frame (by grind) others2
  · intro other notY notLeft
    rw [others2 other notY, others1 other notLeft]

/-- The successor is the right child. -/
theorem relink_child
    (held :
      Held memory header first last path
        (.node colorZ left z (.node colorY .nil y tree)))
    (notEmpty : left ≠ .nil) :
    ∃ memory',
      relink y z (root tree) header memory =
          some ⟨z, root tree, y, memory'⟩ ∧
        Held memory' header first last path (.node colorZ left y tree) ∧
        (∃ node, load memory' z = some node ∧ node.color = colorY) ∧
        ∀ other, other ≠ header → other ∉ y :: z :: left.inorder →
          other ∉ path.labels → memory' other = memory other := by
  have loadZ :=
    (show Held _ _ _ _ _
      (.join .left colorZ left z (.node colorY .nil y tree)) from
        held).load_root
  obtain ⟨above, ⟨-, holdsLeft, isY, -, holdsTree⟩, distinct⟩ := held
  simp only [ColoredTree.inorder, List.nil_append] at distinct
  rw [root] at above
  have yNotNull : y ≠ null := by grind
  have zNotNull : z ≠ null := by grind
  have loadY := (load_eq yNotNull).trans isY
  obtain ⟨memory1, memory2, store1, loadZ1, store2, isY2, holdsLeft2,
      others2⟩ :=
    exists_adopted loadZ rfl holdsLeft notEmpty loadY (by grind)
  have loadZ2 : load memory2 z = load memory1 z := by
    rw [loadZ1, load_eq zNotNull, others2 z (by grind) (by grind),
      of_load loadZ]
  obtain ⟨memory3, places, held3, loadZ3, others3⟩ :=
    exists_placed
      (above.congr (others2 header (by grind) (by grind))
        fun address member => others2 address (by grind) (by grind))
      (loadZ2.trans loadZ1) (record_parent ..)
      ((load_eq yNotNull).trans isY2) holdsLeft2
      (holdsTree.congr fun address member =>
        others2 address (by grind) (by grind)) (by grind)
  rw [record_color] at held3
  refine ⟨memory3, ?_, held3, ⟨_, loadZ3, rfl⟩, ?_⟩
  · have isRight : y = (record colorZ (parentOf header path) .left
        (root left) (root (.node colorY .nil y tree))).right := rfl
    simp [relink, loadZ, store1, loadZ1, store2, loadZ2, ← isRight, places]
  · intro other notHeader notInside offPath
    rw [others3 other notHeader (by grind) (by grind) offPath,
      others2 other (by grind) (by grind)]

/-- The child of the successor takes its place. -/
theorem exists_detached
    {origin : Memory}
    {parent : Address}
    (onSide : frame.side = .left)
    (holdsRight :
      HoldsTree origin parent
        (Path.plug (frame :: spine) (.node colorY .nil y tree)))
    (same :
      ∀ address ∈ Path.labels (frame :: spine),
        memory address = origin address)
    (holdsTree : HoldsTree memory y tree)
    (loaded :
      load memory frame.label =
        some (record frame.color (parentOf parent spine) .left y
          (root frame.sibling)))
    (distinct :
      (null :: (tree.inorder ++ Path.labels (frame :: spine))).Nodup) :
    ∃ memory1 memory2,
      adopt (root tree) frame.label memory = some memory1 ∧
        store memory1 frame.label (NodeBase.setChild .left (root tree)) =
          some memory2 ∧
        HoldsTree memory2 parent (Path.plug (frame :: spine) tree) ∧
        ∀ other, other ∉ tree.inorder → other ≠ frame.label →
          memory2 other = memory other := by
  simp only [Path.labels] at distinct same
  have notNull : frame.label ≠ null := by grind
  obtain ⟨memory1, adopts, holds1, others1⟩ :=
    adopt_spec holdsTree (by grind) frame.label
  have loaded1 : load memory1 frame.label =
      some (record frame.color (parentOf parent spine) .left y
        (root frame.sibling)) := by
    rw [load_eq notNull, others1 frame.label (by grind), of_load loaded]
  obtain ⟨memory2, store2, isNode2, others2⟩ :=
    store_spec loaded1 (NodeBase.setChild .left (root tree))
  rw [record_setChild] at isNode2
  refine ⟨memory1, memory2, adopts, store2, ?_, ?_⟩
  · refine @HoldsTree.plug_congr origin memory2 parent spine _ _ holdsRight ?_
      ?_ ?_
    · rw [Frame.fill, Frame.fill, root_join, root_join]
    · intro above filled
      rw [Frame.fill, holdsTree_join, onSide] at filled ⊢
      obtain ⟨isNode, -, holdsSibling⟩ := filled
      have isLoaded := of_load loaded
      rw [same frame.label (by grind), isNode, Option.some.injEq] at isLoaded
      have sameParent := congrArg NodeBase.parent isLoaded
      rw [record_parent, record_parent] at sameParent
      refine ⟨?_, holds1.frame (by grind) others2,
        holdsSibling.congr (by grind)⟩
      rw [isNode2, sameParent]
    · grind
  · intro other notInside notLabel
    rw [others2 other notLabel, others1 other notInside]

/-- The right subtree moves to `y`. -/
theorem exists_adopted_right
    {parentY child other : Address}
    {nodeZ : NodeBase}
    (loadZ : load memory z = some nodeZ)
    (isRight : nodeZ.right = root right)
    (holdsRight : HoldsTree memory z right)
    (notEmpty : right ≠ .nil)
    (loadY : load memory y = some ⟨colorY, parentY, other, child⟩)
    (distinct : (null :: y :: z :: right.inorder).Nodup) :
    ∃ memory1 memory2,
      store memory y (NodeBase.setChild .right nodeZ.right) = some memory1 ∧
        load memory1 z = some nodeZ ∧
        store memory1 nodeZ.right (NodeBase.setParent y) = some memory2 ∧
        memory2 y = some ⟨colorY, parentY, other, root right⟩ ∧
        HoldsTree memory2 y right ∧
        ∀ other, other ≠ y → other ∉ right.inorder →
          memory2 other = memory other := by
  have zNotNull : z ≠ null := by grind
  have rootNotNull : root right ≠ null := by
    intro isNull
    exact notEmpty (eq_nil_of_root isNull (by grind))
  obtain ⟨memory1, store1, isY1, others1⟩ :=
    store_spec loadY (NodeBase.setChild .right nodeZ.right)
  obtain ⟨memory2, adopts, holds2, others2⟩ :=
    adopt_spec (holdsRight.frame (by grind) others1) (by grind) y
  rw [adopt, if_neg rootNotNull, ← isRight] at adopts
  refine ⟨memory1, memory2, store1, ?_, adopts, ?_, holds2, ?_⟩
  · rw [load_eq zNotNull, others1 z (by grind), of_load loadZ]
  · rw [others2 y (by grind), isY1, isRight]
    rfl
  · intro other notY notRight
    rw [others2 other notRight, others1 other notY]

/-- The right subtree moves to `y`, and `y` to the place of `z`. -/
theorem exists_settled
    {nodeZ : NodeBase}
    {parentY child : Address}
    (above : HoldsPath memory header first last path z)
    (loadZ : load memory z = some nodeZ)
    (isParent : nodeZ.parent = parentOf header path)
    (isRight : nodeZ.right = root right)
    (loadY : load memory y = some ⟨colorY, parentY, root left, child⟩)
    (holdsLeft : HoldsTree memory y left)
    (holdsRight : HoldsTree memory z right)
    (notEmpty : right ≠ .nil)
    (distinct :
      (null :: header :: y :: z ::
        (left.inorder ++ right.inorder ++ path.labels)).Nodup) :
    ∃ memory1 memory2 memory3,
      store memory y (NodeBase.setChild .right nodeZ.right) = some memory1 ∧
        load memory1 z = some nodeZ ∧
        store memory1 nodeZ.right (NodeBase.setParent y) = some memory2 ∧
        takePlace y z header memory2 = some memory3 ∧
        Held memory3 header first last path
          (.node nodeZ.color left y right) ∧
        load memory3 z = some (nodeZ.setColor colorY) ∧
        ∀ other, other ≠ header → other ≠ y → other ≠ z →
          other ∉ right.inorder → other ∉ path.labels →
          memory3 other = memory other := by
  have apart := distinct
  simp only [List.nodup_cons, List.nodup_append, List.mem_cons,
    List.mem_append, not_or] at apart
  have yNotNull : y ≠ null := by grind
  have zNotNull : z ≠ null := by grind
  obtain ⟨memory1, memory2, store1, loadZ1, store2, isY2, holdsRight2,
      others2⟩ :=
    exists_adopted_right loadZ isRight holdsRight notEmpty loadY (by grind)
  have loadZ2 : load memory2 z = some nodeZ := by
    rw [load_eq zNotNull, others2 z (by grind) (by grind), of_load loadZ]
  have above2 : HoldsPath memory2 header first last path z :=
    above.congr (others2 header (by grind) (by grind))
      fun address member => others2 address (by grind) (by grind)
  have holdsLeft2 : HoldsTree memory2 y left :=
    holdsLeft.congr fun address member =>
      others2 address (by grind) (by grind)
  obtain ⟨memory3, places, held3, loadZ3, others3⟩ :=
    exists_placed above2 loadZ2 isParent ((load_eq yNotNull).trans isY2)
      holdsLeft2 holdsRight2 distinct
  refine ⟨memory1, memory2, memory3, store1, loadZ1, store2, places, held3,
    loadZ3, ?_⟩
  intro other notHeader notY notZ notRight offPath
  rw [others3 other notHeader notY notZ offPath, others2 other notY notRight]

/-- The successor is further down. -/
theorem relink_descendant
    (held :
      Held memory header first last path
        (.node colorZ left z
          (Path.plug (frame :: spine) (.node colorY .nil y tree))))
    (onSide : frame.side = .left)
    (notEmpty : left ≠ .nil) :
    ∃ memory',
      relink y z (root tree) header memory =
          some ⟨z, root tree, frame.label, memory'⟩ ∧
        Held memory' header first last path
          (.node colorZ left y (Path.plug (frame :: spine) tree)) ∧
        (∃ node, load memory' z = some node ∧ node.color = colorY) ∧
        ∀ other, other ≠ header →
          other ∉ y :: z :: (left.inorder ++
            (tree.inorder ++ Path.labels (frame :: spine))) →
          other ∉ path.labels → memory' other = memory other := by
  have loadZ :=
    (show Held _ _ _ _ _ (.join .left colorZ left z _) from held).load_root
  rw [root_plug_cons frame _ tree] at loadZ
  have inner :
      Held memory header first last
        (frame :: (spine ++ ⟨.right, colorZ, z, left⟩ :: path))
        (.join .left colorY .nil y tree) := by
    rw [← List.cons_append, held_append, held_cons]
    exact held
  have loadY := inner.load_root
  have loadP := inner.load_parent
  have holdsTree : HoldsTree memory y tree := inner.below.2.2
  have distinct := inner.distinct
  have splits :
      Path.labels (frame :: (spine ++ ⟨.right, colorZ, z, left⟩ :: path)) =
        Path.labels (frame :: spine) ++
          z :: (left.inorder ++ path.labels) :=
    Path.labels_append (frame :: spine) (⟨.right, colorZ, z, left⟩ :: path)
  rw [splits] at distinct
  simp only [ColoredTree.join, ColoredTree.inorder, List.nil_append]
    at distinct
  rw [parentOf_cons] at loadY
  rw [onSide, parentOf_append, root_join] at loadP
  obtain ⟨above, ⟨-, holdsLeft, holdsRight⟩, -⟩ := held
  rw [root] at above
  have onSpine : frame.label ∈ Path.labels (frame :: spine) := by
    simp [Path.labels]
  have perm := Path.inorder_plug_perm (frame :: spine) tree
  have rightNotEmpty : Path.plug (frame :: spine) tree ≠ .nil := by
    intro isNil
    have member := perm.mem_iff.mpr (List.mem_append_right _ onSpine)
    rw [isNil] at member
    cases member
  have apart := apart_of_nodup distinct onSpine
  -- The left subtree moves to `y`.
  obtain ⟨memory1, memory2, store1, loadZ1, store2, isY2, holdsLeft2,
      others2⟩ :=
    exists_adopted loadZ rfl holdsLeft notEmpty loadY apart.adopting
  have same2 : ∀ address ∈ tree.inorder ++ Path.labels (frame :: spine),
      memory2 address = memory address := by
    intro address member
    apply others2 address
    · rintro rfl
      exact apart.yOffRight member
    · exact apart.leftOffRight address member
  have loadZ2 : load memory2 z = load memory1 z := by
    rw [loadZ1, load_eq apart.zNotNull,
      others2 z apart.zNotY apart.zOffLeft, of_load loadZ]
  -- The child of `y` takes its place.
  have loadP2 : load memory2 frame.label = load memory frame.label := by
    rw [load_eq apart.pNotNull, load_eq apart.pNotNull,
      same2 frame.label (List.mem_append_right _ onSpine)]
  obtain ⟨memory3, memory4, adopts3, store4, holdsRight4, others4⟩ :=
    exists_detached onSide holdsRight
      (fun address member => same2 address (List.mem_append_right _ member))
      (holdsTree.congr fun address member =>
        same2 address (List.mem_append_left _ member))
      (loadP2.trans loadP) apart.detaching
  have loadZ4 : load memory4 z = load memory1 z := by
    rw [loadZ1, load_eq apart.zNotNull, others4 z apart.zOffTree apart.zNotP,
      ← of_load (loadZ2.trans loadZ1)]
  have loadY4 : load memory4 y =
      some ⟨colorY, frame.label, root left, root tree⟩ := by
    rw [load_eq apart.yNotNull, others4 y apart.yOffTree apart.yNotP, isY2]
  have same4 : ∀ address, address ≠ y → address ∉ left.inorder →
      address ∉ tree.inorder ++ Path.labels (frame :: spine) →
      memory4 address = memory address := by
    intro address notY notLeft notRight
    rw [List.mem_append, not_or] at notRight
    rw [others4 address notRight.1, others2 address notY notLeft]
    rintro rfl
    exact notRight.2 onSpine
  -- The right subtree moves to `y`, and `y` to the place of `z`.
  have above4 : HoldsPath memory4 header first last path z := by
    apply above.congr
    · exact same4 header apart.headerOff.1 apart.headerOff.2.1
        apart.headerOff.2.2
    · intro address member
      have off := apart.pathOff address member
      exact same4 address off.1 off.2.1 off.2.2
  have holdsLeft4 : HoldsTree memory4 y left :=
    holdsLeft2.congr fun address member =>
      others4 address (apart.leftOff address member).1
        (apart.leftOff address member).2
  have settling :
      (null :: header :: y :: z :: (left.inorder ++
        (Path.plug (frame :: spine) tree).inorder ++ path.labels)).Nodup := by
    have whole := ((perm.append_left left.inorder).append_right path.labels)
    rw [((((whole.cons z).cons y).cons header).cons null).nodup_iff]
    exact apart.settling
  obtain ⟨memory5, memory6, memory7, store5, loadZ5, store6, places, held7,
      loadZ7, others7⟩ :=
    exists_settled above4 (loadZ4.trans loadZ1) (record_parent ..) rfl loadY4
      holdsLeft4 holdsRight4 rightNotEmpty settling
  rw [record_color] at held7
  refine ⟨memory7, ?_, held7, ⟨_, loadZ7, rfl⟩, ?_⟩
  · have notTop : y ≠ root (Path.plug (frame :: spine) tree) := by
      intro isTop
      apply apart.yOffRight
      rw [isTop]
      exact List.mem_append_right _ (root_plug_mem frame tree)
    have loadY2 := (load_eq apart.yNotNull).trans isY2
    have isRight :
        (record colorZ (parentOf header path) .left (root left)
          (root (Path.plug (frame :: spine) tree))).right =
          root (Path.plug (frame :: spine) tree) := rfl
    rw [isRight] at store5 store6
    simp only [relink, loadZ, store1, loadZ1, store2, loadZ2, isRight, notTop,
      loadY2, adopts3, store4, loadZ4, store5, loadZ5, store6, places,
      Option.bind_eq_bind, Option.bind_some, if_false]
  · intro other notHeader notInside offPath
    simp only [List.mem_cons, List.mem_append, not_or] at notInside
    obtain ⟨notY, notZ, notLeft, notTree, offSpine⟩ := notInside
    have notRight : other ∉ tree.inorder ++ Path.labels (frame :: spine) := by
      rw [List.mem_append, not_or]
      exact ⟨notTree, offSpine⟩
    rw [others7 other notHeader notY notZ (perm.mem_iff.not.mpr notRight)
      offPath, same4 other notY notLeft notRight]

end Relink

end CsPrimer.RbTree
