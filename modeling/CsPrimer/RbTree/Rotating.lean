import CsPrimer.RbTree.Held

namespace CsPrimer.RbTree

open Library

/-!
# Colors and rotations

Every store of a color and every rotation rearranges a tree: the labels stay
in their order, and no node outside of the tree is written.
-/

/-- The memory has come from another one, where it held another tree. -/
structure Rearranged
    (origin : Memory)
    (header first last : Address)
    (whole : ColoredTree Address)
    (memory : Memory)
    (path : Path Address)
    (tree : ColoredTree Address) : Prop where
  held : Held memory header first last path tree
  order : (path.plug tree).inorder = whole.inorder
  others :
    ∀ address, address ≠ header → address ∉ whole.inorder →
      memory address = origin address

section Stores

variable
  {memory memory' : Memory}
  {parent header first last hole address : Address}
  {path : Path Address}
  {tree : ColoredTree Address}

theorem load_eq (notNull : address ≠ null) :
    load memory address = memory address :=
  if_neg notNull

theorem store_spec
    {node : NodeBase}
    (loaded : load memory address = some node)
    (change : NodeBase → NodeBase) :
    ∃ memory', store memory address change = some memory' ∧
      memory' address = some (change node) ∧
      ∀ other, other ≠ address → memory' other = memory other := by
  refine ⟨Function.update memory address (some (change node)), ?_,
    Function.update_self .., ?_⟩
  · rw [store, loaded]
    rfl
  · exact fun other isOther => Function.update_of_ne isOther _ _

/-- A store beside a subtree. -/
theorem HoldsTree.frame
    (holds : HoldsTree memory parent tree)
    (isOther : address ∉ tree.inorder)
    (others : ∀ other, other ≠ address → memory' other = memory other) :
    HoldsTree memory' parent tree := by
  apply holds.congr
  intro other member
  apply others
  rintro rfl
  exact isOther member

/-- A store beside a path. -/
theorem HoldsPath.frame
    (holds : HoldsPath memory header first last path hole)
    (notHeader : address ≠ header)
    (isOther : address ∉ path.labels)
    (others : ∀ other, other ≠ address → memory' other = memory other) :
    HoldsPath memory' header first last path hole := by
  apply holds.congr
  · exact others header notHeader.symm
  · intro other member
    apply others
    rintro rfl
    exact isOther member

/-- The subtree that is adopted has another parent afterwards. -/
theorem adopt_spec
    (holds : HoldsTree memory parent tree)
    (distinct : (null :: tree.inorder).Nodup)
    (parent' : Address) :
    ∃ memory', adopt (root tree) parent' memory = some memory' ∧
      HoldsTree memory' parent' tree ∧
      ∀ other, other ∉ tree.inorder → memory' other = memory other := by
  cases tree with
  | nil =>
      exact ⟨memory, rfl, trivial, fun _ _ => rfl⟩
  | node color left label right =>
      obtain ⟨isNode, holdsLeft, holdsRight⟩ := holds
      simp only [ColoredTree.inorder, List.nodup_cons, List.mem_append,
        List.mem_cons, List.nodup_append, not_or] at distinct
      obtain ⟨⟨-, notNull, -⟩, -, ⟨notRight, -⟩, apart⟩ := distinct
      have notLeft : label ∉ left.inorder := by
        intro member
        exact apart label member label (Or.inl rfl) rfl
      obtain ⟨memory', stores, isNode', others⟩ :=
        store_spec ((load_eq (Ne.symm notNull)).trans isNode)
          (NodeBase.setParent parent')
      refine ⟨memory', ?_, ⟨isNode', holdsLeft.frame notLeft others,
        holdsRight.frame notRight others⟩, ?_⟩
      · rw [root, adopt, if_neg (Ne.symm notNull), stores]
      · intro other notMember
        apply others
        rintro rfl
        exact notMember (by simp [ColoredTree.inorder])

theorem root_mem_labels (frame : Frame Address) :
    root frame.sibling = null ∨
      root frame.sibling ∈ frame.sibling.inorder := by
  cases frame.sibling with
  | nil =>
      exact Or.inl rfl
  | node color left label right =>
      exact Or.inr (by simp [root, ColoredTree.inorder])

/-- The header points to the top of the path. -/
theorem HoldsPath.exists_top
    {frame : Frame Address}
    (holds : HoldsPath memory header first last (frame :: path) hole) :
    ∃ top ∈ Path.labels (frame :: path),
      memory header = some ⟨.red, top, first, last⟩ := by
  induction path generalizing frame hole with
  | nil =>
      exact ⟨frame.label, by simp [Path.labels], holds.2.2⟩
  | cons next above inductionHypothesis =>
      obtain ⟨top, onPath, isHeader⟩ := inductionHypothesis holds.2.2
      exact ⟨top, by simp [Path.labels] at onPath ⊢; tauto, isHeader⟩

/-- What has pointed to `x` points to `y` afterwards. -/
theorem replaceChild_spec
    (side : Side)
    {x : Address}
    (y : Address)
    {node : NodeBase}
    (holds : HoldsPath memory header first last path x)
    (loaded : load memory x = some node)
    (isParent : node.parent = parentOf header path)
    (distinct : (null :: header :: x :: path.labels).Nodup) :
    ∃ memory', replaceChild side x y header memory = some memory' ∧
      HoldsPath memory' header first last path y ∧
      ∀ other, other ≠ header → other ∉ path.labels →
        memory' other = memory other := by
  have headerNotNull : header ≠ null := by
    rintro rfl
    simp at distinct
  cases path with
  | nil =>
      have isHeader : load memory header = some ⟨.red, x, first, last⟩ := by
        rw [load, if_neg headerNotNull]
        exact holds
      obtain ⟨memory', stores, isHeader', others⟩ :=
        store_spec isHeader (NodeBase.setParent y)
      refine ⟨memory', ?_, isHeader', ?_⟩
      · simp [replaceChild, isHeader, stores]
      · exact fun other notHeader _ => others other notHeader
  | cons frame above =>
      obtain ⟨top, onPath, isTop⟩ := holds.exists_top
      obtain ⟨isNode, holdsSibling, holdsAbove⟩ := holds
      simp only [List.nodup_cons, List.mem_cons, not_or] at distinct
      obtain ⟨⟨-, xNotNull, nullOff⟩, ⟨-, headerOff⟩, xOff, nodup⟩ := distinct
      have isHeader : load memory header = some ⟨.red, top, first, last⟩ := by
        rw [load, if_neg headerNotNull, isTop]
      have notTop : x ≠ top := by
        rintro rfl
        exact xOff onPath
      have isFrame : frame.label ∈ Path.labels (frame :: above) := by
        simp [Path.labels]
      have frameNotNull : frame.label ≠ null := by
        intro isNull
        exact nullOff (isNull ▸ isFrame)
      have notHeader : frame.label ≠ header := by
        intro same
        exact headerOff (same ▸ isFrame)
      have isLoaded : load memory frame.label =
          some (record frame.color (parentOf header above) frame.side x
            (root frame.sibling)) := by
        rw [load, if_neg frameNotNull, isNode]
      have notSibling : x ≠ root frame.sibling := by
        intro same
        rcases root_mem_labels frame with isNull | member
        · exact xNotNull (by rw [same, isNull])
        · exact xOff (by simp [Path.labels, same, member])
      simp only [Path.labels, List.nodup_cons, List.mem_append, not_or]
        at nodup
      obtain ⟨⟨notInSibling, notAbove⟩, -⟩ := nodup
      obtain ⟨memory', stores, isNode', others⟩ :=
        store_spec isLoaded (NodeBase.setChild frame.side y)
      rw [record_setChild] at isNode'
      refine ⟨memory', ?_, ⟨isNode', holdsSibling.frame notInSibling others,
        holdsAbove.frame notHeader notAbove others⟩, ?_⟩
      · rw [replaceChild, isHeader]
        simp only [Option.bind_eq_bind, Option.bind_some, if_neg notTop,
          loaded, isParent, parentOf_cons, isLoaded]
        rcases side.eq_or_other frame.side with rfl | rfl
        · simp [stores]
        · simp [notSibling, stores]
      · intro other _ notOnPath
        apply others
        rintro rfl
        exact notOnPath isFrame

end Stores

section Held

variable
  {memory : Memory}
  {header first last x y : Address}
  {path : Path Address}
  {near middle far : ColoredTree Address}
  {side : Side}
  {color upper lower : Color}

/-- A store of a color changes the color in the tree. -/
theorem Held.recolor
    (held : Held memory header first last path (.join side color near x far))
    (color' : Color) :
    ∃ memory', store memory x (NodeBase.setColor color') = some memory' ∧
      Held memory' header first last path (.join side color' near x far) ∧
      ∀ other, other ≠ x → memory' other = memory other := by
  have loaded := held.load_root
  obtain ⟨above, below, distinct⟩ := held
  rw [holdsTree_join] at below
  rw [root_join] at above
  have perm := ColoredTree.inorder_join_perm side color near far x
  have perm' := ColoredTree.inorder_join_perm side color' near far x
  have nodup := distinct
  rw [(((perm.append_right path.labels).cons header).cons null).nodup_iff]
    at nodup
  simp only [List.cons_append, List.nodup_cons, List.mem_cons,
    List.mem_append, not_or] at nodup
  obtain ⟨-, ⟨notHeader, -⟩, ⟨⟨notNear, notFar⟩, notAbove⟩, -⟩ := nodup
  obtain ⟨memory', stores, isNode, others⟩ :=
    store_spec loaded (NodeBase.setColor color')
  rw [record_setColor] at isNode
  refine ⟨memory', stores, ⟨?_, ?_, ?_⟩, others⟩
  · rw [root_join]
    exact above.frame (Ne.symm notHeader) notAbove others
  · rw [holdsTree_join]
    exact ⟨isNode, below.2.1.frame notNear others,
      below.2.2.frame notFar others⟩
  · exact ((((perm'.trans perm.symm).append_right path.labels).cons
      header).cons null).nodup_iff.mpr distinct

/-- A rotation, as the memory shows it. -/
theorem Held.rotate
    (held :
      Held memory header first last path
        (.join side lower near x (.join side.other upper far y middle))) :
    ∃ memory', rotate side x header memory = some memory' ∧
      Held memory' header first last path
        (.join side upper (.join side lower near x middle) y far) ∧
      ∀ other, other ≠ header →
        other ∉ (ColoredTree.join side lower near x
          (.join side.other upper far y middle)).inorder →
        other ∉ path.labels → memory' other = memory other := by
  rw [ColoredTree.join_other] at held ⊢
  have loadX := held.load_root
  obtain ⟨above, below, distinct⟩ := held
  rw [holdsTree_join, holdsTree_join, root_join] at below
  rw [root_join] at above loadX
  obtain ⟨-, holdsNear, isY, holdsMiddle, holdsFar⟩ := below
  have perm :
      (ColoredTree.join side lower near x
        (.join side upper middle y far)).inorder.Perm
        (x :: (near.inorder ++ y :: (middle.inorder ++ far.inorder))) :=
    (ColoredTree.inorder_join_perm ..).trans
      (((ColoredTree.inorder_join_perm side upper middle far y).append_left
        near.inorder).cons x)
  have nodup := distinct
  rw [(((perm.append_right path.labels).cons header).cons null).nodup_iff]
    at nodup
  simp only [List.cons_append, List.append_assoc, List.nodup_cons,
    List.nodup_append, List.mem_cons, List.mem_append, not_or] at nodup
  have yNotNull : y ≠ null := by grind
  have xNotNull : x ≠ null := by grind
  have loadY : load memory y =
      some (record upper x side (root middle) (root far)) :=
    (load_eq yNotNull).trans isY
  have notSame : y ≠ x := by grind
  -- The inner subtree moves from `y` to `x`.
  obtain ⟨memory1, store1, isX1, others1⟩ :=
    store_spec loadX (NodeBase.setChild side.other (root middle))
  rw [record_setChild_other] at isX1
  have holdsMiddle1 : HoldsTree memory1 y middle :=
    holdsMiddle.frame (by grind) others1
  obtain ⟨memory2, adopts, holdsMiddle2, others2⟩ :=
    adopt_spec holdsMiddle1 (by grind) x
  have loadX2 : load memory2 x =
      some (record lower (parentOf header path) side (root near)
        (root middle)) := by
    rw [load_eq xNotNull, others2 x (by grind), isX1]
  have loadY2 : load memory2 y =
      some (record upper x side (root middle) (root far)) := by
    rw [load_eq yNotNull, others2 y (by grind), others1 y notSame, isY]
  -- What has pointed to `x` points to `y`.
  obtain ⟨memory3, store3, isY3, others3⟩ :=
    store_spec loadY2 (NodeBase.setParent (parentOf header path))
  rw [record_setParent] at isY3
  have loadX3 : load memory3 x = load memory2 x := by
    rw [load_eq xNotNull, load_eq xNotNull, others3 x notSame.symm]
  have above3 : HoldsPath memory3 header first last path x :=
    above.congr (by grind) (by grind)
  obtain ⟨memory4, replaces, above4, others4⟩ :=
    replaceChild_spec side y above3 (loadX3.trans loadX2)
      (record_parent ..) (by grind)
  have loadX4 : load memory4 x = load memory2 x := by
    rw [← loadX3, load_eq xNotNull, load_eq xNotNull,
      others4 x (by grind) (by grind)]
  have loadY4 : load memory4 y =
      some (record upper (parentOf header path) side (root middle)
        (root far)) := by
    rw [load_eq yNotNull, others4 y (by grind) (by grind), isY3]
  -- `x` becomes the child of `y`.
  obtain ⟨memory5, store5, isY5, others5⟩ :=
    store_spec loadY4 (NodeBase.setChild side x)
  rw [record_setChild] at isY5
  have loadX5 : load memory5 x = load memory2 x := by
    rw [← loadX4, load_eq xNotNull, load_eq xNotNull, others5 x notSame.symm]
  obtain ⟨memory6, store6, isX6, others6⟩ :=
    store_spec (loadX5.trans loadX2) (NodeBase.setParent y)
  rw [record_setParent] at isX6
  have same : ∀ other, other ≠ x → other ≠ y → other ≠ header →
      other ∉ path.labels → memory6 other = memory2 other := by
    intro other notX notY notHeader offPath
    rw [others6 other notX, others5 other notY,
      others4 other notHeader offPath, others3 other notY]
  refine ⟨memory6, ?_, ⟨?_, ?_, ?_⟩, ?_⟩
  · simp only [RbTree.rotate, Option.bind_eq_bind, loadX, loadY,
      Option.bind_some, record_child_other, record_child, store1, adopts,
      loadX2, record_parent, store3, replaces, store5, store6]
  · rw [root_join]
    exact (above4.frame (by grind) (by grind) others5).frame (by grind)
      (by grind) others6
  · rw [holdsTree_join, holdsTree_join, root_join]
    refine ⟨?_, ⟨isX6, ?_, ?_⟩, ?_⟩
    · rw [others6 y notSame, isY5]
    · exact holdsNear.congr (by grind)
    · exact holdsMiddle2.congr (by grind)
    · exact holdsFar.congr (by grind)
  · rw [ColoredTree.inorder_rotate]
    exact distinct
  · intro other notHeader notInside offPath
    rw [perm.mem_iff] at notInside
    grind

end Held

namespace Rearranged

variable
  {origin memory memory' : Memory}
  {header first last x y : Address}
  {whole tree tree' near middle far : ColoredTree Address}
  {path : Path Address}
  {frame : Frame Address}
  {side : Side}
  {color upper lower : Color}

theorem start (held : Held memory header first last path tree) :
    Rearranged memory header first last (path.plug tree) memory path tree :=
  ⟨held, rfl, fun _ _ _ => rfl⟩

theorem cons_iff :
    Rearranged origin header first last whole memory (frame :: path) tree ↔
      Rearranged origin header first last whole memory path
        (frame.fill tree) :=
  ⟨fun rearranged =>
      ⟨held_cons.mp rearranged.held, rearranged.order, rearranged.others⟩,
    fun rearranged =>
      ⟨held_cons.mpr rearranged.held, rearranged.order, rearranged.others⟩⟩

/-- One more step, which keeps the labels and writes no other node. -/
theorem step
    (rearranged :
      Rearranged origin header first last whole memory path tree)
    (held : Held memory' header first last path tree')
    (order : tree'.inorder = tree.inorder)
    (others :
      ∀ address, address ≠ header → address ∉ tree.inorder →
        address ∉ path.labels → memory' address = memory address) :
    Rearranged origin header first last whole memory' path tree' := by
  refine ⟨held, ?_, ?_⟩
  · rw [Path.inorder_plug_congr order, rearranged.order]
  · intro address notHeader notInside
    rw [← rearranged.others address notHeader notInside]
    rw [← rearranged.order, Path.mem_plug_iff, not_or] at notInside
    exact others address notHeader notInside.1 notInside.2

theorem recolor
    (rearranged :
      Rearranged origin header first last whole memory path
        (.join side color near x far))
    (color' : Color) :
    ∃ memory', store memory x (NodeBase.setColor color') = some memory' ∧
      Rearranged origin header first last whole memory' path
        (.join side color' near x far) := by
  obtain ⟨memory', stores, held, others⟩ := rearranged.held.recolor color'
  refine ⟨memory', stores, rearranged.step held ?_ ?_⟩
  · exact ColoredTree.inorder_join_congr rfl rfl
  · intro address _ notInside _
    apply others
    rintro rfl
    exact notInside (ColoredTree.mem_join ..)

theorem rotate
    (rearranged :
      Rearranged origin header first last whole memory path
        (.join side lower near x (.join side.other upper far y middle))) :
    ∃ memory', RbTree.rotate side x header memory = some memory' ∧
      Rearranged origin header first last whole memory' path
        (.join side upper (.join side lower near x middle) y far) := by
  obtain ⟨memory', rotates, held, others⟩ := rearranged.held.rotate
  refine ⟨memory', rotates, rearranged.step held ?_ others⟩
  rw [ColoredTree.join_other]
  exact ColoredTree.inorder_rotate ..

end Rearranged

end CsPrimer.RbTree
