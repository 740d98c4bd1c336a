import CsPrimer.RbTree.Linking

namespace CsPrimer.RbTree

open Library

/-!
# The first half of `_Rb_tree_rebalance_for_erase`

A node with two children gives its place and its color to its successor.  What
is left is a node with one child at most, which takes its place.
-/

section Extreme

variable
  {memory memory' : Memory}
  {parent header : Address}
  {tree : ColoredTree Address}

/-- `_S_minimum` and `_S_maximum` go to the end of a tree. -/
theorem extreme_spec
    (side : Side)
    (holds : HoldsTree memory parent tree)
    (notNull : null ∉ tree.inorder)
    (notEmpty : tree ≠ .nil) :
    ∃ spine color y far,
      tree = Path.plug spine (.join side color .nil y far) ∧
        (∀ frame ∈ spine, frame.side = side) ∧
        ∀ fuel, spine.length < fuel →
          extreme side fuel (root tree) memory = some y := by
  induction tree using ColoredTree.join_induction side generalizing parent with
  | empty =>
      exact absurd rfl notEmpty
  | joined color near label far inductionHypothesis _ =>
      obtain ⟨isNode, holdsNear, -⟩ := holdsTree_join.mp holds
      have perm :=
        ColoredTree.inorder_join_perm side color near far label
      rw [perm.mem_iff] at notNull
      simp only [List.mem_cons, List.mem_append, not_or] at notNull
      have loaded := (load_eq (Ne.symm notNull.1)).trans isNode
      rw [root_join]
      by_cases isEnd : near = .nil
      · subst isEnd
        refine ⟨[], color, label, far, rfl, by simp, ?_⟩
        intro fuel enough
        obtain ⟨rounds, rfl⟩ := Nat.exists_eq_succ_of_ne_zero enough.ne'
        simp [extreme, loaded, root]
      · obtain ⟨spine, inner, y, other, rfl, onSide, found⟩ :=
          inductionHypothesis holdsNear notNull.2.1 isEnd
        refine ⟨spine ++ [⟨side, color, label, far⟩], inner, y, other, ?_, ?_,
          ?_⟩
        · rw [Path.plug_append]
          rfl
        · intro frame member
          rcases List.mem_append.mp member with inside | isLast
          · exact onSide frame inside
          · rw [List.mem_singleton.mp isLast]
        · intro fuel enough
          rw [List.length_append, List.length_singleton] at enough
          obtain ⟨rounds, rfl⟩ :=
            Nat.exists_eq_succ_of_ne_zero (Nat.ne_zero_of_lt enough)
          have notNear : root (Path.plug spine
              (.join side inner .nil y other)) ≠ null := by
            intro isNull
            exact isEnd (eq_nil_of_root isNull notNull.2.1)
          simp [extreme, loaded, notNear, found rounds (by omega)]

end Extreme

section Unlink

variable
  {memory memory' : Memory}
  {header first last z x : Address}
  {path : Path Address}
  {node : NodeBase}

theorem of_load (loaded : load memory z = some node) :
    memory z = some node := by
  rw [load] at loaded
  split at loaded
  · cases loaded
  · exact loaded

theorem setChild_child (side : Side) :
    node.setChild side (node.child side) = node := by
  cases side <;> rfl

/-- What becomes of an end that the header points to. -/
theorem moveExtreme_spec
    {side : Side}
    {fuel : Nat}
    {ends : NodeBase}
    {target : Address}
    (isHeader : load memory header = some ends)
    (isNode : load memory z = some node)
    (stays : ends.child side ≠ z → target = ends.child side)
    (goesUp :
      ends.child side = z → node.child side.other = null →
        target = node.parent)
    (goesDown :
      ends.child side = z → node.child side.other ≠ null →
        extreme side fuel x memory = some target) :
    ∃ memory', moveExtreme side fuel z x header memory = some memory' ∧
      memory' header = some (ends.setChild side target) ∧
      ∀ other, other ≠ header → memory' other = memory other := by
  obtain ⟨memory', stores, isHeader', others⟩ :=
    store_spec isHeader (NodeBase.setChild side target)
  by_cases isEnd : ends.child side = z
  · refine ⟨memory', ?_, isHeader', others⟩
    by_cases isFree : node.child side.other = null
    · rw [goesUp isEnd isFree] at stores
      simp [moveExtreme, isHeader, isEnd, isNode, isFree, stores]
    · simp [moveExtreme, isHeader, isEnd, isNode, isFree,
        goesDown isEnd isFree, stores]
  · refine ⟨memory, ?_, ?_, fun _ _ => rfl⟩
    · simp [moveExtreme, isHeader, isEnd]
    · rw [stays isEnd, setChild_child, ← of_load isHeader]

end Unlink

section Ends

variable
  {header z : Address}
  {path : Path Address}
  {left right : ColoredTree Address}
  {before after : List Address}

theorem inorder_eq_nil
    {tree : ColoredTree Address}
    (isEmpty : tree.inorder = []) :
    tree = .nil := by
  cases tree with
  | nil =>
      rfl
  | node color left label right =>
      simp [ColoredTree.inorder] at isEmpty

/-- Another first node stays the first one. -/
theorem firstOf_erase
    (isOther : firstOf header (before ++ z :: after) ≠ z) :
    firstOf header (before ++ after) =
      firstOf header (before ++ z :: after) := by
  cases before with
  | nil =>
      simp [firstOf] at isOther
  | cons b rest =>
      simp [firstOf]

theorem lastOf_erase
    (isOther : lastOf header (before ++ z :: after) ≠ z) :
    lastOf header (before ++ after) =
      lastOf header (before ++ z :: after) := by
  rcases List.eq_nil_or_concat after with rfl | ⟨rest, b, rfl⟩
  · simp [lastOf] at isOther
  · simp [lastOf, List.getLast?_cons]

/-- There is nothing before the first node. -/
theorem before_eq_nil
    (distinct : (before ++ z :: after).Nodup)
    (isFirst : firstOf header (before ++ z :: after) = z) :
    before = [] := by
  cases before with
  | nil =>
      rfl
  | cons b rest =>
      simp only [firstOf, List.cons_append, List.head?_cons,
        Option.getD_some] at isFirst
      subst isFirst
      simp at distinct

theorem after_eq_nil
    (distinct : (before ++ z :: after).Nodup)
    (isLast : lastOf header (before ++ z :: after) = z) :
    after = [] := by
  rcases List.eq_nil_or_concat after with rfl | ⟨rest, b, rfl⟩
  · rfl
  · have isLabel : b = z := by
      simpa [lastOf, List.getLast?_cons] using isLast
    subst isLabel
    simp [List.nodup_append] at distinct

/-- Behind the first place of a tree comes the parent. -/
theorem firstOf_after (isEmpty : path.before = []) :
    firstOf header path.after = parentOf header path := by
  cases path with
  | nil =>
      rfl
  | cons frame above =>
      cases isSide : frame.side with
      | left =>
          simp [Path.after, isSide, firstOf]
      | right =>
          simp [Path.before, isSide] at isEmpty

theorem lastOf_before (isEmpty : path.after = []) :
    lastOf header path.before = parentOf header path := by
  cases path with
  | nil =>
      rfl
  | cons frame above =>
      cases isSide : frame.side with
      | left =>
          simp [Path.after, isSide] at isEmpty
      | right =>
          simp [Path.before, isSide, lastOf, List.getLast?_cons]

theorem before_of_side
    (onSide : ∀ frame ∈ path, frame.side = .left) :
    path.before = [] := by
  induction path with
  | nil =>
      rfl
  | cons frame above inductionHypothesis =>
      rw [Path.before, onSide frame List.mem_cons_self]
      exact inductionHypothesis fun other member =>
        onSide other (List.mem_cons_of_mem _ member)

theorem after_of_side
    (onSide : ∀ frame ∈ path, frame.side = .right) :
    path.after = [] := by
  induction path with
  | nil =>
      rfl
  | cons frame above inductionHypothesis =>
      rw [Path.after, onSide frame List.mem_cons_self]
      exact inductionHypothesis fun other member =>
        onSide other (List.mem_cons_of_mem _ member)

end Ends

section Splice

variable
  {memory : Memory}
  {header z : Address}
  {path : Path Address}
  {color : Color}
  {left right tree : ColoredTree Address}
  {nodes : List Address}
  {fuel : Nat}

/-- The first node of a subtree is the first one behind an empty place. -/
theorem minimum_eq_firstOf
    {parent : Address}
    (holds : HoldsTree memory parent tree)
    (notNull : null ∉ tree.inorder)
    (notEmpty : tree ≠ .nil)
    (enough :
      ∀ spine side color y far,
        tree = Path.plug spine (.join side color .nil y far) →
          spine.length < fuel)
    (rest : List Address) :
    minimum fuel (root tree) memory =
      some (firstOf header (tree.inorder ++ rest)) := by
  obtain ⟨spine, inner, y, far, isTree, onSide, found⟩ :=
    extreme_spec .left holds notNull notEmpty
  rw [minimum, found fuel (enough spine .left inner y far isTree), isTree,
    Path.inorder_plug, before_of_side onSide]
  simp [firstOf, ColoredTree.join, ColoredTree.inorder]

theorem maximum_eq_lastOf
    {parent : Address}
    (holds : HoldsTree memory parent tree)
    (notNull : null ∉ tree.inorder)
    (notEmpty : tree ≠ .nil)
    (enough :
      ∀ spine side color y far,
        tree = Path.plug spine (.join side color .nil y far) →
          spine.length < fuel)
    (rest : List Address) :
    maximum fuel (root tree) memory =
      some (lastOf header (rest ++ tree.inorder)) := by
  obtain ⟨spine, inner, y, far, isTree, onSide, found⟩ :=
    extreme_spec .right holds notNull notEmpty
  rw [maximum, found fuel (enough spine .right inner y far isTree), isTree,
    Path.inorder_plug, after_of_side onSide]
  simp [lastOf, ColoredTree.join, ColoredTree.inorder, List.getLast?_cons]

/-- The ends that have been `z` move on. -/
theorem exists_moved
    (held :
      Held memory header
        (firstOf header (path.before ++ left.inorder ++
          z :: (right.inorder ++ path.after)))
        (lastOf header (path.before ++ left.inorder ++
          z :: (right.inorder ++ path.after))) path tree)
    (loaded :
      load memory z =
        some ⟨color, parentOf header path, root left, root right⟩)
    (distinct :
      (null :: header :: (path.before ++ left.inorder ++
        z :: (right.inorder ++ path.after))).Nodup)
    (only : left = .nil ∧ tree = right ∨ right = .nil ∧ tree = left)
    (enough :
      ∀ spine side color y far,
        tree = Path.plug spine (.join side color .nil y far) →
          spine.length < fuel) :
    ∃ memory1 memory2,
      moveExtreme .left fuel z (root tree) header memory = some memory1 ∧
        moveExtreme .right fuel z (root tree) header memory1 =
          some memory2 ∧
        Held memory2 header
          (firstOf header (path.before ++ left.inorder ++
            (right.inorder ++ path.after)))
          (lastOf header (path.before ++ left.inorder ++
            (right.inorder ++ path.after))) path tree ∧
        ∀ other, other ≠ header → memory2 other = memory other := by
  have isHeader := held.load_header
  obtain ⟨above, below, apart⟩ := held
  have headerNotNull : header ≠ null := by grind
  have zNotNull : z ≠ null := by grind
  have zNotHeader : z ≠ header := by grind
  have nodup :
      (path.before ++ left.inorder ++
        z :: (right.inorder ++ path.after)).Nodup := by
    simp only [List.nodup_cons] at distinct
    exact distinct.2.2
  have notNull : null ∉ tree.inorder := by grind
  have notEmpty :
      ∀ child, tree = child → root child ≠ null → tree ≠ .nil := by
    rintro child rfl notNull rfl
    exact notNull rfl
  obtain ⟨memory1, moves1, isHeader1, others1⟩ :=
    @moveExtreme_spec memory header z (root tree) _ .left fuel _
      (firstOf header (path.before ++ left.inorder ++
        (right.inorder ++ path.after))) isHeader loaded
      (fun isOther => firstOf_erase isOther)
      (by
        intro isFirst isFree
        have isEmpty := before_eq_nil nodup isFirst
        rw [List.append_eq_nil_iff] at isEmpty
        have noRight := eq_nil_of_root isFree (by grind)
        rw [isEmpty.1, isEmpty.2, noRight]
        exact firstOf_after isEmpty.1)
      (by
        intro isFirst notFree
        have isEmpty := before_eq_nil nodup isFirst
        rw [List.append_eq_nil_iff] at isEmpty
        have isTree : tree = right := by
          rcases only with only | only
          · exact only.2
          · exact absurd (by rw [only.1]; rfl) notFree
        rw [isEmpty.1, isEmpty.2, ← isTree]
        exact minimum_eq_firstOf below notNull
          (notEmpty right isTree notFree) enough path.after)
  have loaded1 : load memory1 z =
      some ⟨color, parentOf header path, root left, root right⟩ := by
    rw [load_eq zNotNull, others1 z zNotHeader, of_load loaded]
  have below1 : HoldsTree memory1 (parentOf header path) tree :=
    below.congr fun address member => others1 address (by grind)
  obtain ⟨memory2, moves2, isHeader2, others2⟩ :=
    @moveExtreme_spec memory1 header z (root tree) _ .right fuel _
      (lastOf header (path.before ++ left.inorder ++
        (right.inorder ++ path.after)))
      ((load_eq headerNotNull).trans isHeader1) loaded1
      (fun isOther => lastOf_erase isOther)
      (by
        intro isLast isFree
        have isEmpty := after_eq_nil nodup isLast
        rw [List.append_eq_nil_iff] at isEmpty
        have noLeft := eq_nil_of_root isFree (by grind)
        rw [isEmpty.1, isEmpty.2, noLeft]
        simpa [ColoredTree.inorder] using lastOf_before isEmpty.2)
      (by
        intro isLast notFree
        have isEmpty := after_eq_nil nodup isLast
        rw [List.append_eq_nil_iff] at isEmpty
        have isTree : tree = left := by
          rcases only with only | only
          · exact absurd (by rw [only.1]; rfl) notFree
          · exact only.2
        rw [isEmpty.1, isEmpty.2, ← isTree, List.append_nil, List.append_nil]
        exact maximum_eq_lastOf below1 notNull
          (notEmpty left isTree notFree) enough path.before)
  have others : ∀ other, other ≠ header → memory2 other = memory other := by
    intro other isOther
    rw [others2 other isOther, others1 other isOther]
  refine ⟨memory1, memory2, moves1, moves2, ⟨?_, ?_, apart⟩, others⟩
  · apply above.ends _ (by grind) others
    intro top isTop
    have same := (load_eq headerNotNull).trans isTop
    rw [isHeader, Option.some.injEq, NodeBase.mk.injEq] at same
    rw [isHeader2, ← same.2.1]
    rfl
  · exact below.congr fun address member => others address (by grind)

/-- The only child takes the place of its parent. -/
theorem splice_spec
    (held :
      Held memory header (firstOf header nodes) (lastOf header nodes) path
        (.node color left z right))
    (isNodes : (path.plug (.node color left z right)).inorder = nodes)
    (only : left = .nil ∧ tree = right ∨ right = .nil ∧ tree = left)
    (enough :
      ∀ spine side color y far,
        tree = Path.plug spine (.join side color .nil y far) →
          spine.length < fuel) :
    ∃ memory',
      splice fuel z (root tree) header memory =
          some ⟨z, root tree, parentOf header path, memory'⟩ ∧
        Held memory' header
          (firstOf header (path.plug tree).inorder)
          (lastOf header (path.plug tree).inorder) path tree ∧
        load memory' z =
          some ⟨color, parentOf header path, root left, root right⟩ ∧
        ∀ other, other ≠ header → other ∉ nodes →
          memory' other = memory other := by
  have loadZ : load memory z =
      some ⟨color, parentOf header path, root left, root right⟩ :=
    (show Held _ _ _ _ _ (.join .left color left z right) from held).load_root
  obtain ⟨above, ⟨-, holdsLeft, holdsRight⟩, distinct⟩ := held
  have holdsTree : HoldsTree memory z tree := by
    rcases only with ⟨rfl, rfl⟩ | ⟨rfl, rfl⟩
    · exact holdsRight
    · exact holdsLeft
  have isInorder : tree.inorder = left.inorder ++ right.inorder := by
    rcases only with ⟨rfl, rfl⟩ | ⟨rfl, rfl⟩
    · rfl
    · simp [ColoredTree.inorder]
  have parts :
      (null :: header :: z :: (tree.inorder ++ path.labels)).Nodup := by
    have perm :=
      ColoredTree.inorder_join_perm .left color left right z
    rw [← isInorder] at perm
    exact (((perm.append_right path.labels).cons header).cons
      null).nodup_iff.mp distinct
  have isWhole :
      nodes = path.before ++ left.inorder ++
        z :: (right.inorder ++ path.after) := by
    rw [← isNodes, Path.inorder_plug]
    simp [ColoredTree.inorder]
  have isRest :
      (path.plug tree).inorder = path.before ++ left.inorder ++
        (right.inorder ++ path.after) := by
    rw [Path.inorder_plug, isInorder]
    simp
  have whole : (null :: header :: nodes).Nodup := by
    rw [← isNodes]
    exact (((Path.inorder_plug_perm ..).cons header).cons
      null).nodup_iff.mpr distinct
  have zNotNull : z ≠ null := by grind
  -- The child gets the parent.
  obtain ⟨memory1, adopts, holdsTree1, others1⟩ :=
    adopt_spec holdsTree (by grind) (parentOf header path)
  have loadZ1 : load memory1 z =
      some ⟨color, parentOf header path, root left, root right⟩ := by
    rw [load_eq zNotNull, others1 z (by grind), of_load loadZ]
  have above1 :
      HoldsPath memory1 header (firstOf header nodes) (lastOf header nodes)
        path z :=
    above.congr (others1 header (by grind))
      fun address member => others1 address (by grind)
  -- The parent gets the child.
  obtain ⟨memory2, replaces, above2, others2⟩ :=
    replaceChild_spec .left (root tree) above1 loadZ1 rfl (by grind)
  have loadZ2 : load memory2 z =
      some ⟨color, parentOf header path, root left, root right⟩ := by
    rw [load_eq zNotNull, others2 z (by grind) (by grind), of_load loadZ1]
  have holdsTree2 : HoldsTree memory2 (parentOf header path) tree :=
    holdsTree1.congr (by grind)
  have held2 :
      Held memory2 header (firstOf header nodes) (lastOf header nodes) path
        tree :=
    ⟨above2, holdsTree2, by grind⟩
  rw [isWhole] at held2 whole
  obtain ⟨memory3, memory4, moves3, moves4, held4, others4⟩ :=
    exists_moved held2 loadZ2 whole only enough
  refine ⟨memory4, ?_, isRest ▸ held4, ?_, ?_⟩
  · simp [splice, loadZ, adopts, replaces, moves3, moves4]
  · rw [load_eq zNotNull, others4 z (by grind), of_load loadZ2]
  · intro other notHeader notNode
    rw [← isNodes, Path.mem_plug_iff] at notNode
    have perm :=
      ColoredTree.inorder_join_perm .left color left right z
    rw [ColoredTree.join, ← isInorder] at perm
    rw [perm.mem_iff] at notNode
    rw [others4 other notHeader, others2 other notHeader (by grind),
      others1 other (by grind)]

end Splice

end CsPrimer.RbTree
