import CsPrimer.RbTree.Relinking

namespace CsPrimer.RbTree

open Library

/-!
# The loop of `_Rb_tree_rebalance_for_erase`

The loop goes up with a subtree that has one black node too few, until the
subtree is red or the whole tree, or until a rotation makes up for it.
-/

section Unlink

variable
  {memory : Memory}
  {header z : Address}
  {path : Path Address}
  {color : Color}
  {left right : ColoredTree Address}
  {nodes : List Address}
  {height fuel : Nat}

/-- A node without a child on one side is spliced out. -/
theorem unlink_splice
    {side : Side}
    {tree : ColoredTree Address}
    (held :
      Held memory header (firstOf header nodes) (lastOf header nodes) path
        (.join side color .nil z tree))
    (isNodes : (path.plug (.join side color .nil z tree)).inorder = nodes)
    (enough :
      ∀ spine other inner y far,
        tree = Path.plug spine (.join other inner .nil y far) →
          spine.length < fuel) :
    ∃ memory',
      unlink fuel z header memory =
          some ⟨z, root tree, parentOf header path, memory'⟩ ∧
        Held memory' header (firstOf header (path.plug tree).inorder)
          (lastOf header (path.plug tree).inorder) path tree ∧
        (∃ node, load memory' z = some node ∧ node.color = color) ∧
        ∀ other, other ≠ header → other ∉ nodes →
          memory' other = memory other := by
  have loaded := held.load_root
  cases side with
  | left =>
      obtain ⟨memory', splices, held', loaded', others⟩ :=
        splice_spec held isNodes (Or.inl ⟨rfl, rfl⟩) enough
      refine ⟨memory', ?_, held', ⟨_, loaded', rfl⟩, others⟩
      simp [unlink, loaded, record, splices]
  | right =>
      obtain ⟨memory', splices, held', loaded', others⟩ :=
        splice_spec held isNodes (Or.inr ⟨rfl, rfl⟩) enough
      refine ⟨memory', ?_, held', ⟨_, loaded', rfl⟩, others⟩
      by_cases isNull : root tree = null
      · rw [isNull] at splices
        simp [unlink, loaded, record, isNull, splices]
      · simp [unlink, loaded, record, isNull, splices]

/-- A node with two children is spliced out after its successor took over. -/
theorem unlink_relink
    {spine : Path Address}
    {colorY : Color}
    {y : Address}
    {tree : ColoredTree Address}
    (held :
      Held memory header (firstOf header nodes) (lastOf header nodes) path
        (.node color left z
          (Path.plug spine (.node colorY .nil y tree))))
    (isNodes :
      (path.plug (.node color left z
        (Path.plug spine (.node colorY .nil y tree)))).inorder = nodes)
    (notEmpty : left ≠ .nil)
    (onSide : ∀ frame ∈ spine, frame.side = .left)
    (enough : spine.length < fuel)
    (found :
      minimum fuel (root (Path.plug spine (.node colorY .nil y tree)))
        memory = some y) :
    ∃ memory',
      unlink fuel z header memory =
          some ⟨z, root tree, parentOf y spine, memory'⟩ ∧
        Held memory' header (firstOf header nodes) (lastOf header nodes)
          (spine ++ ⟨.right, color, y, left⟩ :: path) tree ∧
        (∃ node, load memory' z = some node ∧ node.color = colorY) ∧
        ∀ other, other ≠ header → other ∉ nodes →
          memory' other = memory other := by
  have distinct := held.distinct
  simp only [ColoredTree.inorder, List.nodup_cons, List.mem_cons,
    List.mem_append, not_or] at distinct
  have leftNotNull : root left ≠ null := by
    intro isNull
    exact notEmpty (eq_nil_of_root isNull distinct.1.2.1.1)
  have rightNotNull :
      root (Path.plug spine (.node colorY .nil y tree)) ≠ null := by
    intro isNull
    have isNil := eq_nil_of_root isNull distinct.1.2.1.2.2
    have member :
        y ∈ (Path.plug spine (.node colorY .nil y tree)).inorder := by
      rw [Path.mem_plug_iff]
      exact Or.inl (by simp [ColoredTree.inorder])
    rw [isNil] at member
    cases member
  have loadZ :=
    (show Held _ _ _ _ _ (.join .left color left z _) from held).load_root
  have inner :
      Held memory header (firstOf header nodes) (lastOf header nodes)
        (spine ++ ⟨.right, color, z, left⟩ :: path)
        (.join .left colorY .nil y tree) := by
    rw [held_append, held_cons]
    exact held
  have loadY := inner.load_root
  have inside : ∀ label, label ∈ nodes ↔
      label ∈ left.inorder ∨ label = z ∨ label ∈ tree.inorder ∨
        label = y ∨ label ∈ spine.labels ∨ label ∈ path.labels := by
    intro label
    rw [← isNodes, Path.mem_plug_iff]
    simp only [ColoredTree.inorder, List.mem_append, List.mem_cons,
      Path.mem_plug_iff, List.nil_append]
    tauto
  cases spine with
  | nil =>
      obtain ⟨memory', relinks, held', isColor, others⟩ :=
        relink_child held notEmpty
      refine ⟨memory', ?_, held_cons.mpr held', isColor, ?_⟩
      · simp [unlink, loadZ, record, leftNotNull, rightNotNull, found, loadY,
          relinks, parentOf]
      · intro other notHeader notNode
        rw [inside] at notNode
        exact others other notHeader (by simp; tauto) (by tauto)
  | cons frame rest =>
      obtain ⟨memory', relinks, held', isColor, others⟩ :=
        relink_descendant held (onSide frame List.mem_cons_self) notEmpty
      refine ⟨memory', ?_, ?_, isColor, ?_⟩
      · simp [unlink, loadZ, record, leftNotNull, rightNotNull, found, loadY,
          relinks]
      · rw [held_append, held_cons]
        exact held'
      · intro other notHeader notNode
        rw [inside] at notNode
        exact others other notHeader (by simp; tauto) (by tauto)

/-- What is left of a valid tree fits where a red node is gone. -/
structure Fits
    (color : Color)
    (path : Path Address)
    (tree : ColoredTree Address) : Prop where
  valid :
    ∃ height, tree.Valid height ∧
      path.Expects (height + if color = .black then 1 else 0)
  isBlack : color = .red → tree.color = .black
  notTop : color = .red → path ≠ []

theorem fits_of_valid
    {side : Side}
    {tree : ColoredTree Address}
    (valid : (path.plug (.join side color .nil z tree)).Valid height)
    (isBlack : (path.plug (.join side color .nil z tree)).color = .black) :
    Fits color path tree := by
  obtain ⟨below, joined, expects, -⟩ := Path.expects_of_plug valid isBlack
  cases color with
  | red =>
      rw [ColoredTree.valid_red] at joined
      refine ⟨⟨below, joined.2.2.2, expects⟩, fun _ => joined.2.1, ?_⟩
      rintro - rfl
      rw [Path.plug, ColoredTree.color_join] at isBlack
      cases isBlack
  | black =>
      rw [ColoredTree.valid_black] at joined
      obtain ⟨inner, rfl, -, treeValid⟩ := joined
      exact ⟨⟨inner, treeValid, expects⟩, by simp, by simp⟩

/-- Another node in the place of one with two children. -/
theorem Fits.relabel
    {inner outer : Path Address}
    {frame : Frame Address}
    {tree : ColoredTree Address}
    (fits : Fits color (inner ++ frame :: outer) tree)
    (label : Address) :
    Fits color
      (inner ++ ⟨frame.side, frame.color, label, frame.sibling⟩ :: outer)
      tree := by
  obtain ⟨⟨height, valid, expects⟩, isBlack, -⟩ := fits
  exact ⟨⟨height, valid, Path.expects_relabel expects⟩, isBlack,
    fun _ => by simp⟩

/-- A path below a child, with what is above the child. -/
theorem length_below_le
    {side : Side}
    {near tree : ColoredTree Address}
    {spine : Path Address}
    (valid :
      (path.plug (.join side color near z (spine.plug tree))).Valid height)
    (isBlack :
      (path.plug (.join side color near z (spine.plug tree))).color =
        .black) :
    (spine ++ ⟨side.other, color, z, near⟩ :: path).length ≤
      2 * Nat.log 2
        ((path.plug (.join side color near z
          (spine.plug tree))).inorder.length + 1) := by
  have whole :
      Path.plug (spine ++ ⟨side.other, color, z, near⟩ :: path) tree =
        path.plug (.join side color near z (spine.plug tree)) := by
    rw [Path.plug_append, Path.plug, Frame.fill, ColoredTree.join_other]
  rw [← whole] at valid isBlack ⊢
  exact Path.length_le_log valid isBlack

/-- A node has been taken out, and a place has lost a node of this color. -/
structure Vacated
    (memory : Memory)
    (header z : Address)
    (before after : List Address)
    (color : Color)
    (path : Path Address)
    (tree : ColoredTree Address)
    (memory' : Memory) : Prop where
  held :
    Held memory' header (firstOf header (before ++ after))
      (lastOf header (before ++ after)) path tree
  isNodes : (path.plug tree).inorder = before ++ after
  fits : Fits color path tree
  isColor : ∃ node, load memory' z = some node ∧ node.color = color
  others :
    ∀ other, other ≠ header → other ∉ before ++ z :: after →
      memory' other = memory other

/-- A node without a child on one side. -/
theorem exists_spliced
    {side : Side}
    {tree : ColoredTree Address}
    {before after : List Address}
    (held :
      Held memory header (firstOf header (before ++ z :: after))
        (lastOf header (before ++ z :: after)) path
        (.join side color .nil z tree))
    (isNodes :
      (path.plug (.join side color .nil z tree)).inorder =
        before ++ z :: after)
    (isRest : (path.plug tree).inorder = before ++ after)
    (valid : (path.plug (.join side color .nil z tree)).Valid height)
    (isBlack : (path.plug (.join side color .nil z tree)).color = .black)
    (enough :
      2 * Nat.log 2 ((before ++ z :: after).length + 1) < fuel) :
    ∃ memory',
      unlink fuel z header memory =
          some ⟨z, root tree, parentOf header path, memory'⟩ ∧
        Vacated memory header z before after color path tree memory' := by
  rw [← isNodes] at enough
  have short :
      ∀ spine other inner y far,
        tree = Path.plug spine (.join other inner .nil y far) →
          spine.length < fuel := by
    rintro spine other inner y far rfl
    have bound := length_below_le valid isBlack
    rw [List.length_append] at bound
    omega
  obtain ⟨memory', unlinks, held', isColor, others⟩ :=
    unlink_splice held isNodes short
  rw [isRest] at held'
  exact ⟨memory', unlinks, held', isRest, fits_of_valid valid isBlack,
    isColor, others⟩

/-- The first half takes a node out, and leaves what may be balanced. -/
theorem exists_unlinked
    {before after : List Address}
    (represents : Represents memory header (before ++ z :: after))
    (enough :
      2 * Nat.log 2 ((before ++ z :: after).length + 1) < fuel) :
    ∃ color path tree memory',
      unlink fuel z header memory =
          some ⟨z, root tree, parentOf header path, memory'⟩ ∧
        path.length < fuel ∧
        Vacated memory header z before after color path tree memory' := by
  obtain ⟨path, color, left, right, height, held, rfl, rfl, valid,
    isBlack⟩ := represents.exists_plug
  have isNodes :
      (path.plug (.node color left z right)).inorder =
        path.before ++ left.inorder ++ z :: (right.inorder ++ path.after) := by
    rw [Path.inorder_plug]
    simp [ColoredTree.inorder]
  have short := Path.length_le_log valid isBlack
  rw [isNodes] at short
  by_cases noLeft : left = .nil
  · subst noLeft
    obtain ⟨memory', unlinks, vacated⟩ :=
      @exists_spliced memory header z path color height fuel .left right _ _
        held isNodes (by rw [Path.inorder_plug]; simp [ColoredTree.inorder])
        valid isBlack enough
    exact ⟨color, path, right, memory', unlinks, by omega, vacated⟩
  by_cases noRight : right = .nil
  · subst noRight
    obtain ⟨memory', unlinks, vacated⟩ :=
      @exists_spliced memory header z path color height fuel .right left _ _
        held isNodes (by rw [Path.inorder_plug]; simp [ColoredTree.inorder])
        valid isBlack enough
    exact ⟨color, path, left, memory', unlinks, by omega, vacated⟩
  · have distinct := held.distinct
    simp only [ColoredTree.inorder, List.nodup_cons, List.mem_cons,
      List.mem_append, not_or] at distinct
    obtain ⟨spine, colorY, y, tree, rfl, onSide, found⟩ :=
      extreme_spec .left held.below.2.2 distinct.1.2.1.2.2 noRight
    have joined :
        ColoredTree.node color left z
            (spine.plug (.join .left colorY .nil y tree)) =
          .join .left color left z
            (spine.plug (.join .left colorY .nil y tree)) := rfl
    have whole :
        Path.plug (spine ++ ⟨.right, color, z, left⟩ :: path)
            (.join .left colorY .nil y tree) =
          path.plug (.node color left z
            (spine.plug (.join .left colorY .nil y tree))) := by
      rw [Path.plug_append]
      rfl
    have fits : Fits colorY (spine ++ ⟨.right, color, z, left⟩ :: path) tree :=
      fits_of_valid (whole ▸ valid) (whole ▸ isBlack)
    have bound := length_below_le (joined ▸ valid) (joined ▸ isBlack)
    rw [← joined, isNodes, List.length_append, List.length_cons] at bound
    obtain ⟨memory', unlinks, held', isColor, others⟩ :=
      unlink_relink held isNodes noLeft onSide (by omega)
        (found fuel (by omega))
    have nodup := represents.nodup
    simp only [List.nodup_cons] at nodup
    have notFirst :
        firstOf header (path.before ++ left.inorder ++
          z :: ((spine.plug (.join .left colorY .nil y tree)).inorder ++
            path.after)) ≠ z := by
      intro isFirst
      have isEmpty := before_eq_nil nodup.2.2 isFirst
      rw [List.append_eq_nil_iff] at isEmpty
      exact noLeft (inorder_eq_nil isEmpty.2)
    have notLast :
        lastOf header (path.before ++ left.inorder ++
          z :: ((spine.plug (.join .left colorY .nil y tree)).inorder ++
            path.after)) ≠ z := by
      intro isLast
      have isEmpty := after_eq_nil nodup.2.2 isLast
      rw [List.append_eq_nil_iff] at isEmpty
      exact noRight (inorder_eq_nil isEmpty.1)
    rw [← firstOf_erase notFirst, ← lastOf_erase notLast] at held'
    refine ⟨colorY, spine ++ ⟨.right, color, y, left⟩ :: path, tree, memory',
      ?_, ?_, held', ?_, fits.relabel y, isColor, others⟩
    · rw [unlinks, parentOf_append]
    · rw [List.length_append, List.length_cons]
      omega
    · rw [Path.plug_append, Path.plug, Path.inorder_plug, Frame.fill]
      simp [ColoredTree.join, ColoredTree.inorder, Path.inorder_plug,
        before_of_side onSide]

end Unlink

end CsPrimer.RbTree
