import CsPrimer.RbTree.Balancing

namespace CsPrimer.RbTree

open Library

/-!
# Iterators

An iterator goes up as long as it comes from the side that it goes to.  Above
the root it meets the header, which looks like a node with the root as its
parent.
-/

/-- The first node above that is not reached from this side. -/
def turn (side : Side) : Path Address → Option Address
  | [] => none
  | frame :: above =>
      if frame.side = side then
        turn side above
      else
        some frame.label

theorem turn_right (path : Path Address) :
    turn .right path = path.after.head? := by
  induction path with
  | nil =>
      rfl
  | cons frame above inductionHypothesis =>
      cases isSide : frame.side <;>
        simp [turn, Path.after, isSide, inductionHypothesis]

theorem turn_left (path : Path Address) :
    turn .left path = path.before.getLast? := by
  induction path with
  | nil =>
      rfl
  | cons frame above inductionHypothesis =>
      cases isSide : frame.side <;>
        simp [turn, Path.before, isSide, inductionHypothesis,
          List.getLast?_cons]

section Climb

variable
  {memory : Memory}
  {header first last y : Address}
  {path : Path Address}
  {tree : ColoredTree Address}
  {side : Side}
  {fuel : Nat}

/-- A child is not above its parent. -/
theorem child_ne_parent
    (held : Held memory header first last path tree)
    (notEmpty : tree ≠ .nil) :
    ∃ node, load memory (root tree) = some node ∧
      node.child side ≠ parentOf header path := by
  obtain ⟨color, near, label, far, rfl⟩ :=
    ColoredTree.exists_join side notEmpty
  rw [root_join]
  refine ⟨_, held.load_root, ?_⟩
  rw [record_child]
  have distinct := held.distinct
  have perm := ColoredTree.inorder_join_perm side color near far label
  have isAbove :
      parentOf header path = header ∨ parentOf header path ∈ path.labels := by
    cases path with
    | nil =>
        exact Or.inl rfl
    | cons frame above =>
        exact Or.inr (by simp [Path.labels])
  have nearHeld :
      Held memory header first last (⟨side, color, label, far⟩ :: path)
        near :=
    held_cons.mpr held
  by_cases isEmpty : near = .nil
  · rw [isEmpty, root_nil]
    simp only [List.nodup_cons, List.mem_cons, List.mem_append, not_or]
      at distinct
    intro isNull
    rcases isAbove with isHeader | onPath
    · exact distinct.1.1 (isNull.trans isHeader)
    · exact distinct.1.2.2 (isNull ▸ onPath)
  · apply nearHeld.root_ne isEmpty
    rcases isAbove with isHeader | onPath
    · exact Or.inr (Or.inl isHeader)
    · exact Or.inr (Or.inr (by simp [Path.labels, onPath]))

/-- The loop stops at the first node that is not reached from this side. -/
theorem climb_turn
    (held : Held memory header first last path tree)
    (notEmpty : tree ≠ .nil)
    (turns : turn side path = some y)
    (enough : path.length ≤ fuel) :
    ∃ x node,
      climb side fuel (root tree) (parentOf header path) memory =
          some (x, y) ∧
        load memory x = some node ∧ node.child side ≠ y := by
  induction path generalizing tree fuel with
  | nil =>
      cases turns
  | cons frame above inductionHypothesis =>
      obtain ⟨rounds, rfl⟩ :=
        Nat.exists_eq_succ_of_ne_zero (Nat.ne_zero_of_lt enough)
      have loadP := held.load_parent
      by_cases isSide : frame.side = side
      · rw [turn, if_pos isSide] at turns
        obtain ⟨x, node, climbs, found⟩ :=
          inductionHypothesis (held_cons.mp held)
            (by
              obtain ⟨frameSide, color, label, sibling⟩ := frame
              cases frameSide <;> simp [Frame.fill, ColoredTree.join])
            turns (Nat.le_of_succ_le_succ enough)
        rw [Frame.fill, root_join] at climbs
        refine ⟨x, node, ?_, found⟩
        rw [isSide] at loadP
        simp [climb, loadP, climbs]
      · rw [turn, if_neg isSide, Option.some.injEq] at turns
        subst turns
        obtain ⟨node, loaded, notParent⟩ := @child_ne_parent _ _ _ _ _ _ side
          held notEmpty
        refine ⟨root tree, node, ?_, loaded, notParent⟩
        have isOther := (frame.side.eq_or_other side).resolve_left isSide
        have notSibling := held.isChild (Or.inl notEmpty)
        rw [isOther] at loadP
        have child :
            (record frame.color (parentOf header above) side.other (root tree)
              (root frame.sibling)).child side = root frame.sibling := by
          rw [record_other, record_child]
        simp [climb, loadP, child, notSibling]

/-- A path without such a node leads to the header. -/
theorem climb_top
    (held : Held memory header first last path tree)
    (noTurn : turn side path = none) :
    climb side (path.length + fuel) (root tree) (parentOf header path)
        memory =
      climb side fuel (root (path.plug tree)) header memory := by
  induction path generalizing tree with
  | nil =>
      simp [parentOf, Path.plug]
  | cons frame above inductionHypothesis =>
      by_cases isSide : frame.side = side
      · rw [turn, if_pos isSide] at noTurn
        have loadP := held.load_parent
        rw [isSide] at loadP
        have climbs := inductionHypothesis (held_cons.mp held) noTurn
        rw [Frame.fill, root_join] at climbs
        rw [List.length_cons, Nat.add_right_comm]
        simpa [climb, loadP, Path.plug, Frame.fill] using climbs
      · rw [turn, if_neg isSide] at noTurn
        cases noTurn

end Climb

section Step

variable
  {memory : Memory}
  {header first last x : Address}
  {path : Path Address}
  {left right : ColoredTree Address}
  {color : Color}
  {before after : List Address}
  {fuel : Nat}

/-- `++` from a node with a right subtree, or up to a node. -/
theorem increment_inside
    (held : Held memory header first last path (.node color left x right))
    (isInside : right.inorder ++ path.after ≠ [])
    (pathEnough : path.length ≤ fuel)
    (enough :
      ∀ spine side inner y far,
        right = Path.plug spine (.join side inner .nil y far) →
          spine.length < fuel) :
    increment fuel x memory =
      some (firstOf header (right.inorder ++ path.after)) := by
  have loaded :=
    (show Held _ _ _ _ _ (.join .left color left x right) from held).load_root
  have distinct := held.distinct
  simp only [ColoredTree.inorder, List.nodup_cons, List.mem_cons,
    List.mem_append, not_or] at distinct
  by_cases noRight : right = .nil
  · subst noRight
    have notEnd : path.after ≠ [] := by
      simpa [ColoredTree.inorder] using isInside
    obtain ⟨y, rest, isAfter⟩ := List.exists_cons_of_ne_nil notEnd
    have turns : turn .right path = some y := by
      rw [turn_right, isAfter, List.head?_cons]
    obtain ⟨x', node, climbs, loaded', notParent⟩ :=
      climb_turn held (by simp) turns pathEnough
    rw [root] at climbs
    have notRight : node.right ≠ y := notParent
    simp [increment, loaded, record, climbs, loaded', notRight,
      ColoredTree.inorder, isAfter, firstOf]
  · have notNull : root right ≠ null := by
      intro isNull
      exact noRight (eq_nil_of_root isNull distinct.1.2.1.2.2)
    have found :=
      @minimum_eq_firstOf memory header right fuel x held.below.2.2
        distinct.1.2.1.2.2 noRight enough path.after
    simp [increment, loaded, record, notNull, found]

/-- `++` from the last node leads to the header, be it the root or not. -/
theorem increment_last
    (held : Held memory header first x path (.node color left x .nil))
    (isEnd : path.after = [])
    (enough : path.length + 2 ≤ fuel) :
    increment fuel x memory = some header := by
  have loaded :=
    (show Held _ _ _ _ _ (.join .left color left x .nil) from held).load_root
  have isHeader := held.load_header
  have isTop := held.root_eq_iff
  have noTurn : turn .right path = none := by
    rw [turn_right, isEnd, List.head?_nil]
  have headerNotNull := held.header_ne_null
  obtain ⟨rest, rfl⟩ : ∃ rest, fuel = path.length + (rest + 2) :=
    ⟨fuel - path.length - 2, by omega⟩
  have climbs :=
    @climb_top memory header first x path _ .right (rest + 2) held noTurn
  rw [root] at climbs isTop
  have wholeNotEmpty : path.plug (.node color left x .nil) ≠ .nil := by
    intro isNil
    have member :
        x ∈ (path.plug (.node color left x .nil)).inorder := by
      rw [Path.mem_plug_iff]
      exact Or.inl (by simp [ColoredTree.inorder])
    rw [isNil] at member
    cases member
  obtain ⟨node, loadTop, notHeader⟩ :=
    @child_ne_parent _ _ _ _ _ _ .right (held_plug.mp held) wholeNotEmpty
  have notHeader : node.right ≠ header := notHeader
  by_cases isRoot : path = []
  · have isX := (isTop.mpr isRoot).symm
    rw [isX] at climbs isHeader
    have found :
        climb .right (path.length + (rest + 2)) x (parentOf header path)
            memory = some (header, x) := by
      rw [climbs]
      simp [climb, isHeader, loaded, record, NodeBase.child, headerNotNull]
    simp only [increment, loaded, record, root_nil, Option.bind_eq_bind,
      Option.bind_some, if_true, found, isHeader]
  · have notTop := mt isTop.mp isRoot
    have found :
        climb .right (path.length + (rest + 2)) x (parentOf header path)
            memory =
          some (root (path.plug (.node color left x .nil)), header) := by
      rw [climbs]
      simp [climb, isHeader, NodeBase.child, Ne.symm notTop]
    simp only [increment, loaded, record, root_nil, Option.bind_eq_bind,
      Option.bind_some, if_true, found, loadTop, if_neg notHeader]

/-- `--` from the header leads to the last node. -/
theorem decrement_header
    {tree : ColoredTree Address}
    (held : Held memory header first last [] tree)
    (notEmpty : tree ≠ .nil) :
    decrement fuel header memory = some last := by
  have isHeader := held.load_header
  obtain ⟨color, near, label, far, rfl⟩ :=
    ColoredTree.exists_join .left notEmpty
  have loaded := held.load_root
  rw [Path.plug, root_join] at isHeader
  simp [decrement, isHeader, loaded, parentOf]

/-- `--` from what does not look like the header. -/
theorem decrement_eq
    {node : NodeBase}
    (loaded : load memory x = some node)
    (notHeader :
      node.color = .red →
        ∃ parent, load memory node.parent = some parent ∧
          parent.parent ≠ x) :
    decrement fuel x memory =
      if node.left = null then
        (climb .left fuel x node.parent memory).bind fun found =>
          some found.2
      else
        maximum fuel node.left memory := by
  by_cases isRed : node.color = .red
  · obtain ⟨parent, loadParent, notX⟩ := notHeader isRed
    simp [decrement, loaded, isRed, loadParent, notX]
  · simp [decrement, loaded, isRed]

/-- `--` from a node with a left subtree, or up to a node. -/
theorem decrement_inside
    (held : Held memory header first last path (.node color left x right))
    (isInside : path.before ++ left.inorder ≠ [])
    (rootBlack : path = [] → color = .black)
    (pathEnough : path.length ≤ fuel)
    (enough :
      ∀ spine side inner y far,
        left = Path.plug spine (.join side inner .nil y far) →
          spine.length < fuel) :
    decrement fuel x memory =
      some (lastOf header (path.before ++ left.inorder)) := by
  have loaded :=
    (show Held _ _ _ _ _ (.join .left color left x right) from held).load_root
  have distinct := held.distinct
  have notHeader :
      color = .red →
        ∃ parent, load memory (parentOf header path) = some parent ∧
          parent.parent ≠ x := by
    intro isRed
    cases path with
    | nil =>
        rw [rootBlack rfl] at isRed
        cases isRed
    | cons frame above =>
        refine ⟨_, held.load_parent, ?_⟩
        rw [record_parent]
        have notAbove :=
          @Held.root_ne _ _ _ _ _ _ held (by simp) (parentOf header above) (by
            cases above with
            | nil =>
                exact Or.inr (Or.inl rfl)
            | cons next rest =>
                exact Or.inr (Or.inr (by simp [Path.labels])))
        exact notAbove.symm
  simp only [ColoredTree.inorder, List.nodup_cons, List.mem_cons,
    List.mem_append, not_or] at distinct
  rw [decrement_eq loaded notHeader]
  by_cases noLeft : left = .nil
  · subst noLeft
    have notEnd : path.before ≠ [] := by
      simpa [ColoredTree.inorder] using isInside
    have isLast : path.before.getLast? = some (path.before.getLast notEnd) :=
      List.getLast?_eq_some_getLast notEnd
    have turns : turn .left path = some (path.before.getLast notEnd) := by
      rw [turn_left, isLast]
    obtain ⟨x', node, climbs, -⟩ := climb_turn held (by simp) turns pathEnough
    rw [root] at climbs
    simp [record, climbs, ColoredTree.inorder, lastOf, isLast]
  · have notNull : root left ≠ null := by
      intro isNull
      exact noLeft (eq_nil_of_root isNull distinct.1.2.1.1)
    have found :=
      @maximum_eq_lastOf memory header left fuel x held.below.2.1
        distinct.1.2.1.1 noLeft enough path.before
    simp [record, notNull, found]

end Step

section Walk

variable
  {memory : Memory}
  {header x y : Address}
  {before after : List Address}
  {fuel : Nat}

/-- `++` leads to the next node, and from the last node to the header. -/
theorem exists_incremented
    (represents : Represents memory header (before ++ x :: after))
    (enough :
      2 * Nat.log 2 ((before ++ x :: after).length + 1) + 1 < fuel) :
    increment fuel x memory = some (firstOf header after) := by
  obtain ⟨path, color, left, right, height, held, rfl, rfl, valid,
    isBlack⟩ := represents.exists_plug
  have isNodes :
      (path.plug (.node color left x right)).inorder =
        path.before ++ left.inorder ++ x :: (right.inorder ++ path.after) := by
    rw [Path.inorder_plug]
    simp [ColoredTree.inorder]
  have short := Path.length_le_log valid isBlack
  rw [isNodes] at short
  by_cases isLast : right.inorder ++ path.after = []
  · obtain ⟨noRight, isEnd⟩ := List.append_eq_nil_iff.mp isLast
    have isNil := inorder_eq_nil noRight
    subst isNil
    have isX :
        lastOf header (path.before ++ left.inorder ++
          x :: ((ColoredTree.nil : ColoredTree Address).inorder ++
            path.after)) = x := by
      rw [isLast]
      simp [lastOf]
    rw [isX] at held
    rw [isLast, increment_last held isEnd (by omega)]
    rfl
  · refine increment_inside held isLast (by omega) ?_
    rintro spine side inner y far rfl
    have bound := @length_below_le x path color height .left left _ spine
      valid isBlack
    rw [List.length_append] at bound
    have isNodes := isNodes
    rw [ColoredTree.join, isNodes] at bound
    omega

/-- `--` leads to the previous node. -/
theorem exists_decremented
    (represents : Represents memory header (before ++ y :: after))
    (notFirst : before ≠ [])
    (enough :
      2 * Nat.log 2 ((before ++ y :: after).length + 1) + 1 < fuel) :
    decrement fuel y memory = some (lastOf header before) := by
  obtain ⟨path, color, left, right, height, held, rfl, rfl, valid,
    isBlack⟩ := represents.exists_plug
  have isNodes :
      (path.plug (.node color left y right)).inorder =
        path.before ++ left.inorder ++ y :: (right.inorder ++ path.after) := by
    rw [Path.inorder_plug]
    simp [ColoredTree.inorder]
  have short := Path.length_le_log valid isBlack
  rw [isNodes] at short
  refine decrement_inside held notFirst ?_ (by omega) ?_
  · rintro rfl
    exact isBlack
  · rintro spine side inner z far rfl
    have bound := @length_below_le y path color height .right right _ spine
      valid isBlack
    rw [List.length_append] at bound
    rw [ColoredTree.join, isNodes] at bound
    omega

/--
An iterator walks through the nodes in both directions: `++` leads from each
node to the next one and from the last one to the header, and `--` leads back,
also from the header, which it tells from a node by its color and its parent.
-/
theorem iterators_walk
    (represents : Represents memory header (before ++ x :: after))
    (enough :
      2 * Nat.log 2 ((before ++ x :: after).length + 1) + 1 < fuel) :
    increment fuel x memory = some (firstOf header after) ∧
      decrement fuel (firstOf header after) memory = some x := by
  refine ⟨exists_incremented represents enough, ?_⟩
  cases after with
  | nil =>
      obtain ⟨tree, height, held, isNodes, -, -⟩ := represents
      have notEmpty : tree ≠ .nil := by
        rintro rfl
        simp [ColoredTree.inorder] at isNodes
      have found := @decrement_header _ _ _ _ fuel _ held notEmpty
      simpa [firstOf, lastOf] using found
  | cons y rest =>
      have split : before ++ x :: y :: rest = before ++ [x] ++ y :: rest := by
        simp
      rw [split] at represents enough
      have found := exists_decremented represents (by simp) enough
      simpa [firstOf, lastOf] using found

theorem iterators_walk_twoNodes :
    increment 4 3 twoNodes = some 1 ∧ decrement 4 1 twoNodes = some 3 :=
  @iterators_walk twoNodes 1 3 [2] [] 4 twoNodes_represents (by decide)

end Walk

end CsPrimer.RbTree
