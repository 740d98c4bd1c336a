import CsPrimer.RbTree.Rotating

namespace CsPrimer.RbTree

open Library

/-!
# The loop of `_Rb_tree_insert_and_rebalance`

The loop goes up with a red subtree that is valid by itself.  The tree is valid
as soon as what is above the subtree is black or there is nothing above it.
-/

/-- The side on which the source finds a child. -/
theorem record_side
    {color : Color}
    {parent child far : Address}
    {side : Side}
    (notFar : child ≠ far) :
    (if child = (record color parent side child far).left then
      Side.left
    else
      .right) = side := by
  cases side with
  | left =>
      exact if_pos rfl
  | right =>
      exact if_neg notFar

section Round

variable
  {origin memory : Memory}
  {header first last x p xpp : Address}
  {whole tree near middle far sibling uncle : ColoredTree Address}
  {above : Path Address}
  {side under : Side}
  {color : Color}
  {height : Nat}

/-- What is beside a subtree is at the end of a path, too. -/
theorem Rearranged.swap_iff :
    Rearranged origin header first last whole memory
        (⟨side, color, p, sibling⟩ :: above) tree ↔
      Rearranged origin header first last whole memory
        (⟨side.other, color, p, tree⟩ :: above) sibling := by
  rw [cons_iff, cons_iff, Frame.fill, Frame.fill, ColoredTree.join_other]

/-- A round with a red uncle colors. -/
theorem insertRound_redUncle
    (rearranged :
      Rearranged origin header first last whole memory
        (⟨under, .red, p, sibling⟩ :: ⟨side, .black, xpp, uncle⟩ :: above)
        tree)
    (notEmpty : tree ≠ .nil)
    (uncleRed : uncle.color = .red) :
    ∃ memory' uncle', insertRound side (root tree) xpp header memory =
        some (xpp, memory') ∧
      (∀ below, uncle.Valid below →
        uncle'.color = .black ∧ uncle'.Valid (below + 1)) ∧
      Rearranged origin header first last whole memory' above
        (.join side .red (.join under .black tree p sibling) xpp uncle') := by
  obtain ⟨color, left, x, right, rfl⟩ :=
    ColoredTree.exists_join .left notEmpty
  have uncleNotNil : uncle ≠ .nil := by
    rintro rfl
    cases uncleRed
  obtain ⟨uncleColor, uncleLeft, u, uncleRight, rfl⟩ :=
    ColoredTree.exists_join .left uncleNotNil
  rw [ColoredTree.color_join] at uncleRed
  subst uncleRed
  have loadX := rearranged.held.load_root
  have rearranged := Rearranged.cons_iff.mp rearranged
  have loadXpp := rearranged.held.load_parent
  have uncleIsRed := (Rearranged.swap_iff.mp rearranged).held.isRed_root
  rw [root_join] at uncleIsRed loadXpp
  obtain ⟨memory1, store1, rearranged1⟩ := rearranged.recolor .black
  obtain ⟨memory2, store2, rearranged2⟩ :=
    (Rearranged.swap_iff.mp rearranged1).recolor .black
  obtain ⟨memory3, store3, rearranged3⟩ :=
    (Rearranged.cons_iff.mp (Rearranged.swap_iff.mpr rearranged2)).recolor
      .red
  refine ⟨memory3, .join .left .black uncleLeft u uncleRight, ?_, ?_,
    rearranged3⟩
  · simp [insertRound, loadX, loadXpp, uncleIsRed, store1, store2, store3]
  · intro below valid
    rw [ColoredTree.valid_red] at valid
    rw [ColoredTree.valid_black]
    exact ⟨rfl, below, rfl, valid.2.2.1, valid.2.2.2⟩

/-- The end of a round with a black uncle. -/
theorem exists_turn
    (rearranged :
      Rearranged origin header first last whole memory
        (⟨side, .red, p, far⟩ :: ⟨side, .black, xpp, uncle⟩ :: above) tree) :
    ∃ memory1 memory2 memory3,
      store memory p (NodeBase.setColor .black) = some memory1 ∧
        store memory1 xpp (NodeBase.setColor .red) = some memory2 ∧
        rotate side.other xpp header memory2 = some memory3 ∧
        Rearranged origin header first last whole memory3
          (⟨side, .black, p, .join side.other .red uncle xpp far⟩ :: above)
          tree := by
  obtain ⟨memory1, store1, rearranged1⟩ :=
    (Rearranged.cons_iff.mp rearranged).recolor .black
  obtain ⟨memory2, store2, rearranged2⟩ :=
    (Rearranged.cons_iff.mp rearranged1).recolor .red
  rw [← ColoredTree.join_other] at rearranged2
  have turned : Rearranged origin header first last whole memory2 above
      (.join side.other .red uncle xpp
        (.join side.other.other .black tree p far)) := by
    rw [Side.other_other]
    exact rearranged2
  obtain ⟨memory3, rotates, rearranged3⟩ := turned.rotate
  refine ⟨memory1, memory2, memory3, store1, store2, rotates, ?_⟩
  rw [Rearranged.cons_iff, Frame.fill, ← ColoredTree.join_other]
  exact rearranged3

/-- A round with a black uncle and with `x` on the outside. -/
theorem insertRound_outside
    (rearranged :
      Rearranged origin header first last whole memory
        (⟨side, .red, p, far⟩ :: ⟨side, .black, xpp, uncle⟩ :: above) tree)
    (notEmpty : tree ≠ .nil)
    (uncleBlack : uncle.color = .black) :
    ∃ memory', insertRound side (root tree) xpp header memory =
        some (root tree, memory') ∧
      Rearranged origin header first last whole memory'
        (⟨side, .black, p, .join side.other .red uncle xpp far⟩ :: above)
        tree := by
  obtain ⟨memory1, memory2, memory3, store1, store2, rotates, rearranged3⟩ :=
    exists_turn rearranged
  refine ⟨memory3, ?_, rearranged3⟩
  have notInside := rearranged.held.isChild (Or.inl notEmpty)
  have loadP := rearranged.held.load_parent
  obtain ⟨color, left, x, right, rfl⟩ :=
    ColoredTree.exists_join .left notEmpty
  have loadX := rearranged.held.load_root
  have rearranged := Rearranged.cons_iff.mp rearranged
  have loadXpp := rearranged.held.load_parent
  have uncleIsBlack := (Rearranged.swap_iff.mp rearranged).held.isRed_root
  rw [root_join] at notInside
  simp [insertRound, loadX, loadXpp, loadP, uncleIsBlack, uncleBlack,
    notInside, store1, store2, rotates]

/-- A round with a black uncle and with `x` on the inside. -/
theorem insertRound_inside
    (rearranged :
      Rearranged origin header first last whole memory
        (⟨side.other, .red, p, sibling⟩ :: ⟨side, .black, xpp, uncle⟩ ::
          above)
        (.join side .red middle x far))
    (uncleBlack : uncle.color = .black) :
    ∃ memory', insertRound side x xpp header memory = some (p, memory') ∧
      Rearranged origin header first last whole memory'
        (⟨side, .black, x, .join side.other .red uncle xpp far⟩ :: above)
        (.join side .red sibling p middle) := by
  have loadP := rearranged.held.load_parent
  have loadX := rearranged.held.load_root
  have rearranged := Rearranged.cons_iff.mp rearranged
  have loadXpp := rearranged.held.load_parent
  have uncleIsBlack := (Rearranged.swap_iff.mp rearranged).held.isRed_root
  have outside : Rearranged origin header first last whole memory
      (⟨side, .black, xpp, uncle⟩ :: above)
      (.join side .red sibling p (.join side.other .red far x middle)) := by
    rw [ColoredTree.join_other, ← ColoredTree.join_other side]
    exact rearranged
  obtain ⟨memory1, rotates1, rearranged1⟩ := outside.rotate
  have rearranged1 :
      Rearranged origin header first last whole memory1
        (⟨side, .red, x, far⟩ :: ⟨side, .black, xpp, uncle⟩ :: above)
        (.join side .red sibling p middle) :=
    Rearranged.cons_iff.mpr rearranged1
  have loadP1 := rearranged1.held.load_root
  obtain ⟨memory2, memory3, memory4, store2, store3, rotates4, rearranged4⟩ :=
    exists_turn rearranged1
  refine ⟨memory4, ?_, rearranged4⟩
  simp only [root_join] at loadP loadX
  have isInside :
      x = (record .red xpp side.other x (root sibling)).child side.other :=
    (record_child ..).symm
  simp [insertRound, loadX, loadXpp, loadP, uncleIsBlack, uncleBlack,
    isInside.symm, rotates1, loadP1, store2, store3, rotates4]

end Round

/-- A red subtree at the end of a path that expects it, but for its color. -/
structure Rising
    (origin : Memory)
    (header first last : Address)
    (whole : ColoredTree Address)
    (memory : Memory)
    (path : Path Address)
    (tree : ColoredTree Address)
    (height : Nat) : Prop where
  rearranged : Rearranged origin header first last whole memory path tree
  isRed : tree.color = .red
  valid : tree.Valid height
  expects : path.Expects height

namespace Rising

variable
  {origin memory : Memory}
  {header first last p xpp : Address}
  {whole tree sibling uncle : ColoredTree Address}
  {above : Path Address}
  {side under : Side}
  {height : Nat}

theorem ne_nil
    {path : Path Address}
    (rising :
      Rising origin header first last whole memory path tree height) :
    tree ≠ .nil := by
  rintro rfl
  cases rising.isRed

/-- A round goes up, or it makes the parent black. -/
theorem round
    (rising :
      Rising origin header first last whole memory
        (⟨under, .red, p, sibling⟩ :: ⟨side, .black, xpp, uncle⟩ :: above)
        tree height) :
    ∃ memory' path' tree' height',
      insertRound side (root tree) xpp header memory =
          some (root tree', memory') ∧
        Rising origin header first last whole memory' path' tree' height' ∧
        (path' = above ∨ path'.color = .black) := by
  obtain ⟨rearranged, isRed, valid, expects⟩ := rising
  have notEmpty : tree ≠ .nil := by
    rintro rfl
    cases isRed
  simp only [Path.Expects] at expects
  obtain ⟨siblingBlack, siblingValid, -, uncleValid, aboveExpects⟩ := expects
  cases isUncle : uncle.color with
  | red =>
      obtain ⟨memory', uncle', rounds, uncleValid', rearranged'⟩ :=
        insertRound_redUncle rearranged notEmpty isUncle
      refine ⟨memory', above, _, height + 1, ?_,
        ⟨rearranged', ColoredTree.color_join .., ?_, aboveExpects⟩,
        Or.inl rfl⟩
      · rw [rounds, root_join]
      · rw [ColoredTree.valid_red, ColoredTree.valid_black,
          ColoredTree.color_join]
        obtain ⟨uncleBlack, uncleValid'⟩ := uncleValid' height uncleValid
        exact ⟨rfl, uncleBlack, ⟨height, rfl, valid, siblingValid⟩,
          uncleValid'⟩
  | black =>
      rcases under.eq_or_other side with rfl | rfl
      · obtain ⟨memory', rounds, rearranged'⟩ :=
          insertRound_outside rearranged notEmpty isUncle
        refine ⟨memory', _, tree, height, rounds,
          ⟨rearranged', isRed, valid, ?_⟩, Or.inr rfl⟩
        simp only [Path.Expects, ColoredTree.valid_red]
        exact ⟨⟨isUncle, siblingBlack, uncleValid, siblingValid⟩,
          aboveExpects⟩
      · obtain ⟨color, middle, x, far, rfl⟩ :=
          ColoredTree.exists_join side notEmpty
        rw [ColoredTree.color_join] at isRed
        subst isRed
        rw [ColoredTree.valid_red] at valid
        obtain ⟨middleBlack, farBlack, middleValid, farValid⟩ := valid
        obtain ⟨memory', rounds, rearranged'⟩ :=
          insertRound_inside rearranged isUncle
        refine ⟨memory', _, _, height, ?_,
          ⟨rearranged', ColoredTree.color_join .., ?_, ?_⟩, Or.inr rfl⟩
        · rw [root_join, root_join, rounds]
        · rw [ColoredTree.valid_red]
          exact ⟨siblingBlack, middleBlack, siblingValid, middleValid⟩
        · simp only [Path.Expects, ColoredTree.valid_red]
          exact ⟨⟨isUncle, farBlack, uncleValid, farValid⟩, aboveExpects⟩

/-- The loop ends where the parent is black, or at the root. -/
theorem loop
    {path : Path Address}
    {fuel : Nat}
    (rising :
      Rising origin header first last whole memory path tree height)
    (positive : 0 < fuel)
    (enough : path.color = .red → path.length / 2 < fuel) :
    ∃ memory' path' tree' height',
      insertLoop fuel (root tree) header memory = some memory' ∧
        Rising origin header first last whole memory' path' tree' height' ∧
        (path' = [] ∨ path'.color = .black) := by
  induction fuel generalizing memory path tree height with
  | zero =>
      cases positive
  | succ fuel inductionHypothesis =>
      have held := rising.rearranged.held
      have isHeader := held.load_header
      have isTop := held.root_eq_iff
      rcases path with _ | ⟨⟨under, color, p, sibling⟩, above⟩
      · refine ⟨memory, [], tree, height, ?_, rising, Or.inl rfl⟩
        simp [insertLoop, isHeader, isTop]
      · obtain ⟨xColor, left, x, right, rfl⟩ :=
          ColoredTree.exists_join .left rising.ne_nil
        have loadX := held.load_root
        have loadP := held.load_parent
        rw [root_join] at isTop loadP
        rw [root_join]
        cases color with
        | black =>
            refine ⟨memory, _, _, height, ?_, rising, Or.inr rfl⟩
            simp [insertLoop, isHeader, loadX, loadP]
        | red =>
            rcases above with _ | ⟨⟨side, color, xpp, uncle⟩, above⟩
            · cases rising.expects.2.2.1
            · have isBlack : color = .black := rising.expects.2.2.1
              subst isBlack
              have held := held_cons.mp held
              have loadXpp := held.load_parent
              have notUncle :=
                held.isChild (Or.inl
                  (by cases under <;> simp [Frame.fill, ColoredTree.join]))
              rw [Frame.fill, root_join] at loadXpp notUncle
              obtain ⟨memory', path', tree', height', rounds, rising', upOr⟩ :=
                rising.round
              rw [root_join] at rounds
              have bound := enough rfl
              simp only [List.length_cons] at bound
              have enough' : path'.color = .red → path'.length / 2 < fuel := by
                intro isRed
                rcases upOr with rfl | isBlack
                · omega
                · rw [isBlack] at isRed
                  cases isRed
              obtain ⟨memory'', path'', tree'', height'', loops, rest⟩ :=
                inductionHypothesis rising' (by omega) enough'
              refine ⟨memory'', path'', tree'', height'', ?_, rest⟩
              simp [insertLoop, isHeader, isTop, loadX, loadP,
                loadXpp, record_side notUncle, rounds, loops]

end Rising

end CsPrimer.RbTree
