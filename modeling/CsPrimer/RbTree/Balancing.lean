import CsPrimer.RbTree.Erasing

namespace CsPrimer.RbTree

open Library

/-!
# `_Rb_tree_rebalance_for_erase` on sequences

The four cases of the loop, each for the sibling of a subtree on either side,
and what the loop makes of a tree that has lost a black node.
-/

section Turn

variable
  {origin memory : Memory}
  {header first last p w n : Address}
  {whole tree near far nearN farN sibling : ColoredTree Address}
  {above : Path Address}
  {side : Side}
  {color : Color}

/-- What the source looks at in a sibling. -/
theorem load_sibling
    {inner : Color}
    (rearranged :
      Rearranged origin header first last whole memory
        (⟨side, color, p, .join side inner near w far⟩ :: above) tree) :
    load memory w = some (record inner p side (root near) (root far)) ∧
      isRed memory (root near) = some (decide (near.color = .red)) ∧
      isRed memory (root far) = some (decide (far.color = .red)) := by
  have swapped := Rearranged.swap_iff.mp rearranged
  have below :
      Rearranged origin header first last whole memory
        (⟨side, inner, w, far⟩ :: ⟨side.other, color, p, tree⟩ :: above)
        near := by
    rw [Rearranged.cons_iff, Frame.fill]
    exact swapped
  exact ⟨swapped.held.load_root, below.held.isRed_root,
    (Rearranged.swap_iff.mp below).held.isRed_root⟩

/-- A black sibling with black children becomes red. -/
theorem eraseTurn_case2
    (rearranged :
      Rearranged origin header first last whole memory
        (⟨side, color, p, .join side .black near w far⟩ :: above) tree)
    (nearBlack : near.color = .black)
    (farBlack : far.color = .black) :
    ∃ memory',
      eraseTurn side (root tree) p w header memory =
          some (false, p, parentOf header above, memory') ∧
        Rearranged origin header first last whole memory' above
          (.join side color tree p (.join side .red near w far)) := by
  obtain ⟨loadW, nearIs, farIs⟩ := load_sibling rearranged
  obtain ⟨memory', stores, swapped'⟩ :=
    (Rearranged.swap_iff.mp rearranged).recolor .red
  have rearranged' := Rearranged.swap_iff.mpr swapped'
  have loadP := rearranged'.held.load_parent
  refine ⟨memory', ?_, Rearranged.cons_iff.mp rearranged'⟩
  simp [eraseTurn, loadW, nearIs, farIs, nearBlack, farBlack, stores, loadP]

/-- The rotation that makes up for a black node. -/
theorem exists_end
    (rearranged :
      Rearranged origin header first last whole memory
        (⟨side, color, p, .join side .black near w far⟩ :: above) tree)
    (farRed : far.color = .red) :
    ∃ memory1 memory2 memory3 memory4 node far',
      load memory p = some node ∧ node.color = color ∧
        store memory w (NodeBase.setColor color) = some memory1 ∧
        store memory1 p (NodeBase.setColor .black) = some memory2 ∧
        (∃ node, load memory2 w = some node ∧
          node.child side.other = root far) ∧
        root far ≠ null ∧
        store memory2 (root far) (NodeBase.setColor .black) = some memory3 ∧
        rotate side p header memory3 = some memory4 ∧
        far'.color = .black ∧
        (∀ height, far.Valid height → far'.Valid (height + 1)) ∧
        Rearranged origin header first last whole memory4
          (⟨side, .black, p, near⟩ :: ⟨side, color, w, far'⟩ :: above)
          tree := by
  have farNotNil : far ≠ .nil := by
    rintro rfl
    cases farRed
  obtain ⟨farColor, left, f, right, rfl⟩ :=
    ColoredTree.exists_join .left farNotNil
  rw [ColoredTree.color_join] at farRed
  subst farRed
  have loadP := rearranged.held.load_parent
  obtain ⟨memory1, store1, rearranged1⟩ :=
    (Rearranged.swap_iff.mp rearranged).recolor color
  obtain ⟨memory2, store2, rearranged2⟩ :=
    (Rearranged.cons_iff.mp (Rearranged.swap_iff.mpr rearranged1)).recolor
      .black
  have below :
      Rearranged origin header first last whole memory2
        (⟨side.other, color, w, near⟩ :: ⟨side.other, .black, p, tree⟩ ::
          above) (.join .left .red left f right) := by
    rw [Rearranged.cons_iff, Frame.fill, ColoredTree.join_other,
      Rearranged.cons_iff, Frame.fill, ColoredTree.join_other]
    exact rearranged2
  have loadW := below.held.load_parent
  have notNull :=
    below.held.label_ne_null (ColoredTree.mem_join .left .red left right f)
  obtain ⟨memory3, store3, below3⟩ := below.recolor .black
  have turned :
      Rearranged origin header first last whole memory3 above
        (.join side .black tree p
          (.join side.other color (.join .left .black left f right) w
            near)) := by
    rw [Rearranged.cons_iff, Frame.fill, Rearranged.cons_iff, Frame.fill]
      at below3
    rw [← ColoredTree.join_other side .black]
    exact below3
  obtain ⟨memory4, rotates, rearranged4⟩ := turned.rotate
  rw [root_join]
  refine ⟨memory1, memory2, memory3, memory4, _,
    .join .left .black left f right, loadP, record_color .., store1, store2,
    ⟨_, loadW, record_child ..⟩, notNull, store3, rotates, rfl, ?_, ?_⟩
  · intro height valid
    rw [ColoredTree.valid_red] at valid
    rw [ColoredTree.valid_black]
    exact ⟨height, rfl, valid.2.2.1, valid.2.2.2⟩
  · rw [Rearranged.cons_iff, Rearranged.cons_iff]
    exact rearranged4

/-- A black sibling with a red child on the far side. -/
theorem eraseTurn_case4
    (rearranged :
      Rearranged origin header first last whole memory
        (⟨side, color, p, .join side .black near w far⟩ :: above) tree)
    (farRed : far.color = .red) :
    ∃ memory' far',
      eraseTurn side (root tree) p w header memory =
          some (true, root tree, p, memory') ∧
        far'.color = .black ∧
        (∀ height, far.Valid height → far'.Valid (height + 1)) ∧
        Rearranged origin header first last whole memory'
          (⟨side, .black, p, near⟩ :: ⟨side, color, w, far'⟩ :: above)
          tree := by
  obtain ⟨memory1, memory2, memory3, memory4, node, far', loadP, isColor,
      store1, store2, ⟨nodeW, loadW2, isFar⟩, notNull, store3, rotates,
      isBlack, valid, rearranged4⟩ := exists_end rearranged farRed
  obtain ⟨loadW, nearIs, farIs⟩ := load_sibling rearranged
  refine ⟨memory4, far', ?_, isBlack, valid, rearranged4⟩
  simp [eraseTurn, loadW, nearIs, farIs, farRed, loadP, isColor, store1,
    store2, loadW2, isFar, notNull, store3, rotates]

/-- A black sibling with a red child on the near side only. -/
theorem eraseTurn_case3
    (rearranged :
      Rearranged origin header first last whole memory
        (⟨side, color, p,
          .join side .black (.join side .red nearN n farN) w far⟩ :: above)
        tree)
    (farBlack : far.color = .black) :
    ∃ memory' far',
      eraseTurn side (root tree) p w header memory =
          some (true, root tree, p, memory') ∧
        far'.color = .black ∧
        (∀ height, farN.Valid height → far.Valid height →
          farN.color = .black → far'.Valid (height + 1)) ∧
        Rearranged origin header first last whole memory'
          (⟨side, .black, p, nearN⟩ :: ⟨side, color, n, far'⟩ :: above)
          tree := by
  obtain ⟨loadW, nearIs, farIs⟩ := load_sibling rearranged
  have below :
      Rearranged origin header first last whole memory
        (⟨side, .black, w, far⟩ :: ⟨side.other, color, p, tree⟩ :: above)
        (.join side .red nearN n farN) := by
    rw [Rearranged.cons_iff, Frame.fill]
    exact Rearranged.swap_iff.mp rearranged
  obtain ⟨memory1, store1, below1⟩ := below.recolor .black
  obtain ⟨memory2, store2, swapped2⟩ :=
    (Rearranged.cons_iff.mp below1).recolor .red
  have turned :
      Rearranged origin header first last whole memory2
        (⟨side.other, color, p, tree⟩ :: above)
        (.join side.other .red far w
          (.join side.other.other .black nearN n farN)) := by
    rw [Side.other_other, ColoredTree.join_other]
    exact swapped2
  obtain ⟨memory3, rotates, swapped3⟩ := turned.rotate
  have rearranged3 :
      Rearranged origin header first last whole memory3
        (⟨side, color, p,
          .join side .black nearN n (.join side.other .red far w farN)⟩ ::
            above) tree := by
    rw [Rearranged.swap_iff, ← ColoredTree.join_other]
    exact swapped3
  have loadP3 := rearranged3.held.load_parent
  obtain ⟨memory4, memory5, memory6, memory7, node, far', loadP, isColor,
      store4, store5, ⟨nodeN, loadN, isFar⟩, notNull, store6, rotates7,
      isBlack, valid, rearranged7⟩ :=
    exists_end rearranged3 (ColoredTree.color_join ..)
  refine ⟨memory7, far', ?_, isBlack, ?_, rearranged7⟩
  · rw [root_join] at loadW nearIs loadP3
    rw [root_join] at isFar notNull store6
    rw [loadP, Option.some.injEq] at loadP3
    subst loadP3
    simp [eraseTurn, loadW, nearIs, farIs, farBlack, store1, store2, rotates,
      loadP, store4, store5, loadN, isFar, notNull, store6, rotates7]
  · intro height validN validFar blackN
    apply valid
    rw [ColoredTree.valid_red]
    exact ⟨farBlack, blackN, validFar, validN⟩

/-- A red sibling is rotated up, which leaves a black one. -/
theorem eraseRound_case1
    (rearranged :
      Rearranged origin header first last whole memory
        (⟨side, .black, p, .join side .red near w far⟩ :: above) tree) :
    ∃ memory',
      eraseRound side (root tree) p header memory =
          eraseTurn side (root tree) p (root near) header memory' ∧
        Rearranged origin header first last whole memory'
          (⟨side, .red, p, near⟩ :: ⟨side, .black, w, far⟩ :: above)
          tree := by
  have loadP := rearranged.held.load_parent
  obtain ⟨loadW, -, -⟩ := load_sibling rearranged
  obtain ⟨memory1, store1, rearranged1⟩ :=
    (Rearranged.swap_iff.mp rearranged).recolor .black
  obtain ⟨memory2, store2, rearranged2⟩ :=
    (Rearranged.cons_iff.mp (Rearranged.swap_iff.mpr rearranged1)).recolor
      .red
  have turned :
      Rearranged origin header first last whole memory2 above
        (.join side .red tree p (.join side.other .black far w near)) := by
    rw [ColoredTree.join_other]
    exact rearranged2
  obtain ⟨memory3, rotates, rearranged3⟩ := turned.rotate
  have split :
      Rearranged origin header first last whole memory3
        (⟨side, .red, p, near⟩ :: ⟨side, .black, w, far⟩ :: above) tree := by
    rw [Rearranged.cons_iff, Rearranged.cons_iff]
    exact rearranged3
  have loadP3 := split.held.load_parent
  refine ⟨memory3, ?_, split⟩
  simp [eraseRound, loadP, loadW, store1, store2, rotates, loadP3]

end Turn

/-- The root of a tree made black. -/
def blacken : ColoredTree Address → ColoredTree Address
  | .nil => .nil
  | .node _ left label right => .node .black left label right

/-- All that is left to do is to make the subtree black. -/
def Balanced (path : Path Address) (tree : ColoredTree Address) : Prop :=
  ∃ height, (blacken tree).Valid height ∧ path.Expects height

/-- There is one black node too few in the subtree. -/
def Lacking (path : Path Address) (tree : ColoredTree Address) : Prop :=
  ∃ height, tree.Valid height ∧ path.Expects (height + 1)

/-- Where the loop may be. -/
def Going (path : Path Address) (tree : ColoredTree Address) : Prop :=
  match tree.color with
  | .red => Balanced path tree
  | .black => Lacking path tree

theorem blacken_of_black
    {tree : ColoredTree Address}
    (isBlack : tree.color = .black) :
    blacken tree = tree := by
  cases tree with
  | nil =>
      rfl
  | node color left label right =>
      rw [ColoredTree.color] at isBlack
      rw [blacken, isBlack]

theorem blacken_join
    (side : Side)
    (color : Color)
    (near far : ColoredTree Address)
    (label : Address) :
    blacken (.join side color near label far) =
      .join side .black near label far := by
  cases side <;> rfl

section Outcome

variable
  {origin memory : Memory}
  {header first last p w : Address}
  {whole tree near far sibling : ColoredTree Address}
  {path above : Path Address}
  {side : Side}
  {color : Color}

/-- A round breaks with a balanced tree, or it goes on further up. -/
theorem exists_turned
    (rearranged :
      Rearranged origin header first last whole memory
        (⟨side, color, p, sibling⟩ :: above) tree)
    (lacking : Lacking (⟨side, color, p, sibling⟩ :: above) tree)
    (isBlack : tree.color = .black)
    (siblingBlack : sibling.color = .black) :
    ∃ memory' path' tree' breaks xParent,
      eraseTurn side (root tree) p (root sibling) header memory =
          some (breaks, root tree', xParent, memory') ∧
        Rearranged origin header first last whole memory' path' tree' ∧
        (breaks = true ∧ Balanced path' tree' ∨
          breaks = false ∧ path' = above ∧ xParent = parentOf header above ∧
            tree'.color = color ∧ Going path' tree') := by
  obtain ⟨height, treeValid, expects⟩ := lacking
  have siblingValid := Path.valid_sibling expects
  obtain ⟨inner, near, w, far, rfl⟩ :=
    ColoredTree.exists_join side siblingValid.ne_nil
  rw [ColoredTree.color_join] at siblingBlack
  subst siblingBlack
  rw [ColoredTree.valid_black] at siblingValid
  obtain ⟨below, isHeight, nearValid, farValid⟩ := siblingValid
  obtain rfl : height = below := Nat.succ_injective isHeight
  rw [root_join]
  cases isFar : far.color with
  | red =>
      obtain ⟨memory', far', turns, farBlack, valid, rearranged'⟩ :=
        eraseTurn_case4 rearranged isFar
      refine ⟨memory', _, tree, true, p, turns, rearranged',
        Or.inl ⟨rfl, height, ?_, nearValid, ?_⟩⟩
      · rw [blacken_of_black isBlack]
        exact treeValid
      · exact Path.expects_replace expects farBlack (valid height farValid)
  | black =>
      cases isNear : near.color with
      | red =>
          have nearNotNil : near ≠ .nil := by
            rintro rfl
            cases isNear
          obtain ⟨nearColor, nearN, n, farN, rfl⟩ :=
            ColoredTree.exists_join side nearNotNil
          rw [ColoredTree.color_join] at isNear
          subst isNear
          rw [ColoredTree.valid_red] at nearValid
          obtain ⟨-, farNBlack, nearNValid, farNValid⟩ := nearValid
          obtain ⟨memory', far', turns, farBlack, valid, rearranged'⟩ :=
            eraseTurn_case3 rearranged isFar
          refine ⟨memory', _, tree, true, p, turns, rearranged',
            Or.inl ⟨rfl, height, ?_, nearNValid, ?_⟩⟩
          · rw [blacken_of_black isBlack]
            exact treeValid
          · exact Path.expects_replace expects farBlack
              (valid height farNValid farValid farNBlack)
      | black =>
          obtain ⟨memory', turns, rearranged'⟩ :=
            eraseTurn_case2 rearranged isNear isFar
          refine ⟨memory', above, _, false, parentOf header above, ?_,
            rearranged',
            Or.inr ⟨rfl, rfl, rfl, ColoredTree.color_join .., ?_⟩⟩
          · rw [turns, root_join]
          · rw [Going, ColoredTree.color_join]
            cases color with
            | red =>
                refine ⟨height + 1, ?_, expects.2.2.2⟩
                rw [blacken_join, ColoredTree.valid_black]
                refine ⟨height, rfl, treeValid, ?_⟩
                rw [ColoredTree.valid_red]
                exact ⟨isNear, isFar, nearValid, farValid⟩
            | black =>
                refine ⟨height + 1, ?_, expects.2⟩
                rw [ColoredTree.valid_black]
                refine ⟨height, rfl, treeValid, ?_⟩
                rw [ColoredTree.valid_red]
                exact ⟨isNear, isFar, nearValid, farValid⟩

/-- A round of the loop. -/
theorem exists_round
    (rearranged :
      Rearranged origin header first last whole memory
        (⟨side, color, p, sibling⟩ :: above) tree)
    (lacking : Lacking (⟨side, color, p, sibling⟩ :: above) tree)
    (isBlack : tree.color = .black) :
    ∃ memory' path' tree' breaks xParent,
      eraseRound side (root tree) p header memory =
          some (breaks, root tree', xParent, memory') ∧
        Rearranged origin header first last whole memory' path' tree' ∧
        (breaks = true ∧ Balanced path' tree' ∨
          breaks = false ∧ xParent = parentOf header path' ∧
            Going path' tree' ∧
            (tree'.color = .black → path' = above)) := by
  obtain ⟨height, treeValid, expects⟩ := lacking
  have siblingValid := Path.valid_sibling expects
  obtain ⟨inner, near, w, far, rfl⟩ :=
    ColoredTree.exists_join side siblingValid.ne_nil
  have loadP := rearranged.held.load_parent
  obtain ⟨loadW, -, -⟩ := load_sibling rearranged
  cases inner with
  | black =>
      obtain ⟨memory', path', tree', breaks, xParent, turns, rearranged',
          outcome⟩ :=
        exists_turned rearranged ⟨height, treeValid, expects⟩ isBlack
          (ColoredTree.color_join ..)
      rw [root_join] at turns
      refine ⟨memory', path', tree', breaks, xParent, ?_, rearranged', ?_⟩
      · simp [eraseRound, loadP, loadW, turns]
      · rcases outcome with broken | ⟨goesOn, rfl, isParent, -, going⟩
        · exact Or.inl broken
        · exact Or.inr ⟨goesOn, isParent, going, fun _ => rfl⟩
  | red =>
      cases color with
      | red =>
          have isRed := expects.1
          rw [ColoredTree.color_join] at isRed
          cases isRed
      | black =>
          rw [ColoredTree.valid_red] at siblingValid
          obtain ⟨nearBlack, -, nearValid, farValid⟩ := siblingValid
          obtain ⟨memory1, rounds, rearranged1⟩ := eraseRound_case1 rearranged
          have lacking1 :
              Lacking (⟨side, .red, p, near⟩ :: ⟨side, .black, w, far⟩ ::
                above) tree :=
            ⟨height, treeValid, nearBlack, nearValid, rfl, farValid,
              expects.2⟩
          obtain ⟨memory', path', tree', breaks, xParent, turns, rearranged',
              outcome⟩ :=
            exists_turned rearranged1 lacking1 isBlack nearBlack
          refine ⟨memory', path', tree', breaks, xParent, ?_, rearranged', ?_⟩
          · rw [rounds, turns]
          · rcases outcome with broken | ⟨goesOn, rfl, isParent, isRed, going⟩
            · exact Or.inl broken
            · refine Or.inr ⟨goesOn, isParent, going, ?_⟩
              intro isBlack'
              rw [isRed] at isBlack'
              cases isBlack'

/-- The loop ends with a tree that is balanced but for one color. -/
theorem eraseLoop_spec
    {fuel : Nat}
    (rearranged :
      Rearranged origin header first last whole memory path tree)
    (going : Going path tree)
    (positive : 0 < fuel)
    (enough : tree.color = .black → path.length < fuel) :
    ∃ memory' path' tree',
      eraseLoop fuel (root tree) (parentOf header path) header memory =
          some (root tree', memory') ∧
        Rearranged origin header first last whole memory' path' tree' ∧
        Balanced path' tree' := by
  induction fuel generalizing memory path tree with
  | zero =>
      cases positive
  | succ fuel inductionHypothesis =>
      have isHeader := rearranged.held.load_header
      have isTop := rearranged.held.root_eq_iff
      have isRoot := rearranged.held.isRed_root
      cases isColor : tree.color with
      | red =>
          rw [Going, isColor] at going
          refine ⟨memory, path, tree, ?_, rearranged, going⟩
          simp [eraseLoop, isHeader, isRoot, isColor]
      | black =>
          rw [Going, isColor] at going
          cases path with
          | nil =>
              refine ⟨memory, [], tree, ?_, rearranged, ?_⟩
              · simp [eraseLoop, isHeader, isTop]
              · obtain ⟨height, valid, -⟩ := going
                rw [← blacken_of_black isColor] at valid
                exact ⟨height, valid, trivial⟩
          | cons frame above =>
              obtain ⟨side, color, p, sibling⟩ := frame
              have loadP := rearranged.held.load_parent
              have notSibling :=
                rearranged.held.isChild (Or.inr (by
                  obtain ⟨height, -, expects⟩ := going
                  exact (Path.valid_sibling expects).ne_nil))
              obtain ⟨memory', path', tree', breaks, xParent, rounds,
                  rearranged', outcome⟩ :=
                exists_round rearranged going isColor
              rcases outcome with ⟨rfl, balanced⟩ |
                ⟨rfl, rfl, going', isAbove⟩
              · refine ⟨memory', path', tree', ?_, rearranged', balanced⟩
                simp [eraseLoop, isHeader, isTop, isRoot, isColor, loadP,
                  record_side notSibling, rounds]
              · have bound := enough isColor
                rw [List.length_cons] at bound
                obtain ⟨memory'', path'', tree'', loops, rest⟩ :=
                  inductionHypothesis rearranged' going' (by omega) (by
                    intro isBlack
                    rw [isAbove isBlack]
                    omega)
                refine ⟨memory'', path'', tree'', ?_, rest⟩
                simp [eraseLoop, isHeader, isTop, isRoot, isColor, loadP,
                  record_side notSibling, rounds, loops]

end Outcome

section Erase

variable
  {memory : Memory}
  {header z : Address}
  {before after : List Address}
  {color : Color}
  {path : Path Address}
  {tree : ColoredTree Address}
  {fuel : Nat}

/-- A place that has lost a red node is balanced at once. -/
theorem represents_of_fits
    (held :
      Held memory header (firstOf header (before ++ after))
        (lastOf header (before ++ after)) path tree)
    (isNodes : (path.plug tree).inorder = before ++ after)
    (fits : Fits .red path tree) :
    Represents memory header (before ++ after) := by
  obtain ⟨⟨height, valid, expects⟩, isBlack, notTop⟩ := fits
  have whole :=
    Path.valid_plug expects valid fun isRed => by
      rw [isBlack rfl] at isRed
      cases isRed
  exact ⟨path.plug tree, _, held_plug.mp held, isNodes, whole.1,
    whole.2 (notTop rfl)⟩

/-- A place that has lost a black node is one where the loop may start. -/
theorem going_of_fits (fits : Fits .black path tree) : Going path tree := by
  obtain ⟨height, valid, expects⟩ := fits.valid
  rw [if_pos rfl] at expects
  cases isColor : tree.color with
  | black =>
      rw [Going, isColor]
      exact ⟨height, valid, expects⟩
  | red =>
      rw [Going, isColor]
      refine ⟨height + 1, ?_, expects⟩
      have notEmpty : tree ≠ .nil := by
        rintro rfl
        cases isColor
      obtain ⟨treeColor, left, x, right, rfl⟩ :=
        ColoredTree.exists_join .left notEmpty
      rw [ColoredTree.color_join] at isColor
      subst isColor
      rw [ColoredTree.valid_red] at valid
      rw [blacken_join, ColoredTree.valid_black]
      exact ⟨height, rfl, valid.2.2.1, valid.2.2.2⟩

/-- The last store, when the loop is done. -/
theorem exists_blackened
    {origin : Memory}
    {whole : ColoredTree Address}
    (rearranged :
      Rearranged origin header (firstOf header (before ++ after))
        (lastOf header (before ++ after)) whole memory path tree)
    (isNodes : whole.inorder = before ++ after)
    (balanced : Balanced path tree) :
    ∃ memory',
      (if root tree = null then
        some memory
      else
        store memory (root tree) (NodeBase.setColor .black)) =
          some memory' ∧
        Represents memory' header (before ++ after) ∧
        ∀ other, other ≠ header → other ∉ before ++ after →
          memory' other = origin other := by
  obtain ⟨height, valid, expects⟩ := balanced
  have blackIs : (blacken tree).color = .black := by
    cases tree <;> rfl
  have plugged :=
    Path.valid_plug expects valid fun isRed => by
      rw [blackIs] at isRed
      cases isRed
  have wholeBlack : (path.plug (blacken tree)).color = .black := by
    by_cases isTop : path = []
    · subst isTop
      exact blackIs
    · exact plugged.2 isTop
  by_cases isEmpty : tree = .nil
  · subst isEmpty
    refine ⟨memory, rfl, ⟨_, _, held_plug.mp rearranged.held, ?_, plugged.1,
      wholeBlack⟩, ?_⟩
    · rw [rearranged.order, isNodes]
    · rw [← isNodes]
      exact rearranged.others
  · obtain ⟨treeColor, left, x, right, rfl⟩ :=
      ColoredTree.exists_join .left isEmpty
    have notNull :=
      rearranged.held.label_ne_null
        (ColoredTree.mem_join .left treeColor left right x)
    obtain ⟨memory', stores, rearranged'⟩ := rearranged.recolor .black
    rw [blacken_join] at plugged wholeBlack
    refine ⟨memory', ?_, ⟨_, _, held_plug.mp rearranged'.held, ?_, plugged.1,
      wholeBlack⟩, ?_⟩
    · rw [root_join, if_neg notNull, stores]
    · rw [rearranged'.order, isNodes]
    · rw [← isNodes]
      exact rearranged'.others

/--
`_Rb_tree_rebalance_for_erase` takes a node out of the sequence and returns it
for the caller to drop, keeps the tree a red-black tree and the header right,
and writes nothing outside of the tree.  All its loops are logarithmic in the
number of nodes.
-/
theorem Represents.erased
    (represents : Represents memory header (before ++ z :: after))
    (enough :
      2 * Nat.log 2 ((before ++ z :: after).length + 1) < fuel) :
    ∃ memory',
      rebalanceForErase fuel z header memory = some (z, memory') ∧
        Represents memory' header (before ++ after) ∧
        (∃ node, memory' z = some node) ∧
        ∀ other, other ≠ header → other ∉ before ++ z :: after →
          memory' other = memory other := by
  have distinct := represents.nodup
  obtain ⟨color, path, tree, memory1, unlinks, short, vacated⟩ :=
    exists_unlinked represents enough
  obtain ⟨held, isNodes, fits, ⟨node, loaded, isColor⟩, others⟩ := vacated
  cases color with
  | red =>
      refine ⟨memory1, ?_, represents_of_fits held isNodes fits,
        ⟨node, of_load loaded⟩, others⟩
      simp [rebalanceForErase, unlinks, loaded, isColor]
  | black =>
      have going := going_of_fits fits
      obtain ⟨memory2, path', tree', loops, rearranged, balanced⟩ :=
        eraseLoop_spec (.start held) going (by omega) fun _ => short
      obtain ⟨memory3, stores, represents', others3⟩ :=
        exists_blackened rearranged isNodes balanced
      refine ⟨memory3, ?_, represents', ⟨node, ?_⟩, ?_⟩
      · by_cases isNull : root tree' = null
        · rw [if_pos isNull, Option.some.injEq] at stores
          simp [rebalanceForErase, unlinks, loaded, isColor, loops, isNull,
            stores]
        · rw [if_neg isNull] at stores
          simp [rebalanceForErase, unlinks, loaded, isColor, loops, isNull,
            stores]
      · rw [others3 z (by grind) (by grind), of_load loaded]
      · intro other notHeader notNode
        rw [others3 other notHeader (by simp at notNode ⊢; tauto),
          others other notHeader notNode]

end Erase

end CsPrimer.RbTree
