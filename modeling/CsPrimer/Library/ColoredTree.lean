import Mathlib.Algebra.Group.Nat.Defs
import Mathlib.Data.List.Basic
import Mathlib.Data.List.Perm.Basic
import Mathlib.Data.Nat.Log

namespace CsPrimer.Library

/-!
# Red-black trees and the paths into them

A path leads from a subtree up to the root and holds what hangs beside it, so
a tree can be taken apart at any of its nodes and put together again.  What
mirror images have in common is said once, for either side.
-/

inductive Color where
  | red
  | black
  deriving Repr, DecidableEq

inductive Side where
  | left
  | right
  deriving Repr, DecidableEq

/-- The opposite side. -/
def Side.other : Side → Side
  | .left => .right
  | .right => .left

@[simp]
theorem Side.other_other (side : Side) : side.other.other = side := by
  cases side <;> rfl

@[simp]
theorem Side.other_ne (side : Side) : side.other ≠ side := by
  cases side <;> decide

@[simp]
theorem Side.ne_other (side : Side) : side ≠ side.other :=
  side.other_ne.symm

theorem Side.eq_or_other (side one : Side) : side = one ∨ side = one.other := by
  cases side <;> cases one <;> simp [Side.other]

/-- A binary tree whose nodes have a color and a label. -/
inductive ColoredTree (Label : Type) where
  | nil
  | node
      (color : Color)
      (left : ColoredTree Label)
      (label : Label)
      (right : ColoredTree Label)
  deriving Repr, DecidableEq

namespace ColoredTree

variable {Label : Type}

/-- The labels from left to right. -/
def inorder : ColoredTree Label → List Label
  | nil => []
  | node _ left label right => left.inorder ++ label :: right.inorder

/-- The color of the root; what is missing counts as black. -/
def color : ColoredTree Label → Color
  | nil => .black
  | node color _ _ _ => color

/-- A node with the subtree on a side named first. -/
def join
    (side : Side)
    (color : Color)
    (near : ColoredTree Label)
    (label : Label)
    (far : ColoredTree Label) : ColoredTree Label :=
  match side with
  | .left => node color near label far
  | .right => node color far label near

@[simp]
theorem color_join
    (side : Side)
    (color : Color)
    (near far : ColoredTree Label)
    (label : Label) :
    (join side color near label far).color = color := by
  cases side <;> rfl

theorem join_other
    (side : Side)
    (color : Color)
    (near far : ColoredTree Label)
    (label : Label) :
    join side.other color near label far = join side color far label near := by
  cases side <;> rfl

/-- Every tree that is not empty has a root, seen from either side. -/
theorem exists_join
    {tree : ColoredTree Label}
    (side : Side)
    (notEmpty : tree ≠ nil) :
    ∃ color near label far, tree = join side color near label far := by
  cases tree with
  | nil =>
      exact absurd rfl notEmpty
  | node color left label right =>
      cases side with
      | left =>
          exact ⟨color, left, label, right, rfl⟩
      | right =>
          exact ⟨color, right, label, left, rfl⟩

/-- Induction over a tree seen from either side. -/
theorem join_induction
    {motive : ColoredTree Label → Prop}
    (side : Side)
    (empty : motive nil)
    (joined :
      ∀ color near label far, motive near → motive far →
        motive (join side color near label far))
    (tree : ColoredTree Label) :
    motive tree := by
  induction tree with
  | nil =>
      exact empty
  | node color left label right leftHypothesis rightHypothesis =>
      cases side with
      | left =>
          exact joined color left label right leftHypothesis rightHypothesis
      | right =>
          exact joined color right label left rightHypothesis leftHypothesis

/-- The labels of a node and of its subtrees, in some order. -/
theorem inorder_join_perm
    (side : Side)
    (color : Color)
    (near far : ColoredTree Label)
    (label : Label) :
    (join side color near label far).inorder.Perm
      (label :: (near.inorder ++ far.inorder)) := by
  cases side with
  | left =>
      exact List.perm_middle
  | right =>
      exact List.perm_middle.trans (List.perm_append_comm.cons label)

/-- A rotation leaves the labels in their order. -/
theorem inorder_rotate
    (side : Side)
    (upper lower : Color)
    (near middle far : ColoredTree Label)
    (x y : Label) :
    (join side upper (join side lower near x middle) y far).inorder =
      (join side lower near x (join side upper middle y far)).inorder := by
  cases side <;> simp [join, inorder]

theorem mem_join
    (side : Side)
    (color : Color)
    (near far : ColoredTree Label)
    (label : Label) :
    label ∈ (join side color near label far).inorder :=
  (inorder_join_perm side color near far label).mem_iff.mpr
    List.mem_cons_self

/-- What may differ between trees that hold the same labels in order. -/
theorem inorder_join_congr
    {side : Side}
    {color color' : Color}
    {near near' far far' : ColoredTree Label}
    {label : Label}
    (sameNear : near'.inorder = near.inorder)
    (sameFar : far'.inorder = far.inorder) :
    (join side color' near' label far').inorder =
      (join side color near label far).inorder := by
  cases side <;> simp [join, inorder, sameNear, sameFar]

/--
No red node has a red child, and every way down passes as many black nodes.
-/
def Valid : ColoredTree Label → Nat → Prop
  | nil, height => height = 0
  | node .red left _ right, height =>
      left.color = .black ∧ right.color = .black ∧
        left.Valid height ∧ right.Valid height
  | node .black left _ right, height =>
      ∃ below, height = below + 1 ∧ left.Valid below ∧ right.Valid below

@[simp]
theorem valid_nil (height : Nat) :
    (nil : ColoredTree Label).Valid height ↔ height = 0 :=
  Iff.rfl

@[simp]
theorem valid_red
    (side : Side)
    (near far : ColoredTree Label)
    (label : Label)
    (height : Nat) :
    (join side .red near label far).Valid height ↔
      near.color = .black ∧ far.color = .black ∧
        near.Valid height ∧ far.Valid height := by
  cases side with
  | left =>
      exact Iff.rfl
  | right =>
      simp only [join, Valid]
      constructor
      · rintro ⟨isBlack, otherIsBlack, valid, otherValid⟩
        exact ⟨otherIsBlack, isBlack, otherValid, valid⟩
      · rintro ⟨isBlack, otherIsBlack, valid, otherValid⟩
        exact ⟨otherIsBlack, isBlack, otherValid, valid⟩

@[simp]
theorem valid_black
    (side : Side)
    (near far : ColoredTree Label)
    (label : Label)
    (height : Nat) :
    (join side .black near label far).Valid height ↔
      ∃ below, height = below + 1 ∧ near.Valid below ∧ far.Valid below := by
  cases side with
  | left =>
      exact Iff.rfl
  | right =>
      simp only [join, Valid]
      constructor
      · rintro ⟨below, isHeight, valid, otherValid⟩
        exact ⟨below, isHeight, otherValid, valid⟩
      · rintro ⟨below, isHeight, valid, otherValid⟩
        exact ⟨below, isHeight, otherValid, valid⟩

/-- A tree with some black height is not empty. -/
theorem Valid.ne_nil
    {tree : ColoredTree Label}
    {height : Nat}
    (valid : tree.Valid (height + 1)) :
    tree ≠ nil := by
  rintro rfl
  cases valid

/-- There are at least as many labels as a complete black tree has. -/
theorem Valid.two_pow_le
    {tree : ColoredTree Label}
    {height : Nat}
    (valid : tree.Valid height) :
    2 ^ height ≤ tree.inorder.length + 1 := by
  induction tree generalizing height with
  | nil =>
      rw [valid_nil] at valid
      simp [valid, inorder]
  | node color left label right leftHypothesis rightHypothesis =>
      simp only [inorder, List.length_append, List.length_cons]
      cases color with
      | red =>
          have bound := leftHypothesis valid.2.2.1
          omega
      | black =>
          obtain ⟨below, rfl, leftValid, rightValid⟩ := valid
          have leftBound := leftHypothesis leftValid
          have rightBound := rightHypothesis rightValid
          rw [Nat.pow_succ]
          omega

end ColoredTree

/-- A step of a path: the node above, and what hangs on its other side. -/
structure Frame (Label : Type) where
  side : Side
  color : Color
  label : Label
  sibling : ColoredTree Label
  deriving Repr, DecidableEq

/-- The node of a step with a subtree in place. -/
def Frame.fill
    {Label : Type}
    (frame : Frame Label)
    (tree : ColoredTree Label) : ColoredTree Label :=
  .join frame.side frame.color tree frame.label frame.sibling

/-- The steps from a subtree up to the root. -/
abbrev Path (Label : Type) := List (Frame Label)

namespace Path

variable {Label : Type}

/-- The whole tree with a subtree in place. -/
def plug (path : Path Label) (tree : ColoredTree Label) : ColoredTree Label :=
  match path with
  | [] => tree
  | frame :: above => plug above (frame.fill tree)

/-- The labels to the left of the path. -/
def before : Path Label → List Label
  | [] => []
  | frame :: above =>
      match frame.side with
      | .left => before above
      | .right => before above ++ (frame.sibling.inorder ++ [frame.label])

/-- The labels to the right of the path. -/
def after : Path Label → List Label
  | [] => []
  | frame :: above =>
      match frame.side with
      | .left => frame.label :: (frame.sibling.inorder ++ after above)
      | .right => after above

/-- All labels of a path. -/
def labels : Path Label → List Label
  | [] => []
  | frame :: above =>
      frame.label :: (frame.sibling.inorder ++ labels above)

/-- The color above the hole, where nothing counts as red. -/
def color : Path Label → Color
  | [] => .red
  | frame :: _ => frame.color

/-- The path fits a valid tree whose black height this is. -/
def Expects : Path Label → Nat → Prop
  | [], _ => True
  | frame :: above, height =>
      match frame.color with
      | .red =>
          frame.sibling.color = .black ∧ frame.sibling.Valid height ∧
            color above = .black ∧ Expects above height
      | .black =>
          frame.sibling.Valid height ∧ Expects above (height + 1)

theorem inorder_plug (path : Path Label) (tree : ColoredTree Label) :
    (plug path tree).inorder = before path ++ tree.inorder ++ after path := by
  induction path generalizing tree with
  | nil =>
      simp [plug, before, after]
  | cons frame above inductionHypothesis =>
      rw [plug, inductionHypothesis]
      cases isSide : frame.side <;>
        simp [before, after, Frame.fill, ColoredTree.join,
          ColoredTree.inorder, isSide]

/-- Only the order of the labels in the subtree matters. -/
theorem inorder_plug_congr
    {path : Path Label}
    {tree tree' : ColoredTree Label}
    (same : tree'.inorder = tree.inorder) :
    (plug path tree').inorder = (plug path tree).inorder := by
  rw [inorder_plug, inorder_plug, same]

theorem inorder_plug_perm (path : Path Label) (tree : ColoredTree Label) :
    (plug path tree).inorder.Perm (tree.inorder ++ labels path) := by
  induction path generalizing tree with
  | nil =>
      simp [plug, labels]
  | cons frame above inductionHypothesis =>
      refine (inductionHypothesis (frame.fill tree)).trans ?_
      have joined :=
        ColoredTree.inorder_join_perm frame.side frame.color tree
          frame.sibling frame.label
      refine (joined.append_right (labels above)).trans ?_
      have moved :=
        @List.perm_middle _ frame.label tree.inorder
          (frame.sibling.inorder ++ labels above)
      simpa [labels] using moved.symm

theorem mem_plug_iff
    {path : Path Label}
    {tree : ColoredTree Label}
    {label : Label} :
    label ∈ (plug path tree).inorder ↔
      label ∈ tree.inorder ∨ label ∈ labels path := by
  rw [(inorder_plug_perm path tree).mem_iff, List.mem_append]

/-- A path within a path. -/
theorem plug_append
    (inner outer : Path Label)
    (tree : ColoredTree Label) :
    plug (inner ++ outer) tree = plug outer (plug inner tree) := by
  induction inner generalizing tree with
  | nil =>
      rfl
  | cons frame above inductionHypothesis =>
      exact inductionHypothesis (frame.fill tree)

theorem labels_append (inner outer : Path Label) :
    labels (inner ++ outer) = labels inner ++ labels outer := by
  induction inner with
  | nil =>
      rfl
  | cons frame above inductionHypothesis =>
      simp [labels, inductionHypothesis]

/-- Every label is that of a node at the end of a path. -/
theorem exists_plug
    {tree : ColoredTree Label}
    {label : Label}
    (isLabel : label ∈ tree.inorder) :
    ∃ path color left right,
      tree = plug path (.node color left label right) := by
  induction tree with
  | nil =>
      cases isLabel
  | node color left top right leftHypothesis rightHypothesis =>
      simp only [ColoredTree.inorder, List.mem_append, List.mem_cons]
        at isLabel
      rcases isLabel with isLeft | rfl | isRight
      · obtain ⟨path, inner, innerLeft, innerRight, rfl⟩ :=
          leftHypothesis isLeft
        refine ⟨path ++ [⟨.left, color, top, right⟩], inner, innerLeft,
          innerRight, ?_⟩
        rw [plug_append]
        rfl
      · exact ⟨[], color, left, right, rfl⟩
      · obtain ⟨path, inner, innerLeft, innerRight, rfl⟩ :=
          rightHypothesis isRight
        refine ⟨path ++ [⟨.right, color, top, left⟩], inner, innerLeft,
          innerRight, ?_⟩
        rw [plug_append]
        rfl

/-- Every tree has an end. -/
theorem exists_plug_nil (tree : ColoredTree Label) :
    ∃ path : Path Label, tree = plug path .nil := by
  induction tree with
  | nil =>
      exact ⟨[], rfl⟩
  | node color left label right leftHypothesis _ =>
      obtain ⟨path, rfl⟩ := leftHypothesis
      refine ⟨path ++ [⟨.left, color, label, right⟩], ?_⟩
      rw [plug_append]
      rfl

/-- A valid tree is a path and a subtree of the height that it expects. -/
theorem expects_of_plug
    {path : Path Label}
    {tree : ColoredTree Label}
    {height : Nat}
    (valid : (plug path tree).Valid height)
    (isBlack : (plug path tree).color = .black) :
    ∃ below, tree.Valid below ∧ Expects path below ∧
      (tree.color = .red → color path = .black) := by
  induction path generalizing tree with
  | nil =>
      refine ⟨height, valid, trivial, ?_⟩
      intro isRed
      rw [plug] at isBlack
      rw [isBlack] at isRed
      cases isRed
  | cons frame above inductionHypothesis =>
      obtain ⟨outside, filled, expects, redUnderBlack⟩ :=
        inductionHypothesis valid isBlack
      cases isColor : frame.color with
      | red =>
          rw [Frame.fill, isColor, ColoredTree.valid_red] at filled
          obtain ⟨treeBlack, siblingBlack, treeValid, siblingValid⟩ := filled
          have aboveBlack : color above = .black := by
            apply redUnderBlack
            rw [Frame.fill, ColoredTree.color_join, isColor]
          refine ⟨outside, treeValid, ?_, ?_⟩
          · simpa [Expects, isColor] using
              ⟨siblingBlack, siblingValid, aboveBlack, expects⟩
          · intro isRed
            rw [treeBlack] at isRed
            cases isRed
      | black =>
          rw [Frame.fill, isColor, ColoredTree.valid_black] at filled
          obtain ⟨below, rfl, treeValid, siblingValid⟩ := filled
          refine ⟨below, treeValid, ?_, fun _ => isColor⟩
          simpa [Expects, isColor] using ⟨siblingValid, expects⟩

/-- What a path expects does not depend on its labels. -/
theorem expects_relabel
    {inner outer : Path Label}
    {side side' : Side}
    {top : Color}
    {label label' : Label}
    {sibling : ColoredTree Label}
    {height : Nat}
    (expects :
      Expects (inner ++ ⟨side, top, label, sibling⟩ :: outer) height) :
    Expects (inner ++ ⟨side', top, label', sibling⟩ :: outer) height := by
  induction inner generalizing height with
  | nil =>
      exact expects
  | cons frame above inductionHypothesis =>
      have sameColor :
          color (above ++ ⟨side', top, label', sibling⟩ :: outer) =
            color (above ++ ⟨side, top, label, sibling⟩ :: outer) := by
        cases above <;> rfl
      cases isColor : frame.color with
      | red =>
          simp only [List.cons_append, Expects, isColor, sameColor]
            at expects ⊢
          exact ⟨expects.1, expects.2.1, expects.2.2.1,
            inductionHypothesis expects.2.2.2⟩
      | black =>
          simp only [List.cons_append, Expects, isColor] at expects ⊢
          exact ⟨expects.1, inductionHypothesis expects.2⟩

/-- The height of what hangs beside a step. -/
theorem valid_sibling
    {frame : Frame Label}
    {above : Path Label}
    {height : Nat}
    (expects : Expects (frame :: above) height) :
    frame.sibling.Valid height := by
  cases isColor : frame.color with
  | red =>
      simp only [Expects, isColor] at expects
      exact expects.2.1
  | black =>
      simp only [Expects, isColor] at expects
      exact expects.1

/-- Another black tree of that height may hang there. -/
theorem expects_replace
    {side side' : Side}
    {top : Color}
    {label label' : Label}
    {sibling sibling' : ColoredTree Label}
    {above : Path Label}
    {height : Nat}
    (expects : Expects (⟨side, top, label, sibling⟩ :: above) height)
    (isBlack : sibling'.color = .black)
    (valid : sibling'.Valid height) :
    Expects (⟨side', top, label', sibling'⟩ :: above) height := by
  cases top with
  | red =>
      exact ⟨isBlack, valid, expects.2.2⟩
  | black =>
      exact ⟨valid, expects.2⟩

/-- The number of black nodes on a path. -/
def blacks : Path Label → Nat
  | [] => 0
  | frame :: above => blacks above + if frame.color = .black then 1 else 0

/-- A subtree of the expected height makes the whole tree valid. -/
theorem valid_plug
    {path : Path Label}
    {tree : ColoredTree Label}
    {height : Nat}
    (expects : Expects path height)
    (valid : tree.Valid height)
    (redUnderBlack : tree.color = .red → path = [] ∨ color path = .black) :
    (plug path tree).Valid (height + blacks path) ∧
      (path ≠ [] → (plug path tree).color = .black) := by
  induction path generalizing tree height with
  | nil =>
      exact ⟨valid, fun notEmpty => absurd rfl notEmpty⟩
  | cons frame above inductionHypothesis =>
      cases isColor : frame.color with
      | red =>
          simp only [Expects, isColor] at expects
          obtain ⟨siblingBlack, siblingValid, aboveBlack, aboveExpects⟩ :=
            expects
          have treeBlack : tree.color = .black := by
            cases isTree : tree.color with
            | black =>
                rfl
            | red =>
                rcases redUnderBlack isTree with empty | isBlack
                · cases empty
                · rw [color, isColor] at isBlack
                  cases isBlack
          have filled : (frame.fill tree).Valid height := by
            rw [Frame.fill, isColor, ColoredTree.valid_red]
            exact ⟨treeBlack, siblingBlack, valid, siblingValid⟩
          have whole :=
            inductionHypothesis aboveExpects filled
              (fun _ => Or.inr aboveBlack)
          refine ⟨?_, fun _ => whole.2 ?_⟩
          · simpa [plug, blacks, isColor] using whole.1
          · rintro rfl
            cases aboveBlack
      | black =>
          simp only [Expects, isColor] at expects
          have filled : (frame.fill tree).Valid (height + 1) := by
            rw [Frame.fill, isColor, ColoredTree.valid_black]
            exact ⟨height, rfl, valid, expects.1⟩
          have isBlack : (frame.fill tree).color = .black := by
            rw [Frame.fill, ColoredTree.color_join, isColor]
          have whole :=
            inductionHypothesis expects.2 filled
              (fun isRed => by rw [isBlack] at isRed; cases isRed)
          constructor
          · simpa [plug, blacks, isColor, Nat.add_assoc, Nat.add_comm,
              Nat.add_left_comm] using whole.1
          · intro _
            cases above with
            | nil =>
                exact isBlack
            | cons next rest =>
                exact whole.2 (List.cons_ne_nil next rest)

/-- No more than every other node of a path is red. -/
theorem length_le_blacks
    {path : Path Label}
    {height : Nat}
    (expects : Expects path height) :
    path.length + (if color path = .black then 1 else 0) ≤
      2 * blacks path := by
  induction path generalizing height with
  | nil =>
      simp [color, blacks]
  | cons frame above inductionHypothesis =>
      cases isColor : frame.color with
      | red =>
          simp only [Expects, isColor] at expects
          have bound := inductionHypothesis expects.2.2.2
          rw [if_pos expects.2.2.1] at bound
          simpa [color, blacks, isColor] using bound
      | black =>
          simp only [Expects, isColor] at expects
          have bound := inductionHypothesis expects.2
          simp only [color, blacks, isColor, List.length_cons, if_true]
          omega

/-- The paths of a valid tree are logarithmic in the number of labels. -/
theorem length_le_log
    {path : Path Label}
    {tree : ColoredTree Label}
    {height : Nat}
    (valid : (plug path tree).Valid height)
    (isBlack : (plug path tree).color = .black) :
    path.length ≤ 2 * Nat.log 2 ((plug path tree).inorder.length + 1) := by
  obtain ⟨below, treeValid, expects, redUnderBlack⟩ :=
    expects_of_plug valid isBlack
  have bound := length_le_blacks expects
  have whole :=
    (valid_plug expects treeValid fun isRed => Or.inr (redUnderBlack isRed)).1
  have log : below + blacks path ≤
      Nat.log 2 ((plug path tree).inorder.length + 1) :=
    Nat.le_log_of_pow_le Nat.one_lt_two whole.two_pow_le
  omega

end Path

end CsPrimer.Library
