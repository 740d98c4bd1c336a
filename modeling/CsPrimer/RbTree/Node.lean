import CsPrimer.Library.ColoredTree
import Mathlib.Logic.Function.Basic

namespace CsPrimer.RbTree

open Library

/-!
# `_Rb_tree_node_base` and the functions of `tree.cc`

The functions read and write nodes through pointers; they have no result when
they would go through the null pointer or when a loop runs out of fuel.  What
the source writes twice, for the left and for the right, is written once here
for either side.
-/

abbrev Address := Nat

def null : Address := 0

structure NodeBase where
  color : Color
  parent : Address
  left : Address
  right : Address
  deriving Repr, DecidableEq

namespace NodeBase

/-- `_M_left` or `_M_right`. -/
def child (node : NodeBase) (side : Side) : Address :=
  match side with
  | .left => node.left
  | .right => node.right

def setColor (color : Color) (node : NodeBase) : NodeBase :=
  { node with color := color }

def setParent (parent : Address) (node : NodeBase) : NodeBase :=
  { node with parent := parent }

def setChild (side : Side) (child : Address) (node : NodeBase) : NodeBase :=
  match side with
  | .left => { node with left := child }
  | .right => { node with right := child }

end NodeBase

/-- The nodes that are allocated. -/
abbrev Memory := Address → Option NodeBase

def load (memory : Memory) (address : Address) : Option NodeBase :=
  if address = null then
    none
  else
    memory address

def store
    (memory : Memory)
    (address : Address)
    (change : NodeBase → NodeBase) : Option Memory :=
  (load memory address).map fun node =>
    Function.update memory address (some (change node))

/-- `__y && __y->_M_color == _S_red`. -/
def isRed (memory : Memory) (address : Address) : Option Bool :=
  if address = null then
    some false
  else
    (load memory address).map fun node => decide (node.color = .red)

/-- `if (__y != 0) __y->_M_parent = __x;`. -/
def adopt (child parent : Address) (memory : Memory) : Option Memory :=
  if child = null then
    some memory
  else
    store memory child (NodeBase.setParent parent)

/-- What points down to `x`, the root or a child, is made to point to `y`. -/
def replaceChild
    (side : Side)
    (x y header : Address)
    (memory : Memory) : Option Memory := do
  if x = (← load memory header).parent then
    store memory header (NodeBase.setParent y)
  else
    let parent := (← load memory x).parent
    if x = (← load memory parent).child side then
      store memory parent (NodeBase.setChild side y)
    else
      store memory parent (NodeBase.setChild side.other y)

/-- `local_Rb_tree_rotate_left`, and its mirror image. -/
def rotate
    (side : Side)
    (x header : Address)
    (memory : Memory) : Option Memory := do
  let y := (← load memory x).child side.other
  let inner := (← load memory y).child side
  let memory ← store memory x (NodeBase.setChild side.other inner)
  let memory ← adopt inner x memory
  let memory ← store memory y
    (NodeBase.setParent (← load memory x).parent)
  let memory ← replaceChild side x y header memory
  let memory ← store memory y (NodeBase.setChild side x)
  store memory x (NodeBase.setParent y)

def rotateLeft := rotate .left

def rotateRight := rotate .right

/-- `_S_minimum`, and its mirror image. -/
def extreme
    (side : Side)
    (fuel : Nat)
    (x : Address)
    (memory : Memory) : Option Address :=
  match fuel with
  | 0 => none
  | fuel + 1 => do
      let child := (← load memory x).child side
      if child = null then
        some x
      else
        extreme side fuel child memory

def minimum := extreme .left

def maximum := extreme .right

/-- The loop that leaves every subtree of which `x` is the last on a side. -/
def climb
    (side : Side)
    (fuel : Nat)
    (x y : Address)
    (memory : Memory) : Option (Address × Address) :=
  match fuel with
  | 0 => none
  | fuel + 1 => do
      let node ← load memory y
      if x = node.child side then
        climb side fuel y node.parent memory
      else
        some (x, y)

/-- `local_Rb_tree_increment`. -/
def increment (fuel : Nat) (x : Address) (memory : Memory) :
    Option Address := do
  let node ← load memory x
  if node.right = null then
    let (x, y) ← climb .right fuel x node.parent memory
    if (← load memory x).right = y then
      some x
    else
      some y
  else
    minimum fuel node.right memory

/-- `local_Rb_tree_decrement`. -/
def decrement (fuel : Nat) (x : Address) (memory : Memory) :
    Option Address := do
  let node ← load memory x
  let isHeader ←
    if node.color = .red then
      (load memory node.parent).map fun parent =>
        decide (parent.parent = x)
    else
      some false
  if isHeader then
    some node.right
  else if node.left = null then
    let (_, y) ← climb .left fuel x node.parent memory
    some y
  else
    maximum fuel node.left memory

/-- One round of the loop of `_Rb_tree_insert_and_rebalance`. -/
def insertRound
    (side : Side)
    (x xpp header : Address)
    (memory : Memory) : Option (Address × Memory) := do
  let parent := (← load memory x).parent
  let y := (← load memory xpp).child side.other
  if ← isRed memory y then
    let memory ← store memory parent (NodeBase.setColor .black)
    let memory ← store memory y (NodeBase.setColor .black)
    let memory ← store memory xpp (NodeBase.setColor .red)
    some (xpp, memory)
  else
    let (x, memory) ←
      if x = (← load memory parent).child side.other then do
        let memory ← rotate side parent header memory
        some (parent, memory)
      else
        some (x, memory)
    let memory ← store memory (← load memory x).parent
      (NodeBase.setColor .black)
    let memory ← store memory xpp (NodeBase.setColor .red)
    let memory ← rotate side.other xpp header memory
    some (x, memory)

/-- The loop of `_Rb_tree_insert_and_rebalance`. -/
def insertLoop
    (fuel : Nat)
    (x header : Address)
    (memory : Memory) : Option Memory :=
  match fuel with
  | 0 => none
  | fuel + 1 => do
      if x = (← load memory header).parent then
        some memory
      else
        let parent := (← load memory x).parent
        if (← load memory parent).color = .red then
          let xpp := (← load memory parent).parent
          let side :=
            if parent = (← load memory xpp).left then Side.left else .right
          let (x, memory) ← insertRound side x xpp header memory
          insertLoop fuel x header memory
        else
          some memory

/-- Where `_Rb_tree_insert_and_rebalance` links the new node. -/
def link
    (insertLeft : Bool)
    (x p header : Address)
    (memory : Memory) : Option Memory := do
  if insertLeft then
    let memory ← store memory p (NodeBase.setChild .left x)
    if p = header then
      let memory ← store memory header (NodeBase.setParent x)
      store memory header (NodeBase.setChild .right x)
    else if p = (← load memory header).left then
      store memory header (NodeBase.setChild .left x)
    else
      some memory
  else
    let memory ← store memory p (NodeBase.setChild .right x)
    if p = (← load memory header).right then
      store memory header (NodeBase.setChild .right x)
    else
      some memory

/-- `_Rb_tree_insert_and_rebalance`. -/
def insertAndRebalance
    (fuel : Nat)
    (insertLeft : Bool)
    (x p header : Address)
    (memory : Memory) : Option Memory := do
  let memory ← store memory x fun _ => ⟨.red, p, null, null⟩
  let memory ← link insertLeft x p header memory
  let memory ← insertLoop fuel x header memory
  store memory (← load memory header).parent (NodeBase.setColor .black)

/-- What `_Rb_tree_rebalance_for_erase` has found out on the way. -/
structure Unlinked where
  y : Address
  x : Address
  xParent : Address
  memory : Memory

/-- `y` gets the parent and the color of `z`. -/
def takePlace
    (y z header : Address)
    (memory : Memory) : Option Memory := do
  let memory ← replaceChild .left z y header memory
  let memory ← store memory y (NodeBase.setParent (← load memory z).parent)
  -- `std::swap(__y->_M_color, __z->_M_color);`
  let color := (← load memory y).color
  let memory ← store memory y (NodeBase.setColor (← load memory z).color)
  store memory z (NodeBase.setColor color)

/-- `y` is put in the place of `z`, whose successor it is. -/
def relink
    (y z x header : Address)
    (memory : Memory) : Option Unlinked := do
  let memory ← store memory (← load memory z).left (NodeBase.setParent y)
  let memory ← store memory y (NodeBase.setChild .left (← load memory z).left)
  let (xParent, memory) ←
    if y = (← load memory z).right then
      some (y, memory)
    else do
      let xParent := (← load memory y).parent
      let memory ← adopt x xParent memory
      let memory ← store memory xParent (NodeBase.setChild .left x)
      let memory ← store memory y
        (NodeBase.setChild .right (← load memory z).right)
      let memory ← store memory (← load memory z).right (NodeBase.setParent y)
      some (xParent, memory)
  let memory ← takePlace y z header memory
  some ⟨z, x, xParent, memory⟩

/-- `__leftmost` or `__rightmost`, when it is `z` that is to go. -/
def moveExtreme
    (side : Side)
    (fuel : Nat)
    (z x header : Address)
    (memory : Memory) : Option Memory := do
  if (← load memory header).child side = z then
    if (← load memory z).child side.other = null then
      store memory header
        (NodeBase.setChild side (← load memory z).parent)
    else
      store memory header
        (NodeBase.setChild side (← extreme side fuel x memory))
  else
    some memory

/-- `x`, the only child of `z` or null, takes the place of `z`. -/
def splice
    (fuel : Nat)
    (z x header : Address)
    (memory : Memory) : Option Unlinked := do
  let xParent := (← load memory z).parent
  let memory ← adopt x xParent memory
  let memory ← replaceChild .left z x header memory
  let memory ← moveExtreme .left fuel z x header memory
  let memory ← moveExtreme .right fuel z x header memory
  some ⟨z, x, xParent, memory⟩

/-- The first half of `_Rb_tree_rebalance_for_erase`. -/
def unlink
    (fuel : Nat)
    (z header : Address)
    (memory : Memory) : Option Unlinked := do
  let node ← load memory z
  if node.left = null then
    splice fuel z node.right header memory
  else if node.right = null then
    splice fuel z node.left header memory
  else
    let y ← minimum fuel node.right memory
    relink y z (← load memory y).right header memory

/--
The cases 2 to 4 of the loop of `_Rb_tree_rebalance_for_erase`: whether it
breaks, `x` and its parent, and the memory.
-/
def eraseTurn
    (side : Side)
    (x xParent w header : Address)
    (memory : Memory) : Option (Bool × Address × Address × Memory) := do
  let node ← load memory w
  let nearRed ← isRed memory (node.child side)
  let farRed ← isRed memory (node.child side.other)
  if !nearRed && !farRed then
    let memory ← store memory w (NodeBase.setColor .red)
    some (false, xParent, (← load memory xParent).parent, memory)
  else
    let (w, memory) ←
      if farRed then
        some (w, memory)
      else do
        let memory ← store memory (node.child side) (NodeBase.setColor .black)
        let memory ← store memory w (NodeBase.setColor .red)
        let memory ← rotate side.other w header memory
        some ((← load memory xParent).child side.other, memory)
    let memory ← store memory w
      (NodeBase.setColor (← load memory xParent).color)
    let memory ← store memory xParent (NodeBase.setColor .black)
    let far := (← load memory w).child side.other
    let memory ←
      if far = null then
        some memory
      else
        store memory far (NodeBase.setColor .black)
    let memory ← rotate side xParent header memory
    some (true, x, xParent, memory)

/-- One round of the loop of `_Rb_tree_rebalance_for_erase`. -/
def eraseRound
    (side : Side)
    (x xParent header : Address)
    (memory : Memory) : Option (Bool × Address × Address × Memory) := do
  let w := (← load memory xParent).child side.other
  if (← load memory w).color = .red then
    let memory ← store memory w (NodeBase.setColor .black)
    let memory ← store memory xParent (NodeBase.setColor .red)
    let memory ← rotate side xParent header memory
    let w := (← load memory xParent).child side.other
    eraseTurn side x xParent w header memory
  else
    eraseTurn side x xParent w header memory

/-- The loop of `_Rb_tree_rebalance_for_erase`. -/
def eraseLoop
    (fuel : Nat)
    (x xParent header : Address)
    (memory : Memory) : Option (Address × Memory) :=
  match fuel with
  | 0 => none
  | fuel + 1 => do
      if x = (← load memory header).parent then
        some (x, memory)
      else if ← isRed memory x then
        some (x, memory)
      else
        let side :=
          if x = (← load memory xParent).left then Side.left else .right
        let (breaks, x, xParent, memory) ←
          eraseRound side x xParent header memory
        if breaks then
          some (x, memory)
        else
          eraseLoop fuel x xParent header memory

/-- `_Rb_tree_rebalance_for_erase`. -/
def rebalanceForErase
    (fuel : Nat)
    (z header : Address)
    (memory : Memory) : Option (Address × Memory) := do
  let unlinked ← unlink fuel z header memory
  if (← load unlinked.memory unlinked.y).color = .red then
    some (unlinked.y, unlinked.memory)
  else
    let (x, memory) ←
      eraseLoop fuel unlinked.x unlinked.xParent header unlinked.memory
    if x = null then
      some (unlinked.y, memory)
    else
      let memory ← store memory x (NodeBase.setColor .black)
      some (unlinked.y, memory)

/-- `_M_initialize`, for a header that is allocated. -/
def initializeHeader (header : Address) (memory : Memory) : Option Memory :=
  store memory header fun _ => ⟨.red, null, header, header⟩

/-- `_M_erase`: the nodes that are dropped, in the order of the drops. -/
def erase (fuel : Nat) (x : Address) (memory : Memory) :
    Option (Memory × List Address) :=
  match fuel with
  | 0 => none
  | fuel + 1 =>
      if x = null then
        some (memory, [])
      else do
        let (memory, dropped) ← erase fuel (← load memory x).right memory
        let y := (← load memory x).left
        let memory := Function.update memory x none
        let (memory, rest) ← erase fuel y memory
        some (memory, dropped ++ x :: rest)

/-- `~_Rb_tree`, which starts at `_M_begin`. -/
def destroy (fuel : Nat) (header : Address) (memory : Memory) :
    Option (Memory × List Address) := do
  erase fuel (← load memory header).parent memory

end CsPrimer.RbTree
