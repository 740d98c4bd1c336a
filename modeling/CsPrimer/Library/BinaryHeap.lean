import Mathlib.Order.Lattice
import Mathlib.Logic.Equiv.Basic

namespace CsPrimer.Library.BinaryHeap

/-!
# Array-embedded binary heaps

A heap of `size` slots is described by the key held at each position.  The two
sifting loops only exchange keys, so their correctness is a statement about
two almost-ordered shapes: `UpOrdered`, in which one slot may be too small for
its parent, and `DownOrdered`, in which one slot may be too large for its
children.  One exchange moves the exceptional slot one level, and the loop exit
test closes the exception.
-/

/-- The position of the parent of a non-root slot. -/
def parent (index : Nat) : Nat :=
  (index - 1) / 2

theorem parent_lt
    {index : Nat}
    (positive : 0 < index) :
    parent index < index := by
  unfold parent
  omega

/-- A slot's children are exactly the two positions after its double. -/
theorem parent_eq_iff
    {child index : Nat}
    (positive : 0 < child) :
    parent child = index ↔
      child = index * 2 + 1 ∨ child = index * 2 + 2 := by
  unfold parent
  omega

variable {Key : Type}

/-- Exchange the keys of two slots. -/
def exchange (key : Nat → Key) (first second : Nat) : Nat → Key :=
  fun index => key (Equiv.swap first second index)

@[simp] theorem exchange_left
    (key : Nat → Key)
    (first second : Nat) :
    exchange key first second first = key second := by
  simp [exchange]

@[simp] theorem exchange_right
    (key : Nat → Key)
    (first second : Nat) :
    exchange key first second second = key first := by
  simp [exchange]

theorem exchange_other
    (key : Nat → Key)
    {first second index : Nat}
    (notFirst : index ≠ first)
    (notSecond : index ≠ second) :
    exchange key first second index = key index := by
  simp [exchange, Equiv.swap_apply_of_ne_of_ne notFirst notSecond]

section Order

variable [LinearOrder Key]

/-- Every slot is at or above its parent. -/
def Ordered (key : Nat → Key) (size : Nat) : Prop :=
  ∀ index, 0 < index → index < size →
    key (parent index) ≤ key index

/-- Ordered except that the slot `hole` may be below its parent. -/
structure UpOrdered
    (key : Nat → Key)
    (size hole : Nat) : Prop where
  elsewhere :
    ∀ index, 0 < index → index < size → index ≠ hole →
      key (parent index) ≤ key index
  across :
    ∀ index, 0 < index → index < size → parent index = hole →
      0 < hole → key (parent hole) ≤ key index

/-- Ordered except that the slot `hole` may be above its children. -/
structure DownOrdered
    (key : Nat → Key)
    (size hole : Nat) : Prop where
  elsewhere :
    ∀ index, 0 < index → index < size → parent index ≠ hole →
      key (parent index) ≤ key index
  across :
    ∀ index, 0 < index → index < size → parent index = hole →
      0 < hole → key (parent hole) ≤ key index

/-- The root of an ordered heap holds a least key. -/
theorem Ordered.root_le
    {key : Nat → Key}
    {size : Nat}
    (ordered : Ordered key size)
    (index : Nat)
    (inBounds : index < size) :
    key 0 ≤ key index := by
  induction index using Nat.strongRecOn with
  | ind index inductionHypothesis =>
      by_cases isRoot : index = 0
      · rw [isRoot]
      · have positive : 0 < index := Nat.pos_of_ne_zero isRoot
        have parentBefore := parent_lt positive
        exact (inductionHypothesis (parent index) parentBefore
            (Nat.lt_trans parentBefore inBounds)).trans
          (ordered index positive inBounds)

/-- Dropping slots at the end keeps the order. -/
theorem Ordered.shrink
    {key : Nat → Key}
    {size smaller : Nat}
    (ordered : Ordered key size)
    (shorter : smaller ≤ size) :
    Ordered key smaller :=
  fun index positive inBounds =>
    ordered index positive (Nat.lt_of_lt_of_le inBounds shorter)

/-- The order only depends on the keys inside the heap. -/
theorem Ordered.congr
    {key other : Nat → Key}
    {size : Nat}
    (ordered : Ordered key size)
    (same : ∀ index, index < size → other index = key index) :
    Ordered other size := by
  intro index positive inBounds
  rw [same index inBounds,
    same (parent index) (Nat.lt_trans (parent_lt positive) inBounds)]
  exact ordered index positive inBounds

/-- A key fits in a slot between its parent and its children. -/
structure Fits
    (key : Nat → Key)
    (size index : Nat)
    (value : Key) : Prop where
  above :
    0 < index → key (parent index) ≤ value
  below :
    ∀ child, 0 < child → child < size → parent child = index →
      value ≤ key child

/-- A new key keeps the heap ordered exactly if it fits in its slot. -/
theorem Ordered.update_iff
    {key : Nat → Key}
    {size index : Nat}
    {value : Key}
    (ordered : Ordered key size)
    (inBounds : index < size) :
    Ordered (Function.update key index value) size ↔
      Fits key size index value := by
  constructor
  · intro changed
    constructor
    · intro positive
      have inOrder := changed index positive inBounds
      rwa [Function.update_self,
        Function.update_of_ne (Nat.ne_of_lt (parent_lt positive))]
        at inOrder
    · intro child positive childInBounds isParent
      have inOrder := changed child positive childInBounds
      have notIndex : child ≠ index :=
        isParent ▸ Nat.ne_of_gt (parent_lt positive)
      rwa [isParent, Function.update_self, Function.update_of_ne notIndex]
        at inOrder
  · rintro ⟨above, below⟩ other positive otherInBounds
    by_cases isIndex : other = index
    · subst isIndex
      rw [Function.update_self,
        Function.update_of_ne (Nat.ne_of_lt (parent_lt positive))]
      exact above positive
    · rw [Function.update_of_ne isIndex]
      by_cases isParent : parent other = index
      · rw [isParent, Function.update_self]
        exact below other positive otherInBounds isParent
      · rw [Function.update_of_ne isParent]
        exact ordered other positive otherInBounds

/-- Appending one slot can only disturb the order at that slot. -/
theorem Ordered.upOrdered_append
    {key other : Nat → Key}
    {size : Nat}
    (ordered : Ordered key size)
    (same : ∀ index, index < size → other index = key index) :
    UpOrdered other (size + 1) size where
  elsewhere index positive inBounds notLast := by
    have kept := ordered.congr same
    exact kept index positive (by omega)
  across index positive inBounds childOfLast _ := by
    have := parent_lt positive
    omega

section Replaced

/-! Replacing one key of an ordered heap leaves one of the two shapes. -/

variable
  {key other : Nat → Key}
  {size hole : Nat}

/-- A key below the parent of the replaced slot has to move up. -/
theorem Ordered.upOrdered_replace
    (ordered : Ordered key size)
    (same :
      ∀ index, index < size → index ≠ hole → other index = key index)
    (positive : 0 < hole)
    (inBounds : hole < size)
    (below : other hole < other (parent hole)) :
    UpOrdered other size hole := by
  have holeParent := parent_lt positive
  have parentKept : other (parent hole) = key (parent hole) :=
    same _ (by omega) (by omega)
  have holeBelow : other hole ≤ key hole :=
    below.le.trans (by
      rw [parentKept]
      exact ordered hole positive inBounds)
  constructor
  · intro index indexPositive indexInBounds notHole
    have indexParent := parent_lt indexPositive
    have inOrder := ordered index indexPositive indexInBounds
    rw [same index indexInBounds notHole]
    by_cases childOfHole : parent index = hole
    · rw [childOfHole] at inOrder ⊢
      exact holeBelow.trans inOrder
    · rw [same _ (by omega) childOfHole]
      exact inOrder
  · intro index indexPositive indexInBounds childOfHole _
    have indexParent := parent_lt indexPositive
    have inOrder := ordered index indexPositive indexInBounds
    rw [childOfHole] at inOrder
    rw [same index indexInBounds (by omega), parentKept]
    exact (ordered hole positive inBounds).trans inOrder

/-- A key not below the parent of the replaced slot has to move down. -/
theorem Ordered.downOrdered_replace
    (ordered : Ordered key size)
    (same :
      ∀ index, index < size → index ≠ hole → other index = key index)
    (inBounds : hole < size)
    (notBelow : 0 < hole → other (parent hole) ≤ other hole) :
    DownOrdered other size hole := by
  constructor
  · intro index indexPositive indexInBounds notChild
    have indexParent := parent_lt indexPositive
    by_cases isHole : index = hole
    · subst isHole
      exact notBelow indexPositive
    · rw [same index indexInBounds isHole,
        same _ (by omega) notChild]
      exact ordered index indexPositive indexInBounds
  · intro index indexPositive indexInBounds childOfHole positive
    have indexParent := parent_lt indexPositive
    have holeParent := parent_lt positive
    have inOrder := ordered index indexPositive indexInBounds
    rw [childOfHole] at inOrder
    rw [same index indexInBounds (by omega),
      same _ (by omega) (by omega)]
    exact (ordered hole positive inBounds).trans inOrder

end Replaced

namespace UpOrdered

variable
  {key : Nat → Key}
  {size hole : Nat}

/-- A sift up may stop at the root or under a parent that is not above. -/
theorem ordered
    (shape : UpOrdered key size hole)
    (stop : 0 < hole → key (parent hole) ≤ key hole) :
    Ordered key size := by
  intro index positive inBounds
  by_cases isHole : index = hole
  · subst isHole
    exact stop positive
  · exact shape.elsewhere index positive inBounds isHole

/-- One turn of the sift-up loop moves the exception to the parent. -/
theorem exchange_parent
    (shape : UpOrdered key size hole)
    (positive : 0 < hole)
    (inBounds : hole < size)
    (below : key hole < key (parent hole)) :
    UpOrdered (exchange key hole (parent hole)) size (parent hole) := by
  have holeParent := parent_lt positive
  constructor
  · intro index indexPositive indexInBounds notParent
    have indexParent := parent_lt indexPositive
    by_cases isHole : index = hole
    · subst isHole
      rw [exchange_left, exchange_right]
      exact below.le
    · rw [exchange_other key isHole notParent]
      by_cases childOfHole : parent index = hole
      · rw [childOfHole, exchange_left]
        exact shape.across index indexPositive indexInBounds
          childOfHole positive
      · by_cases sibling : parent index = parent hole
        · rw [sibling, exchange_right]
          have inOrder :=
            shape.elsewhere index indexPositive indexInBounds isHole
          rw [sibling] at inOrder
          exact below.le.trans inOrder
        · rw [exchange_other key childOfHole sibling]
          exact shape.elsewhere index indexPositive indexInBounds isHole
  · intro index indexPositive indexInBounds sibling parentPositive
    have grandparent := parent_lt parentPositive
    have aboveParent :
        key (parent (parent hole)) ≤ key (parent hole) :=
      shape.elsewhere (parent hole) parentPositive
        (by omega) (by omega)
    rw [exchange_other key (by omega) (by omega)]
    by_cases isHole : index = hole
    · subst isHole
      rw [exchange_left]
      exact aboveParent
    · have indexParent := parent_lt indexPositive
      rw [exchange_other key isHole (by omega)]
      have inOrder :=
        shape.elsewhere index indexPositive indexInBounds isHole
      rw [sibling] at inOrder
      exact aboveParent.trans inOrder

end UpOrdered

namespace DownOrdered

variable
  {key : Nat → Key}
  {size hole : Nat}

/-- The sift-down loop may stop above children that are not below. -/
theorem ordered
    (shape : DownOrdered key size hole)
    (stop :
      ∀ index, 0 < index → index < size → parent index = hole →
        key hole ≤ key index) :
    Ordered key size := by
  intro index positive inBounds
  by_cases childOfHole : parent index = hole
  · rw [childOfHole]
    exact stop index positive inBounds childOfHole
  · exact shape.elsewhere index positive inBounds childOfHole

/-- One turn of the sift-down loop moves the exception to the least child. -/
theorem exchange_child
    {child : Nat}
    (shape : DownOrdered key size hole)
    (positive : 0 < child)
    (inBounds : child < size)
    (childOfHole : parent child = hole)
    (least :
      ∀ index, 0 < index → index < size → parent index = hole →
        key child ≤ key index)
    (notAbove : key child ≤ key hole) :
    DownOrdered (exchange key hole child) size child := by
  have holeBefore : hole < child := by
    rw [← childOfHole]
    exact parent_lt positive
  constructor
  · intro index indexPositive indexInBounds notUnderChild
    have indexParent := parent_lt indexPositive
    by_cases isChild : index = child
    · subst isChild
      rw [childOfHole, exchange_left, exchange_right]
      exact notAbove
    · by_cases isHole : index = hole
      · subst isHole
        rw [exchange_left, exchange_other key (by omega) notUnderChild]
        exact shape.across child positive inBounds childOfHole indexPositive
      · rw [exchange_other key isHole isChild]
        by_cases sibling : parent index = hole
        · rw [sibling, exchange_left]
          exact least index indexPositive indexInBounds sibling
        · rw [exchange_other key sibling notUnderChild]
          exact shape.elsewhere index indexPositive indexInBounds sibling
  · intro index indexPositive indexInBounds underChild _
    have indexParent := parent_lt indexPositive
    rw [childOfHole, exchange_left,
      exchange_other key (by omega) (by omega)]
    have inOrder :=
      shape.elsewhere index indexPositive indexInBounds (by omega)
    rw [underChild] at inOrder
    exact inOrder

end DownOrdered

end Order

end CsPrimer.Library.BinaryHeap
