import CsPrimer.Library.BinaryHeap
import CsPrimer.Timers.TimerHeap

namespace CsPrimer.Timers

open Library BinaryHeap

/-!
# The sifting loops keep the heap

Every exchange moves two pointers and rewrites the two stored positions, so it
preserves `Linked`: a timer in the vector knows where it is.  Under `Linked` no
access of `SwapHeap`, `UpHeap`, `DownHeap` or `RemoveTimer` leaves the vector,
and the loops restore the heap order from the shapes of the binary-heap
library.
-/

/-- A timer object up to the position it stores. -/
def TimerObj.unplaced (object : TimerObj) : TimerObj :=
  { object with heap_index_ := 0 }

namespace Slots

/-- Every element of the vector points to a timer that stores its position. -/
def Linked (slots : Slots) : Prop :=
  ∀ {index : Nat} {timer : TimerPtr},
    slots.heap_[index]? = some timer →
      ∃ object, slots.objs[timer]? = some object ∧
        object.heap_index_ = index

/-- The deadline at a position, as an exact number. -/
def key (slots : Slots) (index : Nat) : Nat :=
  ((slots.deadlineAt index).map Timestamp.usec).getD 0

/-- The heap order on the deadlines of the vector. -/
def HeapOrdered (slots : Slots) : Prop :=
  Ordered slots.key slots.heap_.length

/--
The effect of any number of exchanges: the vector is permuted, and timer
objects change at most in the position they store, and only in the vector.
-/
structure Rearranged (before after : Slots) : Prop where
  perm :
    after.heap_.Perm before.heap_
  unplaced :
    after.objs.map TimerObj.unplaced =
      before.objs.map TimerObj.unplaced
  frame :
    ∀ timer, timer ∉ before.heap_ →
      after.objs[timer]? = before.objs[timer]?

namespace Rearranged

theorem refl (slots : Slots) : Rearranged slots slots :=
  ⟨.refl _, rfl, fun _ _ => rfl⟩

theorem trans
    {first second third : Slots}
    (earlier : Rearranged first second)
    (later : Rearranged second third) :
    Rearranged first third where
  perm :=
    later.perm.trans earlier.perm
  unplaced :=
    later.unplaced.trans earlier.unplaced
  frame timer absent :=
    (later.frame timer (by
      rwa [earlier.perm.mem_iff])).trans
      (earlier.frame timer absent)

end Rearranged

namespace Linked

variable {slots : Slots}

/-- A position inside the vector can be dereferenced. -/
theorem timerAt_of_lt
    (linked : slots.Linked)
    {index : Nat}
    (inBounds : index < slots.heap_.length) :
    ∃ object, slots.timerAt index = some object := by
  obtain ⟨object, stored, -⟩ :=
    linked (List.getElem?_eq_getElem inBounds)
  exact ⟨object, by simp [timerAt, inBounds, stored]⟩

/-- A position inside the vector has a deadline, which is its key. -/
theorem deadlineAt_of_lt
    (linked : slots.Linked)
    {index : Nat}
    (inBounds : index < slots.heap_.length) :
    ∃ deadline, slots.deadlineAt index = some deadline ∧
      deadline.usec = slots.key index := by
  obtain ⟨object, stored⟩ := linked.timerAt_of_lt inBounds
  exact ⟨object.deadline_,
    by simp [deadlineAt, stored],
    by simp [key, deadlineAt, stored]⟩

/-- One timer occupies one position only. -/
theorem position_unique
    (linked : slots.Linked)
    {first second : Nat}
    {timer : TimerPtr}
    (atFirst : slots.heap_[first]? = some timer)
    (atSecond : slots.heap_[second]? = some timer) :
    first = second := by
  obtain ⟨object, stored, isFirst⟩ := linked atFirst
  obtain ⟨same, storedSame, isSecond⟩ := linked atSecond
  rw [stored] at storedSame
  cases storedSame
  rw [← isFirst, ← isSecond]

/-- The vector holds no pointer twice. -/
theorem nodup (linked : slots.Linked) : slots.heap_.Nodup := by
  rw [List.nodup_iff_getElem?_ne_getElem?]
  intro first second before inBounds same
  have atFirst :=
    List.getElem?_eq_getElem (before.trans inBounds)
  have := linked.position_unique atFirst (same ▸ atFirst)
  omega

end Linked

/-- Reading through equal pointers of memories that agree up to positions. -/
theorem key_congr
    {before after : Slots}
    {first second : Nat}
    (samePointer : after.heap_[first]? = before.heap_[second]?)
    (unplaced :
      after.objs.map TimerObj.unplaced =
        before.objs.map TimerObj.unplaced) :
    after.key first = before.key second := by
  have deadlines :
      after.objs.map TimerObj.deadline_ =
        before.objs.map TimerObj.deadline_ := by
    have := congrArg (List.map TimerObj.deadline_) unplaced
    simpa [Function.comp_def, TimerObj.unplaced] using this
  unfold key deadlineAt timerAt
  rw [samePointer]
  cases before.heap_[second]? with
  | none =>
      rfl
  | some timer =>
      simp only [Option.bind_some, ← List.getElem?_map, deadlines]

/-- The specification of `SwapHeap` at two distinct positions of the vector. -/
structure Swapped
    (before : Slots)
    (first second : Nat)
    (after : Slots) : Prop where
  linked :
    after.Linked
  rearranged :
    Rearranged before after
  other :
    ∀ index, index ≠ first → index ≠ second →
      after.heap_[index]? = before.heap_[index]?
  atFirst :
    after.heap_[first]? = before.heap_[second]?
  atSecond :
    after.heap_[second]? = before.heap_[first]?

namespace Swapped

variable
  {before after : Slots}
  {first second : Nat}

theorem length
    (swapped : Swapped before first second after) :
    after.heap_.length = before.heap_.length :=
  swapped.rearranged.perm.length_eq

/-- `SwapHeap` exchanges two keys. -/
theorem key
    (swapped : Swapped before first second after) :
    after.key = exchange before.key first second := by
  funext index
  have unplaced := swapped.rearranged.unplaced
  by_cases isFirst : index = first
  · subst isFirst
    rw [exchange_left]
    exact key_congr swapped.atFirst unplaced
  · by_cases isSecond : index = second
    · subst isSecond
      rw [exchange_right]
      exact key_congr swapped.atSecond unplaced
    · rw [exchange_other _ isFirst isSecond]
      exact key_congr (swapped.other index isFirst isSecond) unplaced

end Swapped

/-- Two distinct positions of a linked vector, with what they point to. -/
structure Pair
    (slots : Slots)
    (first second : Nat)
    (left right : TimerPtr)
    (leftObject rightObject : TimerObj) : Prop where
  distinct :
    first ≠ second
  leftAt :
    slots.heap_[first]? = some left
  rightAt :
    slots.heap_[second]? = some right
  timersDiffer :
    left ≠ right
  leftStored :
    slots.objs[left]? = some leftObject
  rightStored :
    slots.objs[right]? = some rightObject

/-- Two distinct positions of a linked vector point to two timers. -/
theorem Linked.pair
    {slots : Slots}
    (linked : slots.Linked)
    {first second : Nat}
    (firstInBounds : first < slots.heap_.length)
    (secondInBounds : second < slots.heap_.length)
    (distinct : first ≠ second) :
    ∃ left right leftObject rightObject,
      Pair slots first second left right leftObject rightObject := by
  have leftAt := List.getElem?_eq_getElem firstInBounds
  have rightAt := List.getElem?_eq_getElem secondInBounds
  obtain ⟨leftObject, leftStored, -⟩ := linked leftAt
  obtain ⟨rightObject, rightStored, -⟩ := linked rightAt
  refine ⟨_, _, leftObject, rightObject,
    distinct, leftAt, rightAt, ?_, leftStored, rightStored⟩
  intro same
  exact distinct (linked.position_unique leftAt (same ▸ rightAt))

namespace Pair

variable
  {slots : Slots}
  {first second : Nat}
  {left right : TimerPtr}
  {leftObject rightObject : TimerObj}

theorem heap_other
    {index : Nat}
    (notFirst : index ≠ first)
    (notSecond : index ≠ second) :
    ((slots.heap_.set first right).set second left)[index]? =
      slots.heap_[index]? := by
  rw [List.getElem?_set_ne notSecond.symm,
    List.getElem?_set_ne notFirst.symm]

/-- The memory after `SwapHeap` on a pair of positions. -/
def exchanged
    (_pair :
      Pair slots first second left right leftObject rightObject) :
    Slots where
  objs :=
    (slots.objs.set right
      { rightObject with heap_index_ := first }).set
      left { leftObject with heap_index_ := second }
  heap_ :=
    (slots.heap_.set first right).set second left

variable
  (pair :
    Pair slots first second left right leftObject rightObject)

include pair

theorem heap_first :
    ((slots.heap_.set first right).set second left)[first]? =
      some right := by
  have inBounds := (List.getElem?_eq_some_iff.mp pair.leftAt).1
  rw [List.getElem?_set_ne pair.distinct.symm]
  simp [inBounds]

theorem heap_second :
    ((slots.heap_.set first right).set second left)[second]? =
      some left := by
  have inBounds := (List.getElem?_eq_some_iff.mp pair.rightAt).1
  simp [inBounds]

theorem objs_left :
    pair.exchanged.objs[left]? =
      some { leftObject with heap_index_ := second } := by
  have inBounds := (List.getElem?_eq_some_iff.mp pair.leftStored).1
  simp [exchanged, inBounds]

theorem objs_right :
    pair.exchanged.objs[right]? =
      some { rightObject with heap_index_ := first } := by
  have inBounds := (List.getElem?_eq_some_iff.mp pair.rightStored).1
  simp only [exchanged]
  rw [List.getElem?_set_ne pair.timersDiffer]
  simp [inBounds]

theorem objs_other
    {timer : TimerPtr}
    (notLeft : timer ≠ left)
    (notRight : timer ≠ right) :
    pair.exchanged.objs[timer]? = slots.objs[timer]? := by
  simp [exchanged, List.getElem?_set_ne notLeft.symm,
    List.getElem?_set_ne notRight.symm]

/-- `SwapHeap` on a pair of positions does not fault. -/
theorem swapHeap_eq :
    slots.swapHeap first second = some pair.exchanged := by
  have leftKept :
      (slots.objs.set right
        { rightObject with heap_index_ := first })[left]? =
          some leftObject := by
    rw [List.getElem?_set_ne pair.timersDiffer.symm, pair.leftStored]
  simp only [swapHeap, setHeapIndex, pair.leftAt, pair.rightAt,
    pair.heap_first, pair.heap_second, pair.rightStored, leftKept,
    Option.bind_eq_bind, Option.bind_some, Option.pure_def]
  rfl

/-- After `SwapHeap` every timer still knows its position. -/
theorem exchanged_linked
    (linked : slots.Linked) :
    pair.exchanged.Linked := by
  intro index timer stored
  by_cases isSecond : index = second
  · have isLeft : timer = left := by
      rw [isSecond] at stored
      exact Option.some.inj (stored.symm.trans pair.heap_second)
    rw [isLeft]
    exact ⟨_, pair.objs_left, isSecond.symm⟩
  · by_cases isFirst : index = first
    · have isRight : timer = right := by
        rw [isFirst] at stored
        exact Option.some.inj (stored.symm.trans pair.heap_first)
      rw [isRight]
      exact ⟨_, pair.objs_right, isFirst.symm⟩
    · have kept : slots.heap_[index]? = some timer :=
        (heap_other isFirst isSecond).symm.trans stored
      have notLeft : timer ≠ left := by
        rintro rfl
        exact isFirst (linked.position_unique kept pair.leftAt)
      have notRight : timer ≠ right := by
        rintro rfl
        exact isSecond (linked.position_unique kept pair.rightAt)
      rw [pair.objs_other notLeft notRight]
      exact linked kept

/-- `SwapHeap` changes nothing but two pointers and two positions. -/
theorem exchanged_rearranged :
    Rearranged slots pair.exchanged where
  perm := by
    obtain ⟨firstInBounds, leftShape⟩ :=
      List.getElem?_eq_some_iff.mp pair.leftAt
    obtain ⟨secondInBounds, rightShape⟩ :=
      List.getElem?_eq_some_iff.mp pair.rightAt
    have permuted :=
      List.set_set_perm firstInBounds secondInBounds
    rwa [leftShape, rightShape] at permuted
  unplaced := by
    apply List.ext_getElem?
    intro timer
    rw [List.getElem?_map, List.getElem?_map]
    by_cases isLeft : timer = left
    · rw [isLeft, pair.objs_left, pair.leftStored]
      rfl
    · by_cases isRight : timer = right
      · rw [isRight, pair.objs_right, pair.rightStored]
        rfl
      · rw [pair.objs_other isLeft isRight]
  frame timer absent := by
    apply pair.objs_other
    · rintro rfl
      exact absent (List.mem_of_getElem? pair.leftAt)
    · rintro rfl
      exact absent (List.mem_of_getElem? pair.rightAt)

end Pair

/-- On two distinct positions of a linked vector, `SwapHeap` does not fault. -/
theorem swapHeap_spec
    {slots : Slots}
    (linked : slots.Linked)
    {first second : Nat}
    (firstInBounds : first < slots.heap_.length)
    (secondInBounds : second < slots.heap_.length)
    (distinct : first ≠ second) :
    ∃ after,
      slots.swapHeap first second = some after ∧
        Swapped slots first second after := by
  obtain ⟨left, right, leftObject, rightObject, pair⟩ :=
    linked.pair firstInBounds secondInBounds distinct
  exact ⟨pair.exchanged, pair.swapHeap_eq, {
    linked := pair.exchanged_linked linked
    rearranged := pair.exchanged_rearranged
    other := fun _ notFirst notSecond =>
      Pair.heap_other notFirst notSecond
    atFirst := pair.heap_first.trans pair.rightAt.symm
    atSecond := pair.heap_second.trans pair.leftAt.symm
  }⟩

/-- What a finished sift leaves: a linked heap of the same timers. -/
structure Sifted (before after : Slots) : Prop where
  linked :
    after.Linked
  ordered :
    after.HeapOrdered
  rearranged :
    Rearranged before after

theorem Sifted.refl
    {slots : Slots}
    (linked : slots.Linked)
    (ordered : slots.HeapOrdered) :
    Sifted slots slots :=
  ⟨linked, ordered, .refl slots⟩

theorem Sifted.after_swap
    {before swapped after : Slots}
    {first second : Nat}
    (exchanged : Swapped before first second swapped)
    (sifted : Sifted swapped after) :
    Sifted before after :=
  ⟨sifted.linked, sifted.ordered,
    exchanged.rearranged.trans sifted.rearranged⟩

/-- The decrement of a positive machine word does not wrap. -/
theorem decrement_of_pos
    {index : Nat}
    (positive : 0 < index)
    (word : index < 2 ^ 64) :
    decrement index = index - 1 := by
  unfold decrement
  omega

theorem decrement_half_eq_parent
    {index : Nat}
    (positive : 0 < index)
    (word : index < 2 ^ 64) :
    decrement index / 2 = parent index := by
  rw [decrement_of_pos positive word]
  rfl

/--
`UpHeap` from a slot that may be below its parent stays inside the vector and
restores the heap.
-/
theorem upHeap_spec
    {slots : Slots}
    {index : Nat}
    (linked : slots.Linked)
    (word : slots.heap_.length ≤ 2 ^ 64)
    (inBounds : index < slots.heap_.length)
    (shape : UpOrdered slots.key slots.heap_.length index) :
    ∃ after,
      slots.upHeap index = some after ∧ Sifted slots after := by
  induction index using Nat.strongRecOn generalizing slots with
  | ind index inductionHypothesis =>
      rw [upHeap]
      by_cases positive : 0 < index
      · have parentBefore := parent_lt positive
        have parentIndex :=
          decrement_half_eq_parent positive (by omega)
        obtain ⟨own, ownAt, ownKey⟩ :=
          linked.deadlineAt_of_lt inBounds
        obtain ⟨above, aboveAt, aboveKey⟩ :=
          linked.deadlineAt_of_lt
            (Nat.lt_trans parentBefore inBounds)
        simp only [positive, ↓reduceIte, parentIndex, ownAt, aboveAt,
          Option.bind_eq_bind, Option.bind_some, Option.pure_def]
        by_cases below : own < above
        · have keyBelow :
              slots.key index < slots.key (parent index) := by
            rw [← ownKey, ← aboveKey]
            exact Timestamp.lt_iff_usec_lt.mp below
          obtain ⟨swapped, swapEq, exchanged⟩ :=
            swapHeap_spec linked inBounds
              (Nat.lt_trans parentBefore inBounds)
              (by omega)
          have movedShape :=
            shape.exchange_parent positive inBounds keyBelow
          rw [← exchanged.key, ← exchanged.length] at movedShape
          obtain ⟨after, afterEq, sifted⟩ :=
            inductionHypothesis (parent index) parentBefore
              exchanged.linked
              (by rw [exchanged.length]; exact word)
              (by rw [exchanged.length]; omega)
              movedShape
          refine ⟨after, ?_, sifted.after_swap exchanged⟩
          simp [below, swapEq, afterEq]
        · have stop :
              slots.key (parent index) ≤ slots.key index := by
            rw [← ownKey, ← aboveKey]
            exact Nat.le_of_not_lt
              (mt Timestamp.lt_iff_usec_lt.mpr below)
          refine ⟨slots, by simp [below], ?_⟩
          exact Sifted.refl linked (shape.ordered fun _ => stop)
      · refine ⟨slots, by simp [positive], ?_⟩
        exact Sifted.refl linked
          (shape.ordered fun isPositive =>
            (positive isPositive).elim)

/-- `DownHeap` selects a least child of the slot. -/
theorem minChild_spec
    {slots : Slots}
    {index : Nat}
    (linked : slots.Linked)
    (inBounds : index * 2 + 1 < slots.heap_.length) :
    ∃ selected,
      slots.minChild (index * 2 + 1) = some selected ∧
        selected < slots.heap_.length ∧
        0 < selected ∧
        parent selected = index ∧
        ∀ child, 0 < child → child < slots.heap_.length →
          parent child = index →
          slots.key selected ≤ slots.key child := by
  unfold minChild
  by_cases only : index * 2 + 1 + 1 = slots.heap_.length
  · refine ⟨index * 2 + 1, by simp [only], inBounds, by omega,
      (parent_eq_iff (by omega)).mpr (.inl rfl), ?_⟩
    intro child childPositive childInBounds childOfIndex
    rcases (parent_eq_iff childPositive).mp childOfIndex with
      isLeft | isRight
    · rw [isLeft]
    · omega
  · have rightInBounds : index * 2 + 1 + 1 < slots.heap_.length := by
      omega
    obtain ⟨left, leftAt, leftKey⟩ := linked.deadlineAt_of_lt inBounds
    obtain ⟨right, rightAt, rightKey⟩ :=
      linked.deadlineAt_of_lt rightInBounds
    by_cases leftLess : left < right
    · have keyLess :
          slots.key (index * 2 + 1) <
            slots.key (index * 2 + 1 + 1) := by
        rw [← leftKey, ← rightKey]
        exact Timestamp.lt_iff_usec_lt.mp leftLess
      refine ⟨index * 2 + 1,
        by simp [only, leftAt, rightAt, leftLess], inBounds, by omega,
        (parent_eq_iff (by omega)).mpr (.inl rfl), ?_⟩
      intro child childPositive childInBounds childOfIndex
      rcases (parent_eq_iff childPositive).mp childOfIndex with
        isLeft | isRight
      · rw [isLeft]
      · rw [isRight]
        exact keyLess.le
    · have keyNotLess :
          slots.key (index * 2 + 1 + 1) ≤
            slots.key (index * 2 + 1) := by
        rw [← leftKey, ← rightKey]
        exact Nat.le_of_not_lt
          (mt Timestamp.lt_iff_usec_lt.mpr leftLess)
      refine ⟨index * 2 + 1 + 1,
        by simp [only, leftAt, rightAt, leftLess], by omega, by omega,
        (parent_eq_iff (by omega)).mpr (.inr rfl), ?_⟩
      intro child childPositive childInBounds childOfIndex
      rcases (parent_eq_iff childPositive).mp childOfIndex with
        isLeft | isRight
      · rw [isLeft]
        exact keyNotLess
      · rw [isRight]

/--
`DownHeap` from a slot that may be above its children stays inside the vector
and restores the heap.
-/
theorem downHeap_spec
    {slots : Slots}
    {index : Nat}
    (linked : slots.Linked)
    (inBounds : index < slots.heap_.length)
    (shape : DownOrdered slots.key slots.heap_.length index) :
    ∃ after,
      slots.downHeap index = some after ∧ Sifted slots after := by
  induction distance : slots.heap_.length - index
      using Nat.strongRecOn generalizing slots index with
  | ind distance inductionHypothesis =>
      by_cases inside : index * 2 + 1 < slots.heap_.length
      · obtain ⟨selected, chosen, selectedInBounds, selectedPositive,
            childOfIndex, least⟩ :=
          minChild_spec linked inside
        obtain ⟨own, ownAt, ownKey⟩ :=
          linked.deadlineAt_of_lt inBounds
        obtain ⟨below, belowAt, belowKey⟩ :=
          linked.deadlineAt_of_lt selectedInBounds
        have indexBefore : index < selected := by
          rw [← childOfIndex]
          exact parent_lt selectedPositive
        by_cases settled : own < below
        · have keySettled :
              slots.key index < slots.key selected := by
            rw [← ownKey, ← belowKey]
            exact Timestamp.lt_iff_usec_lt.mp settled
          refine ⟨slots, ?_, Sifted.refl linked (shape.ordered ?_)⟩
          · rw [downHeap_step inside chosen ownAt belowAt,
              if_pos settled]
          · intro child childPositive childInBounds childParent
            exact keySettled.le.trans
              (least child childPositive childInBounds childParent)
        · have notAbove :
              slots.key selected ≤ slots.key index := by
            rw [← ownKey, ← belowKey]
            exact Nat.le_of_not_lt
              (mt Timestamp.lt_iff_usec_lt.mpr settled)
          obtain ⟨swapped, swapEq, exchanged⟩ :=
            swapHeap_spec linked inBounds selectedInBounds (by omega)
          have movedShape :=
            shape.exchange_child selectedPositive selectedInBounds
              childOfIndex least notAbove
          rw [← exchanged.key, ← exchanged.length] at movedShape
          obtain ⟨after, afterEq, sifted⟩ :=
            inductionHypothesis
              (swapped.heap_.length - selected)
              (by rw [exchanged.length]; omega)
              exchanged.linked
              (by rw [exchanged.length]; exact selectedInBounds)
              movedShape
              rfl
          refine ⟨after, ?_, sifted.after_swap exchanged⟩
          rw [downHeap_step inside chosen ownAt belowAt,
            if_neg settled, swapEq, Option.bind_some, afterEq]
      · refine ⟨slots, by rw [downHeap]; simp [inside],
          Sifted.refl linked (shape.ordered ?_)⟩
        intro child childPositive childInBounds childParent
        have := (parent_eq_iff childPositive).mp childParent
        omega

/-- The vector without its last element. -/
def pop (slots : Slots) : Slots :=
  { slots with heap_ := slots.heap_.dropLast }

theorem popBack_eq
    {slots : Slots}
    (nonempty : 0 < slots.heap_.length) :
    popBack slots.heap_ = some slots.pop.heap_ := by
  cases shape : slots.heap_ with
  | nil =>
      simp [shape] at nonempty
  | cons first rest =>
      simp [popBack, pop, shape]

/-- Elements before the last one survive a pop. -/
theorem pop_getElem?
    {slots : Slots}
    {index : Nat}
    (inBounds : index < slots.pop.heap_.length) :
    slots.pop.heap_[index]? = slots.heap_[index]? := by
  simp only [pop, List.length_dropLast] at inBounds ⊢
  rw [List.getElem?_dropLast, if_pos inBounds]

theorem pop_linked
    {slots : Slots}
    (linked : slots.Linked) :
    slots.pop.Linked := by
  intro index timer stored
  have inBounds := (List.getElem?_eq_some_iff.mp stored).1
  rw [pop_getElem? inBounds] at stored
  exact linked stored

theorem pop_key
    {slots : Slots}
    {index : Nat}
    (inBounds : index < slots.pop.heap_.length) :
    slots.pop.key index = slots.key index :=
  key_congr (pop_getElem? inBounds) rfl

/-- A pop takes out the element at the last position. -/
theorem pop_perm
    {slots : Slots}
    {last : TimerPtr}
    (atLast : slots.heap_[slots.heap_.length - 1]? = some last) :
    slots.heap_.Perm (last :: slots.pop.heap_) := by
  have nonempty : slots.heap_ ≠ [] := by
    rintro empty
    simp [empty] at atLast
  have lastShape : slots.heap_.getLast nonempty = last := by
    rw [List.getLast_eq_getElem]
    exact (List.getElem?_eq_some_iff.mp atLast).2
  have split := List.dropLast_append_getLast nonempty
  rw [lastShape] at split
  calc
    slots.heap_.Perm (slots.heap_.dropLast ++ [last]) :=
      .of_eq split.symm
    List.Perm _ (last :: slots.pop.heap_) :=
      List.perm_append_singleton last slots.heap_.dropLast

/-- What `RemoveTimer` leaves when it takes out the timer `removed`. -/
structure Removed
    (before : Slots)
    (removed : TimerPtr)
    (after : Slots) : Prop where
  linked :
    after.Linked
  ordered :
    after.HeapOrdered
  perm :
    before.heap_.Perm (removed :: after.heap_)
  unplaced :
    after.objs.map TimerObj.unplaced =
      before.objs.map TimerObj.unplaced
  frame :
    ∀ timer, timer ∉ before.heap_ →
      after.objs[timer]? = before.objs[timer]?

/-- The direction test of `RemoveTimer` compares with the parent's key. -/
theorem belowParent_spec
    {slots : Slots}
    {index : Nat}
    (linked : slots.Linked)
    (word : slots.heap_.length ≤ 2 ^ 64)
    (inBounds : index < slots.heap_.length) :
    slots.belowParent index =
      some (decide
        (0 < index ∧ slots.key index < slots.key (parent index))) := by
  unfold belowParent
  by_cases positive : 0 < index
  · have parentBefore := parent_lt positive
    obtain ⟨own, ownAt, ownKey⟩ := linked.deadlineAt_of_lt inBounds
    obtain ⟨above, aboveAt, aboveKey⟩ :=
      linked.deadlineAt_of_lt (Nat.lt_trans parentBefore inBounds)
    simp only [positive, ↓reduceIte,
      decrement_half_eq_parent positive (by omega), ownAt, aboveAt,
      Option.bind_eq_bind, Option.bind_some, Option.pure_def, true_and,
      ← ownKey, ← aboveKey, Timestamp.lt_iff_usec_lt]
  · simp [positive]

/-- Sifting a slot whose key was replaced restores the heap either way. -/
theorem resift_spec
    {slots : Slots}
    {key : Nat → Nat}
    {index : Nat}
    (linked : slots.Linked)
    (word : slots.heap_.length ≤ 2 ^ 64)
    (inBounds : index < slots.heap_.length)
    (ordered : Ordered key slots.heap_.length)
    (same :
      ∀ other, other < slots.heap_.length → other ≠ index →
        slots.key other = key other) :
    ∃ rises after,
      slots.belowParent index = some rises ∧
        (if rises then slots.upHeap index else slots.downHeap index) =
          some after ∧
        Sifted slots after := by
  rw [belowParent_spec linked word inBounds]
  by_cases below :
      0 < index ∧ slots.key index < slots.key (parent index)
  · obtain ⟨after, afterEq, sifted⟩ :=
      upHeap_spec linked word inBounds
        (ordered.upOrdered_replace same below.1 inBounds below.2)
    exact ⟨true, after, by simp [below], afterEq, sifted⟩
  · obtain ⟨after, afterEq, sifted⟩ :=
      downHeap_spec linked inBounds
        (ordered.downOrdered_replace same inBounds fun positive =>
          Nat.le_of_not_lt fun less => below ⟨positive, less⟩)
    exact ⟨false, after, by rw [decide_eq_false below],
      afterEq, sifted⟩

/--
`RemoveTimer` at a position of the vector stays inside the vector, takes out
exactly the timer at that position and leaves a heap.
-/
theorem removeAt_spec
    {slots : Slots}
    {index : Nat}
    {removed : TimerPtr}
    (linked : slots.Linked)
    (ordered : slots.HeapOrdered)
    (word : slots.heap_.length ≤ 2 ^ 64)
    (located : slots.heap_[index]? = some removed) :
    ∃ after,
      slots.removeAt index = some after ∧
        Removed slots removed after := by
  obtain ⟨inBounds, removedShape⟩ := List.getElem?_eq_some_iff.mp located
  have nonempty : 0 < slots.heap_.length := by omega
  have lastIndex : decrement slots.heap_.length = slots.heap_.length - 1 := by
    unfold decrement
    omega
  by_cases isLast : index = slots.heap_.length - 1
  · refine ⟨slots.pop, ?_, ?_⟩
    · simp [removeAt, lastIndex, isLast, popBack_eq nonempty, pop]
    · rw [isLast] at located
      have shorter : slots.pop.heap_.length ≤ slots.heap_.length := by
        simp [pop]
      exact {
        linked := pop_linked linked
        ordered :=
          (ordered.shrink shorter).congr fun _ => pop_key
        perm := pop_perm located
        unplaced := rfl
        frame := fun _ _ => rfl
      }
  · have lastInBounds :
        slots.heap_.length - 1 < slots.heap_.length := by
      omega
    obtain ⟨swapped, swapEq, exchanged⟩ :=
      swapHeap_spec linked inBounds lastInBounds isLast
    have sameLength := exchanged.length
    have popLength :
        swapped.pop.heap_.length = slots.heap_.length - 1 := by
      simp [pop, sameLength]
    have sameKeys :
        ∀ other, other < swapped.pop.heap_.length → other ≠ index →
          swapped.pop.key other = slots.key other := by
      intro other otherInBounds notIndex
      rw [pop_key otherInBounds, exchanged.key,
        exchange_other _ notIndex (by omega)]
    obtain ⟨rises, after, risesEq, afterEq, sifted⟩ :=
      resift_spec
        (pop_linked exchanged.linked)
        (by omega)
        (by omega)
        (ordered.shrink (by omega))
        sameKeys
    have atLast :
        swapped.heap_[swapped.heap_.length - 1]? = some removed := by
      rw [sameLength, exchanged.atSecond, located]
    have swappedNonempty : 0 < swapped.heap_.length := by omega
    refine ⟨after, ?_, {
      linked := sifted.linked
      ordered := sifted.ordered
      perm := ?_
      unplaced := ?_
      frame := ?_
    }⟩
    · have popShape :
          ({ swapped with heap_ := swapped.pop.heap_ } : Slots) =
            swapped.pop := rfl
      simp only [removeAt, lastIndex, isLast, ↓reduceIte, swapEq,
        popBack_eq swappedNonempty, popShape, risesEq,
        Option.bind_eq_bind, Option.bind_some, afterEq]
    · exact (exchanged.rearranged.perm.symm.trans
        (pop_perm atLast)).trans
          (sifted.rearranged.perm.symm.cons removed)
    · exact sifted.rearranged.unplaced.trans
        exchanged.rearranged.unplaced
    · intro timer absent
      have absentPopped : timer ∉ swapped.pop.heap_ := fun member =>
        absent (exchanged.rearranged.perm.mem_iff.mp
          (List.dropLast_subset _ member))
      exact (sifted.rearranged.frame timer absentPopped).trans
        (exchanged.rearranged.frame timer absent)

end Slots

end CsPrimer.Timers
