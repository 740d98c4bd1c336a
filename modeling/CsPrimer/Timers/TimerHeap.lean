import Mathlib.Data.Finset.Basic
import Mathlib.Data.Fintype.Basic
import CsPrimer.Library.TransitionSystem
import CsPrimer.Timers.Time

namespace CsPrimer.Timers

open Library

/-!
# The timer heap

A `TimerHeap` stores shared pointers in a vector that is a binary heap on the
deadlines of the timers they point to; every timer stores its own position.
Several heaps share one supply of identifiers, so the model is a world of
heaps, timer objects, and the `TimerID` variables of the caller.

Dereferencing a position outside the vector or an address that was never
allocated is a fault, written `none`, and so is a call of `AddTimespan`, which
returns nothing.  An element position fits `size_t`
because a vector of shared pointers holds fewer than `2 ^ 60` elements, so only
the decrement of a `size_t` can wrap.
-/

/-- The address of a timer object; addresses are never reused. -/
abbrev TimerPtr := Nat

/-- The fields of `TimerObj` that the heap reads or writes. -/
structure TimerObj where
  deadline_ : Timestamp
  interval_ : Timespan
  id_ : Nat
  periodic_ : Bool
  heap_index_ : Nat
  deriving Repr, DecidableEq

/-- A weak pointer with the identifier of the timer it was issued for. -/
structure TimerID where
  timer_ : Option TimerPtr := none
  id_ : Nat := 0
  deriving Repr, DecidableEq

/-- The two members of one `TimerHeap` object. -/
structure TimerHeap where
  heap_ : List TimerPtr := []
  active_timers_ : Finset Nat := ∅
  deriving DecidableEq

/-- Predecessor of a `size_t`, which wraps at zero. -/
def decrement (index : Nat) : Nat :=
  (index + (2 ^ 64 - 1)) % 2 ^ 64

/-- `TimerID::UniqueID`: pre-increment of the shared 64-bit counter. -/
def uniqueID (counter : Nat) : Nat :=
  (counter + 1) % 2 ^ 64

/-- The constructor of `TimerObj`, given its fresh identifier. -/
def TimerObj.construct
    (deadline : Timestamp)
    (interval : Timespan)
    (index id : Nat) : TimerObj where
  deadline_ :=
    deadline
  interval_ :=
    interval
  id_ :=
    id
  periodic_ :=
    ¬ interval.span_usec_ ≤ 0
  heap_index_ :=
    index

/-- `TimerObj::Restart`. -/
def TimerObj.restart
    (swap : Timestamp.Swap)
    (timer : TimerObj)
    (now : Timestamp) : Option TimerObj :=
  if timer.periodic_ then do
    let deadline ← now.addTimespanReturned timer.interval_
    return { timer with deadline_ := timer.deadline_.assign swap deadline }
  else
    some { timer with deadline_ := timer.deadline_.assign swap ⟨0⟩ }

/-- `std::vector::pop_back`, undefined on an empty vector. -/
def popBack : List TimerPtr → Option (List TimerPtr)
  | [] => none
  | first :: rest => some ((first :: rest).dropLast)

/-- The memory the sifting loops touch: all timer objects and one vector. -/
structure Slots where
  objs : List TimerObj
  heap_ : List TimerPtr
  deriving Repr, DecidableEq

namespace Slots

/-- `*heap_[index]`. -/
def timerAt (slots : Slots) (index : Nat) : Option TimerObj :=
  slots.heap_[index]?.bind fun timer => slots.objs[timer]?

/-- `heap_[index]->deadline_`. -/
def deadlineAt (slots : Slots) (index : Nat) : Option Timestamp :=
  (slots.timerAt index).map TimerObj.deadline_

/-- `heap_[index]->heap_index_ = index`. -/
def setHeapIndex (slots : Slots) (index : Nat) : Option Slots := do
  let timer ← slots.heap_[index]?
  let object ← slots.objs[timer]?
  return { slots with
    objs := slots.objs.set timer { object with heap_index_ := index } }

/-- `SwapHeap`. -/
def swapHeap (slots : Slots) (index1 index2 : Nat) : Option Slots := do
  let first ← slots.heap_[index1]?
  let second ← slots.heap_[index2]?
  let marked ← setHeapIndex
    { slots with
      heap_ := (slots.heap_.set index1 second).set index2 first }
    index1
  marked.setHeapIndex index2

/-- Storing a position keeps the vector. -/
theorem setHeapIndex_heap_
    {slots marked : Slots}
    {index : Nat}
    (stored : slots.setHeapIndex index = some marked) :
    marked.heap_ = slots.heap_ := by
  simp only [setHeapIndex, Option.bind_eq_bind, Option.pure_def,
    Option.bind_eq_some_iff, Option.some.injEq] at stored
  obtain ⟨timer, -, object, -, rfl⟩ := stored
  rfl

theorem swapHeap_length
    {slots swapped : Slots}
    {index1 index2 : Nat}
    (exchanged : slots.swapHeap index1 index2 = some swapped) :
    swapped.heap_.length = slots.heap_.length := by
  simp only [swapHeap, Option.bind_eq_bind,
    Option.bind_eq_some_iff] at exchanged
  obtain ⟨first, -, second, -, marked, stored, storedLast⟩ := exchanged
  rw [setHeapIndex_heap_ storedLast, setHeapIndex_heap_ stored]
  simp

/-- `UpHeap`. -/
def upHeap (slots : Slots) (index : Nat) : Option Slots :=
  if 0 < index then do
    let parent := decrement index / 2
    let own ← slots.deadlineAt index
    let above ← slots.deadlineAt parent
    if ¬ own < above then
      return slots
    else
      let swapped ← slots.swapHeap index parent
      swapped.upHeap parent
  else
    some slots
termination_by index
decreasing_by
  unfold decrement
  omega

/-- The conditional expression that selects `min_child` in `DownHeap`. -/
def minChild (slots : Slots) (child : Nat) : Option Nat :=
  if child + 1 = slots.heap_.length then
    some child
  else do
    let left ← slots.deadlineAt child
    let right ← slots.deadlineAt (child + 1)
    return if left < right then child else child + 1

theorem minChild_eq
    {slots : Slots}
    {child selected : Nat}
    (chosen : slots.minChild child = some selected) :
    selected = child ∨ selected = child + 1 := by
  unfold minChild at chosen
  split at chosen
  · exact .inl (Option.some.inj chosen).symm
  · simp only [Option.bind_eq_bind, Option.pure_def,
      Option.bind_eq_some_iff, Option.some.injEq] at chosen
    obtain ⟨left, -, right, -, shape⟩ := chosen
    split at shape
    · exact .inl shape.symm
    · exact .inr shape.symm

/-- `DownHeap`. -/
def downHeap (slots : Slots) (index : Nat) : Option Slots :=
  let child := index * 2 + 1
  if child < slots.heap_.length then do
    match _chosen : slots.minChild child with
    | none => none
    | some min_child =>
        let own ← slots.deadlineAt index
        let below ← slots.deadlineAt min_child
        if own < below then
          return slots
        else
          match _exchanged : slots.swapHeap index min_child with
          | none => none
          | some swapped => swapped.downHeap min_child
  else
    some slots
termination_by slots.heap_.length - index
decreasing_by
  have sameLength := swapHeap_length _exchanged
  have bounds := minChild_eq _chosen
  omega

/-- One turn of the `DownHeap` loop whose accesses all stay in the vector. -/
theorem downHeap_step
    {slots : Slots}
    {index selected : Nat}
    {own below : Timestamp}
    (inside : index * 2 + 1 < slots.heap_.length)
    (chosen : slots.minChild (index * 2 + 1) = some selected)
    (ownAt : slots.deadlineAt index = some own)
    (belowAt : slots.deadlineAt selected = some below) :
    slots.downHeap index =
      if own < below then
        some slots
      else
        (slots.swapHeap index selected).bind fun swapped =>
          swapped.downHeap selected := by
  rw [downHeap]
  simp only [inside, ↓reduceIte]
  split
  · next missing =>
      simp [chosen] at missing
  · next found =>
      obtain rfl := Option.some.inj (chosen.symm.trans found)
      simp only [ownAt, belowAt, Option.bind_eq_bind,
        Option.bind_some, Option.pure_def]
      split
      · rfl
      · split
        · next missing =>
            simp [missing]
        · next swapped =>
            simp [swapped]

/-- The test of `RemoveTimer` that chooses the direction of the sift. -/
def belowParent (slots : Slots) (index : Nat) : Option Bool :=
  let parent := decrement index / 2
  if 0 < index then do
    let own ← slots.deadlineAt index
    let above ← slots.deadlineAt parent
    return decide (own < above)
  else
    some false

/-- The part of `RemoveTimer` after the identifier has been erased. -/
def removeAt (slots : Slots) (index : Nat) : Option Slots :=
  let last := decrement slots.heap_.length
  if index = last then do
    let popped ← popBack slots.heap_
    return { slots with heap_ := popped }
  else do
    let swapped ← slots.swapHeap index last
    let popped ← popBack swapped.heap_
    let shorter := { swapped with heap_ := popped }
    if ← shorter.belowParent index then
      shorter.upHeap index
    else
      shorter.downHeap index

/-- `UpHeap` keeps the number of elements. -/
theorem upHeap_length
    {slots after : Slots}
    {index : Nat}
    (sifted : slots.upHeap index = some after) :
    after.heap_.length = slots.heap_.length := by
  induction index using Nat.strongRecOn generalizing slots with
  | ind index inductionHypothesis =>
      rw [upHeap] at sifted
      split at sifted
      · simp only [Option.bind_eq_bind, Option.pure_def,
          Option.bind_eq_some_iff] at sifted
        obtain ⟨own, -, above, -, turn⟩ := sifted
        split at turn
        · cases turn
          rfl
        · simp only [Option.bind_eq_some_iff] at turn
          obtain ⟨swapped, exchanged, rest⟩ := turn
          rw [inductionHypothesis _ (by unfold decrement; omega) rest,
            swapHeap_length exchanged]
      · cases sifted
        rfl

/-- `DownHeap` keeps the number of elements. -/
theorem downHeap_length
    {slots after : Slots}
    {index : Nat}
    (sifted : slots.downHeap index = some after) :
    after.heap_.length = slots.heap_.length := by
  fun_induction downHeap slots index with
  | case1 slots index child inside missing =>
      cases sifted
  | case2 slots index child inside selected chosen inductionHypothesis =>
      simp only [Option.bind_eq_bind, Option.pure_def,
        Option.bind_eq_some_iff] at sifted
      obtain ⟨own, -, below, -, turn⟩ := sifted
      split at turn
      · cases turn
        rfl
      · split at turn
        · cases turn
        · next swapped exchanged =>
            rw [inductionHypothesis swapped exchanged turn,
              swapHeap_length exchanged]
  | case3 slots index child outside =>
      cases sifted
      rfl

/-- `pop_back` shortens the vector by one. -/
theorem popBack_length
    {vector popped : List TimerPtr}
    (shortened : popBack vector = some popped) :
    popped.length + 1 = vector.length := by
  cases vector with
  | nil =>
      cases shortened
  | cons first rest =>
      cases shortened
      simp

/-- The body of `RemoveTimer` takes out exactly one element. -/
theorem removeAt_length
    {slots after : Slots}
    {index : Nat}
    (removed : slots.removeAt index = some after) :
    after.heap_.length + 1 = slots.heap_.length := by
  simp only [removeAt] at removed
  split at removed
  · simp only [Option.bind_eq_bind, Option.pure_def,
      Option.bind_eq_some_iff, Option.some.injEq] at removed
    obtain ⟨popped, shortened, rfl⟩ := removed
    exact popBack_length shortened
  · simp only [Option.bind_eq_bind,
      Option.bind_eq_some_iff] at removed
    obtain ⟨swapped, exchanged, popped, shortened,
      rises, -, sifted⟩ := removed
    have poppedLength := popBack_length shortened
    rw [swapHeap_length exchanged] at poppedLength
    split at sifted
    · rw [upHeap_length sifted, poppedLength]
    · rw [downHeap_length sifted, poppedLength]

end Slots

/--
All heaps of the program, the timer objects ever allocated, the caller's
`TimerID` variables, and the timers the caller holds by shared pointer.
-/
structure World (heapCount : Nat) where
  counter : Nat
  objs : List TimerObj
  heaps : Fin heapCount → TimerHeap
  ids : Nat → TimerID
  held : Finset TimerPtr

variable {heapCount : Nat}

namespace World

/-- Before any call: empty heaps and default-constructed identifiers. -/
def empty : World heapCount where
  counter :=
    0
  objs :=
    []
  heaps _ :=
    {}
  ids _ :=
    {}
  held :=
    ∅

/-- A timer object lives while a heap or the caller owns it. -/
def Alive (world : World heapCount) (timer : TimerPtr) : Prop :=
  timer ∈ world.held ∨ ∃ heap, timer ∈ (world.heaps heap).heap_

instance (world : World heapCount) : DecidablePred world.Alive :=
  fun timer =>
    inferInstanceAs
      (Decidable
        (timer ∈ world.held ∨ ∃ heap, timer ∈ (world.heaps heap).heap_))

/-- `std::weak_ptr::lock`. -/
def lock
    (world : World heapCount)
    (wptimer : Option TimerPtr) : Option TimerPtr :=
  wptimer.filter fun timer => decide (world.Alive timer)

/-- The memory seen by the sifting loops of one heap. -/
def slots (world : World heapCount) (self : Fin heapCount) : Slots where
  objs :=
    world.objs
  heap_ :=
    (world.heaps self).heap_

/-- Write back the memory changed by one heap's sifting loops. -/
def restore
    (world : World heapCount)
    (self : Fin heapCount)
    (slots : Slots)
    (active : Finset Nat) : World heapCount :=
  { world with
    objs := slots.objs
    heaps := Function.update world.heaps self
      { heap_ := slots.heap_
        active_timers_ := active } }

end World

/-- `RemoveTimer`. -/
def removeTimer
    (world : World heapCount)
    (self : Fin heapCount)
    (wptimer : Option TimerPtr) : Option (World heapCount) :=
  match world.lock wptimer with
  | none => some world
  | some sptimer => do
      let object ← world.objs[sptimer]?
      let active_timers_ :=
        (world.heaps self).active_timers_.erase object.id_
      let slots ← (world.slots self).removeAt object.heap_index_
      return world.restore self slots active_timers_

theorem restore_heaps_self
    (world : World heapCount)
    (self : Fin heapCount)
    (slots : Slots)
    (active : Finset Nat) :
    (world.restore self slots active).heaps self =
      { heap_ := slots.heap_
        active_timers_ := active } := by
  simp [World.restore]

/-- Removing a living timer shortens the vector of its heap by one. -/
theorem removeTimer_length
    {world removed : World heapCount}
    {self : Fin heapCount}
    {timer : TimerPtr}
    (alive : world.Alive timer)
    (taken : removeTimer world self (some timer) = some removed) :
    (removed.heaps self).heap_.length + 1 =
      (world.heaps self).heap_.length := by
  simp only [removeTimer, World.lock, Option.filter_some, alive,
    decide_true, ↓reduceIte, Option.bind_eq_bind, Option.pure_def,
    Option.bind_eq_some_iff, Option.some.injEq] at taken
  obtain ⟨object, -, slots, shortened, rfl⟩ := taken
  rw [restore_heaps_self]
  exact Slots.removeAt_length shortened

/-- The caller of `GetExpiredTimers` owns the returned timers. -/
def World.hold
    (world : World heapCount)
    (timer : TimerPtr) : World heapCount :=
  { world with held := insert timer world.held }

theorem World.alive_hold
    (world : World heapCount)
    (timer : TimerPtr) :
    (world.hold timer).Alive timer :=
  .inl (Finset.mem_insert_self timer world.held)

/-- The loop of `GetExpiredTimers`, with the timers collected so far. -/
def collectExpired
    (world : World heapCount)
    (self : Fin heapCount)
    (now : Timestamp)
    (expired : List TimerPtr) :
    Option (World heapCount × List TimerPtr) :=
  match _front : (world.heaps self).heap_ with
  | [] => some (world, expired)
  | timer :: _ =>
      match world.objs[timer]? with
      | none => none
      | some object =>
          if ¬ now < object.deadline_ then
            match _removed :
                removeTimer (world.hold timer) self (some timer) with
            | none => none
            | some shorter =>
                collectExpired shorter self now (expired ++ [timer])
          else
            some (world, expired)
termination_by (world.heaps self).heap_.length
decreasing_by
  have shortened :=
    removeTimer_length (world.alive_hold timer) _removed
  simp only [World.hold] at shortened
  omega

/-- `GetExpiredTimers`. -/
def getExpiredTimers
    (world : World heapCount)
    (self : Fin heapCount)
    (now : Timestamp) :
    Option (World heapCount × List TimerPtr) :=
  collectExpired world self now []

/-- The test of `AddTimer` that decides its return value. -/
def expiresFirst
    (slots : Slots)
    (deadline : Timestamp) : Option Bool :=
  if slots.heap_ ≠ [] then do
    let front ← slots.deadlineAt 0
    return decide (deadline < front)
  else
    some false

/-- `AddTimer`, with the variable that receives the new `TimerID`. -/
def addTimer
    (world : World heapCount)
    (self : Fin heapCount)
    (deadline : Timestamp)
    (interval : Timespan)
    (id : Nat) : Option (World heapCount × Bool) := do
  let heap := world.heaps self
  let ret ← expiresFirst (world.slots self) deadline
  let index := heap.heap_.length
  let fresh := uniqueID world.counter
  let timer := world.objs.length
  let grown : Slots :=
    { objs :=
        world.objs ++
          [TimerObj.construct deadline interval index fresh]
      heap_ := heap.heap_ ++ [timer] }
  let sifted ← grown.upHeap (decrement grown.heap_.length)
  let added :=
    world.restore self sifted (insert fresh heap.active_timers_)
  let issued : TimerID := { timer_ := some timer, id_ := fresh }
  some
    ({ added with
        counter := fresh
        ids := Function.update added.ids id issued },
      ret)

/-- `CancelTimer`, on the variable `id`. -/
def cancelTimer
    (world : World heapCount)
    (self : Fin heapCount)
    (id : Nat) : Option (World heapCount) :=
  let heap := world.heaps self
  let named := world.ids id
  if heap.heap_ ≠ [] ∧ named.id_ ∈ heap.active_timers_ then do
    let removed ← removeTimer world self named.timer_
    return { removed with ids := Function.update removed.ids id {} }
  else
    some world

/-- `Restart` on a timer object, through any pointer to it. -/
def restartTimer
    (swap : Timestamp.Swap)
    (world : World heapCount)
    (timer : TimerPtr)
    (now : Timestamp) : Option (World heapCount) := do
  let object ← world.objs[timer]?
  let restarted ← object.restart swap now
  return { world with objs := world.objs.set timer restarted }

/-- The calls a program makes on its heaps, timers and identifiers. -/
inductive Call (heapCount : Nat) where
  | addTimer
      (self : Fin heapCount)
      (deadline : Timestamp)
      (interval : Timespan)
      (id : Nat)
  | cancelTimer (self : Fin heapCount) (id : Nat)
  | getExpiredTimers (self : Fin heapCount) (now : Timestamp)
  | copyID (target source : Nat)
  | releaseTimer (timer : TimerPtr)
  | restart (timer : TimerPtr) (now : Timestamp)
  deriving Repr, DecidableEq

/-- What a call returns. -/
inductive Reply where
  | done
  | added (ret : Bool)
  | expired (timers : List TimerPtr)
  deriving Repr, DecidableEq

/-- Execute one call; `none` is a fault. -/
def invoke
    (swap : Timestamp.Swap)
    (world : World heapCount) :
    Call heapCount → Option (World heapCount × Reply)
  | .addTimer self deadline interval id =>
      (addTimer world self deadline interval id).map fun outcome =>
        (outcome.1, .added outcome.2)
  | .cancelTimer self id =>
      (cancelTimer world self id).map fun next => (next, .done)
  | .getExpiredTimers self now =>
      (getExpiredTimers world self now).map fun outcome =>
        (outcome.1, .expired outcome.2)
  | .copyID target source =>
      some
        ({ world with
            ids := Function.update world.ids target (world.ids source) },
          .done)
  | .releaseTimer timer =>
      some ({ world with held := world.held.erase timer }, .done)
  | .restart timer now =>
      (restartTimer swap world timer now).map fun next => (next, .done)

/-- Every program over `heapCount` heaps, observed by its calls and replies. -/
def program (swap : Timestamp.Swap) (heapCount : Nat) :
    System (World heapCount) (Call heapCount)
      (Call heapCount × Reply) where
  initial :=
    .empty
  step? world call :=
    (invoke swap world call).map fun outcome =>
      (outcome.1, [(call, outcome.2)])

end CsPrimer.Timers
