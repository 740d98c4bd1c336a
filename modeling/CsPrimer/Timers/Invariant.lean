import Mathlib.Data.List.Nodup
import Mathlib.Data.Finset.Dedup
import CsPrimer.Timers.Sift

namespace CsPrimer.Timers

open Library BinaryHeap

variable {heapCount : Nat}

/-!
# The invariant of a world of timer heaps

`HeapInvariant` is the representation invariant of one heap: stored positions,
heap order, and an identifier set in step with the vector.  It only reads the
timers the vector points to, so it survives whatever happens to other timers.
`World.Invariant` adds what ties the heaps, the identifiers and the counter
together.  Each method has one specification lemma under the invariant, which
also says that the method does not fault.
-/

/-- The representation invariant of one heap. -/
structure HeapInvariant
    (objs : List TimerObj)
    (heap : TimerHeap) : Prop where
  linked :
    (Slots.mk objs heap.heap_).Linked
  ordered :
    (Slots.mk objs heap.heap_).HeapOrdered
  active :
    ∀ id, id ∈ heap.active_timers_ ↔
      ∃ timer ∈ heap.heap_, id = timer + 1

namespace HeapInvariant

variable
  {objs changed : List TimerObj}
  {heap : TimerHeap}

/-- A heap without timers satisfies its invariant. -/
theorem empty (objs : List TimerObj) : HeapInvariant objs {} where
  linked := by
    intro index timer stored
    simp at stored
  ordered index _ inBounds := by
    simp at inBounds
  active id := by
    simp

/-- The invariant only reads the timers of its own vector. -/
theorem frame
    (invariant : HeapInvariant objs heap)
    (same :
      ∀ timer ∈ heap.heap_, changed[timer]? = objs[timer]?) :
    HeapInvariant changed heap where
  linked := by
    intro index timer stored
    obtain ⟨object, found, position⟩ := invariant.linked stored
    exact ⟨object,
      (same timer (List.mem_of_getElem? stored)).trans found,
      position⟩
  ordered := by
    apply invariant.ordered.congr
    intro index inBounds
    have stored := List.getElem?_eq_getElem inBounds
    have sameObject := same _ (List.mem_of_getElem? stored)
    simp only [Slots.key, Slots.deadlineAt, Slots.timerAt, stored,
      Option.bind_some, sameObject]
  active :=
    invariant.active

/-- A vector only points to allocated timers. -/
theorem allocated
    (invariant : HeapInvariant objs heap)
    {timer : TimerPtr}
    (member : timer ∈ heap.heap_) :
    timer < objs.length := by
  obtain ⟨index, stored⟩ := List.mem_iff_getElem?.mp member
  obtain ⟨object, found, -⟩ := invariant.linked stored
  exact (List.getElem?_eq_some_iff.mp found).1

/-- A vector is no longer than the list of allocated timers. -/
theorem heap_length_le
    (invariant : HeapInvariant objs heap) :
    heap.heap_.length ≤ objs.length := by
  have distinct : heap.heap_.Nodup :=
    Slots.Linked.nodup invariant.linked
  have subset : heap.heap_ ⊆ List.range objs.length := fun timer member =>
    List.mem_range.mpr (invariant.allocated member)
  simpa using (distinct.subperm subset).length_le

end HeapInvariant

/-- The invariant of all heaps, identifiers and timers of a program. -/
structure World.Invariant (world : World heapCount) : Prop where
  heaps :
    ∀ heap, HeapInvariant world.objs (world.heaps heap)
  few :
    world.objs.length < 2 ^ 64
  counter :
    world.counter = world.objs.length
  numbered :
    ∀ {timer object}, world.objs[timer]? = some object →
      object.id_ = timer + 1
  apart :
    ∀ {first second timer},
      timer ∈ (world.heaps first).heap_ →
      timer ∈ (world.heaps second).heap_ →
      first = second
  issued :
    ∀ name, world.ids name = {} ∨
      ∃ timer, timer < world.objs.length ∧
        world.ids name = { timer_ := some timer, id_ := timer + 1 }

namespace World.Invariant

variable {world : World heapCount}

/-- The world before any call satisfies the invariant. -/
theorem empty : (World.empty : World heapCount).Invariant where
  heaps _ :=
    .empty []
  few := by
    simp [World.empty]
  counter :=
    rfl
  numbered := by
    simp [World.empty]
  apart := by
    simp [World.empty]
  issued _ :=
    .inl rfl

/-- A timer in some vector is alive, so its weak pointer locks. -/
theorem lock_eq
    {self : Fin heapCount}
    {timer : TimerPtr}
    (member : timer ∈ (world.heaps self).heap_) :
    world.lock (some timer) = some timer := by
  have alive : world.Alive timer := .inr ⟨self, member⟩
  simp [World.lock, alive]

end World.Invariant

/-- The effect of removing one pending timer from its heap. -/
structure RemovedFrom
    (before : World heapCount)
    (target : Fin heapCount)
    (timer : TimerPtr)
    (after : World heapCount) : Prop where
  invariant :
    after.Invariant
  perm :
    (before.heaps target).heap_.Perm
      (timer :: (after.heaps target).heap_)
  others :
    ∀ heap, heap ≠ target → after.heaps heap = before.heaps heap
  unplaced :
    after.objs.map TimerObj.unplaced =
      before.objs.map TimerObj.unplaced
  ids :
    after.ids = before.ids

/-- Timers keep their identifiers when only positions change. -/
theorem id_of_unplaced
    {before after : List TimerObj}
    (unplaced :
      after.map TimerObj.unplaced = before.map TimerObj.unplaced)
    {timer : TimerPtr}
    {object : TimerObj}
    (stored : after[timer]? = some object) :
    ∃ original, before[timer]? = some original ∧
      original.id_ = object.id_ ∧
      original.deadline_ = object.deadline_ := by
  have same :
      after[timer]?.map TimerObj.unplaced =
        before[timer]?.map TimerObj.unplaced := by
    rw [← List.getElem?_map, ← List.getElem?_map, unplaced]
  rw [stored, Option.map_some, eq_comm, Option.map_eq_some_iff] at same
  obtain ⟨original, found, equal⟩ := same
  have sameId := congrArg TimerObj.id_ equal
  have sameDeadline := congrArg TimerObj.deadline_ equal
  exact ⟨original, found, sameId, sameDeadline⟩

/--
Writing back the memory of one heap keeps the invariant of the world when the
heap's own invariant is restored, it took no timer from another heap, and the
timers of the other heaps are untouched.
-/
theorem World.Invariant.restore
    {world : World heapCount}
    (invariant : world.Invariant)
    {self : Fin heapCount}
    {slots : Slots}
    {active : Finset Nat}
    (own :
      HeapInvariant slots.objs
        { heap_ := slots.heap_, active_timers_ := active })
    (fresh :
      ∀ timer ∈ slots.heap_, ∀ heap, heap ≠ self →
        timer ∉ (world.heaps heap).heap_)
    (unplaced :
      slots.objs.map TimerObj.unplaced =
        world.objs.map TimerObj.unplaced)
    (frame :
      ∀ heap, heap ≠ self → ∀ timer ∈ (world.heaps heap).heap_,
        slots.objs[timer]? = world.objs[timer]?) :
    (world.restore self slots active).Invariant := by
  have sameLength : slots.objs.length = world.objs.length := by
    simpa using congrArg List.length unplaced
  have kept :
      ∀ heap, heap ≠ self →
        (world.restore self slots active).heaps heap =
          world.heaps heap := by
    intro heap notSelf
    simp [World.restore, notSelf]
  constructor
  · intro heap
    by_cases isSelf : heap = self
    · subst isSelf
      rw [restore_heaps_self]
      exact own
    · rw [kept heap isSelf]
      exact (invariant.heaps heap).frame (frame heap isSelf)
  · exact sameLength.trans_lt invariant.few
  · exact invariant.counter.trans sameLength.symm
  · intro timer object stored
    obtain ⟨original, found, sameId, -⟩ :=
      id_of_unplaced unplaced stored
    rw [← sameId]
    exact invariant.numbered found
  · intro first second timer inFirst inSecond
    by_cases firstIsSelf : first = self
    · subst firstIsSelf
      by_contra different
      rw [kept second (Ne.symm different)] at inSecond
      rw [restore_heaps_self] at inFirst
      exact fresh timer inFirst second (Ne.symm different) inSecond
    · rw [kept first firstIsSelf] at inFirst
      by_cases secondIsSelf : second = self
      · subst secondIsSelf
        rw [restore_heaps_self] at inSecond
        exact (fresh timer inSecond first firstIsSelf inFirst).elim
      · rw [kept second secondIsSelf] at inSecond
        exact invariant.apart inFirst inSecond
  · intro name
    show world.ids name = {} ∨ ∃ timer, timer < slots.objs.length ∧ _
    rw [sameLength]
    exact invariant.issued name

/-- `RemoveTimer` on a pending timer does not fault and removes just it. -/
theorem removeTimer_spec
    {world : World heapCount}
    (invariant : world.Invariant)
    {self : Fin heapCount}
    {timer : TimerPtr}
    (pending : timer ∈ (world.heaps self).heap_) :
    ∃ after,
      removeTimer world self (some timer) = some after ∧
        RemovedFrom world self timer after := by
  have own := invariant.heaps self
  obtain ⟨index, located⟩ := List.mem_iff_getElem?.mp pending
  obtain ⟨object, stored, position⟩ := own.linked located
  have word : (world.heaps self).heap_.length ≤ 2 ^ 64 :=
    own.heap_length_le.trans invariant.few.le
  obtain ⟨slots, removedEq, removed⟩ :=
    Slots.removeAt_spec own.linked own.ordered word located
  have sameId := invariant.numbered stored
  refine ⟨world.restore self slots
    ((world.heaps self).active_timers_.erase object.id_), ?_, {
      invariant := ?_
      perm := ?_
      others := ?_
      unplaced := removed.unplaced
      ids := rfl
    }⟩
  · simp only [removeTimer, World.Invariant.lock_eq pending, stored,
      Option.bind_eq_bind, Option.bind_some, Option.pure_def]
    rw [position]
    change
      (Slots.removeAt ⟨world.objs, (world.heaps self).heap_⟩ index).bind _ = _
    rw [removedEq, Option.bind_some]
  · have absent : timer ∉ slots.heap_ :=
      (List.nodup_cons.mp
        (removed.perm.nodup (Slots.Linked.nodup own.linked))).1
    apply invariant.restore
    · refine ⟨removed.linked, removed.ordered, ?_⟩
      intro id
      rw [Finset.mem_erase, own.active, sameId]
      constructor
      · rintro ⟨notRemoved, other, member, rfl⟩
        refine ⟨other, ?_, rfl⟩
        rcases List.mem_cons.mp (removed.perm.mem_iff.mp member) with
          same | kept
        · exact (notRemoved (by rw [same])).elim
        · exact kept
      · rintro ⟨other, member, rfl⟩
        refine ⟨?_, other,
          removed.perm.mem_iff.mpr (List.mem_cons_of_mem _ member), rfl⟩
        intro same
        have sameTimer : other = timer := Nat.succ.inj same
        exact absent (sameTimer ▸ member)
    · intro other member heap notSelf elsewhere
      exact notSelf (invariant.apart elsewhere
        (removed.perm.mem_iff.mpr (List.mem_cons_of_mem _ member)))
    · exact removed.unplaced
    · intro heap notSelf other member
      exact removed.frame other fun alsoSelf =>
        notSelf (invariant.apart member alsoSelf)
  · rw [restore_heaps_self]
    exact removed.perm
  · intro heap notSelf
    simp [World.restore, notSelf]

/-- `CancelTimer` touches nothing unless its identifier is pending. -/
theorem cancelTimer_idle
    {world : World heapCount}
    (invariant : world.Invariant)
    {self : Fin heapCount}
    {name : Nat}
    (idle :
      ∀ timer ∈ (world.heaps self).heap_,
        (world.ids name).timer_ ≠ some timer) :
    cancelTimer world self name = some world := by
  have inactive :
      (world.ids name).id_ ∉ (world.heaps self).active_timers_ := by
    intro active
    obtain ⟨timer, member, isTimer⟩ :=
      ((invariant.heaps self).active _).mp active
    rcases invariant.issued name with unset | ⟨other, -, named⟩
    · rw [unset] at isTimer
      exact Nat.succ_ne_zero timer isTimer.symm
    · apply idle timer member
      rw [named] at isTimer ⊢
      rw [Nat.succ.inj isTimer]
  simp [cancelTimer, inactive]

/-- `CancelTimer` removes the pending timer its identifier names. -/
theorem cancelTimer_spec
    {world : World heapCount}
    (invariant : world.Invariant)
    {self : Fin heapCount}
    {name : Nat}
    {timer : TimerPtr}
    (pending : timer ∈ (world.heaps self).heap_)
    (named : (world.ids name).timer_ = some timer) :
    ∃ removed,
      cancelTimer world self name =
          some { removed with
            ids := Function.update removed.ids name {} } ∧
        RemovedFrom world self timer removed := by
  obtain ⟨removed, removedEq, effect⟩ :=
    removeTimer_spec invariant pending
  have nonempty : (world.heaps self).heap_ ≠ [] :=
    List.ne_nil_of_mem pending
  have active :
      (world.ids name).id_ ∈ (world.heaps self).active_timers_ := by
    rw [(invariant.heaps self).active]
    refine ⟨timer, pending, ?_⟩
    rcases invariant.issued name with unset | ⟨other, -, issuedFor⟩
    · rw [unset] at named
      cases named
    · rw [issuedFor] at named ⊢
      rw [Option.some.inj named]
  refine ⟨removed, ?_, effect⟩
  simp [cancelTimer, nonempty, active, named, removedEq]

/-- Overwriting an identifier variable with a legitimate value is harmless. -/
theorem World.Invariant.update_ids
    {world : World heapCount}
    (invariant : world.Invariant)
    (name : Nat)
    {value : TimerID}
    (legitimate :
      value = {} ∨
        ∃ timer, timer < world.objs.length ∧
          value = { timer_ := some timer, id_ := timer + 1 }) :
    { world with
      ids := Function.update world.ids name value }.Invariant := by
  refine { invariant with issued := ?_ }
  intro other
  by_cases isName : other = name
  · subst isName
    simpa using legitimate
  · simpa [isName] using invariant.issued other

/-- The world after `AddTimer` allocated its timer, before it is inserted. -/
def World.allocate
    (world : World heapCount)
    (object : TimerObj)
    (name : Nat) : World heapCount :=
  { world with
    counter := object.id_
    objs := world.objs ++ [object]
    ids := Function.update world.ids name
      { timer_ := some world.objs.length, id_ := object.id_ } }

/-- Allocating a timer under the next identifier keeps the invariant. -/
theorem World.Invariant.allocate
    {world : World heapCount}
    (invariant : world.Invariant)
    (room : world.objs.length + 1 < 2 ^ 64)
    {object : TimerObj}
    (next : object.id_ = world.objs.length + 1)
    (name : Nat) :
    (world.allocate object name).Invariant := by
  constructor
  · intro heap
    apply (invariant.heaps heap).frame
    intro timer member
    exact List.getElem?_append_left
      ((invariant.heaps heap).allocated member)
  · simpa [World.allocate] using room
  · simpa [World.allocate] using next
  · intro timer stored found
    by_cases old : timer < world.objs.length
    · simp only [World.allocate, List.getElem?_append_left old] at found
      exact invariant.numbered found
    · have inBounds := (List.getElem?_eq_some_iff.mp found).1
      have isNew : timer = world.objs.length := by
        simp only [World.allocate, List.length_append,
          List.length_singleton] at inBounds
        omega
      subst isNew
      simp only [World.allocate, List.getElem?_concat_length,
        Option.some.injEq] at found
      rw [← found, next]
  · exact invariant.apart
  · intro other
    by_cases isName : other = name
    · subst isName
      exact .inr ⟨world.objs.length, by simp [World.allocate],
        by simp [World.allocate, next]⟩
    · rcases invariant.issued other with unset | ⟨timer, old, named⟩
      · exact .inl (by simp [World.allocate, isName, unset])
      · exact .inr ⟨timer, by simp [World.allocate]; omega,
          by simp [World.allocate, isName, named]⟩

/-- The effect of `AddTimer`. -/
structure AddedTo
    (before : World heapCount)
    (target : Fin heapCount)
    (deadline : Timestamp)
    (name : Nat)
    (after : World heapCount) : Prop where
  invariant :
    after.Invariant
  perm :
    (after.heaps target).heap_.Perm
      (before.objs.length :: (before.heaps target).heap_)
  others :
    ∀ heap, heap ≠ target → after.heaps heap = before.heaps heap
  deadlines :
    after.objs.map TimerObj.deadline_ =
      before.objs.map TimerObj.deadline_ ++ [deadline]
  ids :
    after.ids = Function.update before.ids name
      { timer_ := some before.objs.length
        id_ := before.objs.length + 1 }

/-- The vector and the timer objects just before `AddTimer` sifts. -/
def Slots.grow (slots : Slots) (object : TimerObj) : Slots where
  objs :=
    slots.objs ++ [object]
  heap_ :=
    slots.heap_ ++ [slots.objs.length]

namespace HeapInvariant

variable
  {objs : List TimerObj}
  {heap : TimerHeap}
  {object : TimerObj}

/-- The appended timer stores its position, and the others keep theirs. -/
theorem grow_linked
    (invariant : HeapInvariant objs heap)
    (position : object.heap_index_ = heap.heap_.length) :
    ((Slots.mk objs heap.heap_).grow object).Linked := by
  intro index timer stored
  by_cases old : index < heap.heap_.length
  · simp only [Slots.grow, List.getElem?_append_left old] at stored
    obtain ⟨found, at_, index_⟩ := invariant.linked stored
    have allocated :=
      invariant.allocated (List.mem_of_getElem? stored)
    exact ⟨found,
      (List.getElem?_append_left allocated).trans at_, index_⟩
  · have inBounds := (List.getElem?_eq_some_iff.mp stored).1
    have isLast : index = heap.heap_.length := by
      simp only [Slots.grow, List.length_append,
        List.length_singleton] at inBounds
      omega
    subst isLast
    simp only [Slots.grow, List.getElem?_concat_length,
      Option.some.injEq] at stored
    subst stored
    exact ⟨object, by simp [Slots.grow], position⟩

/-- The appended timer changes no key. -/
theorem grow_key
    (invariant : HeapInvariant objs heap)
    {index : Nat}
    (inBounds : index < heap.heap_.length) :
    ((Slots.mk objs heap.heap_).grow object).key index =
      (Slots.mk objs heap.heap_).key index := by
  have stored := List.getElem?_eq_getElem inBounds
  have allocated :=
    invariant.allocated (List.mem_of_getElem? stored)
  simp only [Slots.key, Slots.deadlineAt, Slots.timerAt, Slots.grow,
    List.getElem?_append_left inBounds, stored, Option.bind_some,
    List.getElem?_append_left allocated]

/-- Appending a timer leaves a heap that is ordered above its last slot. -/
theorem grow_upOrdered
    (invariant : HeapInvariant objs heap) :
    UpOrdered
      ((Slots.mk objs heap.heap_).grow object).key
      (heap.heap_.length + 1) heap.heap_.length :=
  invariant.ordered.upOrdered_append fun _ => invariant.grow_key

end HeapInvariant

/-- `AddTimer` compares the new deadline with the first one, if any. -/
theorem expiresFirst_spec
    {objs : List TimerObj}
    {heap : TimerHeap}
    (invariant : HeapInvariant objs heap)
    (deadline : Timestamp) :
    expiresFirst (Slots.mk objs heap.heap_) deadline =
      some (decide
        (heap.heap_ ≠ [] ∧
          deadline.usec < (Slots.mk objs heap.heap_).key 0)) := by
  unfold expiresFirst
  by_cases empty : heap.heap_ = []
  · simp [empty]
  · obtain ⟨front, frontAt, frontKey⟩ :=
      Slots.Linked.deadlineAt_of_lt invariant.linked
        (List.length_pos_iff.mpr empty)
    simp only [ne_eq, empty, not_false_eq_true, ↓reduceIte, frontAt,
      Option.bind_eq_bind, Option.bind_some, Option.pure_def,
      ← frontKey, Timestamp.lt_iff_usec_lt, true_and]

/-- `AddTimer` does not fault, and its heap gains exactly the new timer. -/
theorem addTimer_spec
    {world : World heapCount}
    (invariant : world.Invariant)
    (room : world.objs.length + 1 < 2 ^ 64)
    (self : Fin heapCount)
    (deadline : Timestamp)
    (interval : Timespan)
    (name : Nat) :
    ∃ after,
      addTimer world self deadline interval name =
          some
            (after,
              decide ((world.heaps self).heap_ ≠ [] ∧
                deadline.usec < (world.slots self).key 0)) ∧
        AddedTo world self deadline name after := by
  have own := invariant.heaps self
  have nextId : uniqueID world.counter = world.objs.length + 1 := by
    rw [uniqueID, invariant.counter]
    omega
  let object :=
    TimerObj.construct deadline interval
      (world.heaps self).heap_.length (world.objs.length + 1)
  have allocated : (world.allocate object name).Invariant :=
    invariant.allocate room rfl name
  have inserted : (world.heaps self).heap_.length ≤ world.objs.length :=
    own.heap_length_le
  have grownLinked : ((world.slots self).grow object).Linked :=
    own.grow_linked rfl
  have grownLength :
      ((world.slots self).grow object).heap_.length =
        (world.heaps self).heap_.length + 1 := by
    simp [Slots.grow, World.slots]
  have grownShape :
      UpOrdered ((world.slots self).grow object).key
        ((world.slots self).grow object).heap_.length
        (world.heaps self).heap_.length := by
    rw [grownLength]
    exact own.grow_upOrdered
  obtain ⟨sifted, siftedEq, sift⟩ :=
    Slots.upHeap_spec grownLinked
      (by omega) (by omega) grownShape
  have newTimer : ∀ heap, world.objs.length ∉ (world.heaps heap).heap_ :=
    fun heap member =>
      Nat.lt_irrefl _ ((invariant.heaps heap).allocated member)
  have perm :
      sifted.heap_.Perm
        (world.objs.length :: (world.heaps self).heap_) :=
    sift.rearranged.perm.trans (List.perm_append_singleton _ _)
  refine ⟨(world.allocate object name).restore self sifted
    (insert (world.objs.length + 1)
      (world.heaps self).active_timers_), ?_, {
      invariant := ?_
      perm := ?_
      others := ?_
      deadlines := ?_
      ids := rfl
    }⟩
  · have lastIndex :
        decrement ((world.heaps self).heap_ ++
          [world.objs.length]).length =
            (world.heaps self).heap_.length := by
      rw [List.length_append, List.length_singleton,
        Slots.decrement_of_pos (by omega) (by omega)]
      omega
    simp only [addTimer, World.slots, expiresFirst_spec own, nextId,
      lastIndex, Option.bind_eq_bind, Option.bind_some]
    change (Slots.upHeap ((world.slots self).grow object) _).bind _ = _
    rw [siftedEq, Option.bind_some]
    rfl
  · apply allocated.restore
    · refine ⟨sift.linked, sift.ordered, ?_⟩
      intro id
      rw [Finset.mem_insert, own.active]
      constructor
      · rintro (rfl | ⟨timer, member, rfl⟩)
        · exact ⟨_, perm.mem_iff.mpr (List.mem_cons_self ..), rfl⟩
        · exact ⟨timer,
            perm.mem_iff.mpr (List.mem_cons_of_mem _ member), rfl⟩
      · rintro ⟨timer, member, rfl⟩
        rcases List.mem_cons.mp (perm.mem_iff.mp member) with
          isNew | old
        · exact .inl (by rw [isNew])
        · exact .inr ⟨timer, old, rfl⟩
    · intro timer member heap notSelf elsewhere
      rcases List.mem_cons.mp (perm.mem_iff.mp member) with
        isNew | old
      · exact newTimer heap (isNew ▸ elsewhere)
      · exact notSelf (invariant.apart elsewhere old)
    · exact sift.rearranged.unplaced
    · intro heap notSelf timer member
      apply sift.rearranged.frame
      intro inGrown
      rcases List.mem_append.mp inGrown with old | isNew
      · exact notSelf (invariant.apart member old)
      · exact newTimer heap (List.mem_singleton.mp isNew ▸ member)
  · rw [restore_heaps_self]
    exact perm
  · intro heap notSelf
    simp [World.restore, World.allocate, notSelf]
  · have sameDeadlines :=
      congrArg (List.map TimerObj.deadline_) sift.rearranged.unplaced
    simp only [List.map_map, Function.comp_def,
      TimerObj.unplaced] at sameDeadlines
    simpa [World.restore, Slots.grow, World.slots, object,
      TimerObj.construct] using sameDeadlines

/-- The exact deadline of a timer, given all deadlines by address. -/
def usecOf (deadlines : List Timestamp) (timer : TimerPtr) : Nat :=
  (deadlines[timer]?.map Timestamp.usec).getD 0

/-- The deadlines of all timers ever allocated, by address. -/
def World.deadlines (world : World heapCount) : List Timestamp :=
  world.objs.map TimerObj.deadline_

theorem RemovedFrom.deadlines
    {before after : World heapCount}
    {self : Fin heapCount}
    {timer : TimerPtr}
    (removed : RemovedFrom before self timer after) :
    after.deadlines = before.deadlines := by
  have same :=
    congrArg (List.map TimerObj.deadline_) removed.unplaced
  simpa [World.deadlines, Function.comp_def,
    TimerObj.unplaced] using same

namespace HeapInvariant

variable
  {world : World heapCount}
  {self : Fin heapCount}

/-- The key at a position is the deadline of the timer there. -/
theorem key_eq
    (index : Nat)
    {timer : TimerPtr}
    (stored : (world.heaps self).heap_[index]? = some timer) :
    (world.slots self).key index = usecOf world.deadlines timer := by
  simp [Slots.key, Slots.deadlineAt, Slots.timerAt, World.slots, usecOf,
    World.deadlines, stored, Function.comp_def]

/-- The front timer has a least deadline among the timers of its heap. -/
theorem front_least
    (invariant : HeapInvariant world.objs (world.heaps self))
    {front : TimerPtr}
    (atFront : (world.heaps self).heap_[0]? = some front)
    {timer : TimerPtr}
    (member : timer ∈ (world.heaps self).heap_) :
    usecOf world.deadlines front ≤ usecOf world.deadlines timer := by
  obtain ⟨index, stored⟩ := List.mem_iff_getElem?.mp member
  have inBounds := (List.getElem?_eq_some_iff.mp stored).1
  rw [← key_eq 0 atFront, ← key_eq index stored]
  exact invariant.ordered.root_le index inBounds

end HeapInvariant

/-- The effect of `GetExpiredTimers`, which returns `batch`. -/
structure ExpiredFrom
    (before : World heapCount)
    (target : Fin heapCount)
    (now : Timestamp)
    (batch : List TimerPtr)
    (after : World heapCount) : Prop where
  invariant :
    after.Invariant
  perm :
    (before.heaps target).heap_.Perm
      (batch ++ (after.heaps target).heap_)
  others :
    ∀ heap, heap ≠ target → after.heaps heap = before.heaps heap
  deadlines :
    after.deadlines = before.deadlines
  ids :
    after.ids = before.ids
  due :
    ∀ timer ∈ batch, usecOf before.deadlines timer ≤ now.usec
  sorted :
    batch.Pairwise fun earlier later =>
      usecOf before.deadlines earlier ≤ usecOf before.deadlines later
  notDue :
    ∀ timer ∈ (after.heaps target).heap_,
      now.usec < usecOf before.deadlines timer

/-- What the caller holds does not concern the heaps. -/
theorem World.Invariant.with_held
    {world : World heapCount}
    (invariant : world.Invariant)
    (held : Finset TimerPtr) :
    { world with held := held }.Invariant :=
  ⟨invariant.heaps, invariant.few, invariant.counter,
    invariant.numbered, invariant.apart, invariant.issued⟩

/-- Holding a timer does not concern the heaps. -/
theorem World.Invariant.hold
    {world : World heapCount}
    (invariant : world.Invariant)
    (timer : TimerPtr) :
    (world.hold timer).Invariant :=
  invariant.with_held _

/-- The front timer is due: it is returned before the rest of the batch. -/
theorem ExpiredFrom.cons
    {world shorter after : World heapCount}
    {self : Fin heapCount}
    {now : Timestamp}
    {front : TimerPtr}
    {batch : List TimerPtr}
    (invariant : world.Invariant)
    (atFront : (world.heaps self).heap_[0]? = some front)
    (due : usecOf world.deadlines front ≤ now.usec)
    (removed : RemovedFrom (world.hold front) self front shorter)
    (rest : ExpiredFrom shorter self now batch after) :
    ExpiredFrom world self now (front :: batch) after := by
  have sameDeadlines : shorter.deadlines = world.deadlines :=
    removed.deadlines
  have perm :
      (world.heaps self).heap_.Perm
        (front :: batch ++ (after.heaps self).heap_) :=
    removed.perm.trans (rest.perm.cons front)
  exact {
    invariant := rest.invariant
    perm := perm
    others := fun heap notSelf =>
      (rest.others heap notSelf).trans (removed.others heap notSelf)
    deadlines := rest.deadlines.trans sameDeadlines
    ids := rest.ids.trans removed.ids
    due := by
      intro timer member
      rcases List.mem_cons.mp member with isFront | later
      · rw [isFront]
        exact due
      · rw [← sameDeadlines]
        exact rest.due timer later
    sorted := by
      rw [List.pairwise_cons]
      constructor
      · intro timer later
        apply (invariant.heaps self).front_least atFront
        exact perm.mem_iff.mpr
          (List.mem_append_left _ (List.mem_cons_of_mem _ later))
      · rw [← sameDeadlines]
        exact rest.sorted
    notDue := by
      rw [← sameDeadlines]
      exact rest.notDue
  }

/-- An empty heap, or a front timer that is not due, ends the loop. -/
theorem ExpiredFrom.stop
    {world : World heapCount}
    {self : Fin heapCount}
    {now : Timestamp}
    (invariant : world.Invariant)
    (notDue :
      ∀ timer ∈ (world.heaps self).heap_,
        now.usec < usecOf world.deadlines timer) :
    ExpiredFrom world self now [] world where
  invariant :=
    invariant
  perm :=
    .refl _
  others _ _ :=
    rfl
  deadlines :=
    rfl
  ids :=
    rfl
  due _ member := by
    cases member
  sorted :=
    .nil
  notDue :=
    notDue

/-- The loop of `GetExpiredTimers` does not fault and returns a batch. -/
theorem collectExpired_spec
    {world : World heapCount}
    (invariant : world.Invariant)
    (self : Fin heapCount)
    (now : Timestamp)
    (expired : List TimerPtr) :
    ∃ batch after,
      collectExpired world self now expired =
          some (after, expired ++ batch) ∧
        ExpiredFrom world self now batch after := by
  induction size : (world.heaps self).heap_.length
      generalizing world expired with
  | zero =>
      have empty : (world.heaps self).heap_ = [] :=
        List.eq_nil_of_length_eq_zero size
      refine ⟨[], world, ?_, .stop invariant (by simp [empty])⟩
      rw [collectExpired]
      split
      · simp
      · next nonempty =>
          rw [empty] at nonempty
          cases nonempty
  | succ count inductionHypothesis =>
      obtain ⟨front, rest, shape⟩ :=
        List.exists_cons_of_length_eq_add_one size
      have atFront : (world.heaps self).heap_[0]? = some front := by
        simp [shape]
      have pending : front ∈ (world.heaps self).heap_ :=
        List.mem_of_getElem? atFront
      obtain ⟨object, stored, -⟩ :=
        (invariant.heaps self).linked atFront
      have deadline :
          usecOf world.deadlines front = object.deadline_.usec := by
        simp only [usecOf, World.deadlines, List.getElem?_map]
        rw [stored]
        rfl
      rw [collectExpired]
      split
      · next empty =>
          rw [shape] at empty
          cases empty
      · next timer others nonempty =>
          obtain ⟨rfl, -⟩ := List.cons.inj (shape.symm.trans nonempty)
          split
          · next missing =>
              rw [stored] at missing
              cases missing
          · next found =>
              obtain rfl := Option.some.inj (stored.symm.trans found)
              split
              · next due =>
                  have dueUsec :
                      usecOf world.deadlines front ≤ now.usec := by
                    rw [deadline]
                    exact Nat.le_of_not_lt
                      (mt Timestamp.lt_iff_usec_lt.mpr due)
                  obtain ⟨shorter, removedEq, removed⟩ :=
                    removeTimer_spec (invariant.hold front) pending
                  have shorterLength :=
                    removed.perm.length_eq
                  obtain ⟨batch, after, batchEq, effect⟩ :=
                    inductionHypothesis removed.invariant
                      (expired ++ [front])
                      (by
                        simp [World.hold, size] at shorterLength
                        omega)
                  refine ⟨front :: batch, after, ?_,
                    .cons invariant atFront dueUsec removed effect⟩
                  split
                  · next failed =>
                      rw [removedEq] at failed
                      cases failed
                  · next taken =>
                      obtain rfl :=
                        Option.some.inj (removedEq.symm.trans taken)
                      rw [batchEq]
                      simp
              · next notDue =>
                  refine ⟨[], world, by simp, .stop invariant ?_⟩
                  intro timer member
                  have least :=
                    (invariant.heaps self).front_least atFront member
                  have frontLater :=
                    Timestamp.lt_iff_usec_lt.mp (not_not.mp notDue)
                  omega

end CsPrimer.Timers
