import CsPrimer.Timers.PendingSet

namespace CsPrimer.Timers

open Library BinaryHeap

variable {heapCount : Nat} {swap : Timestamp.Swap}

/-!
# The timer that expires first

A program that waits for its timers asks two questions: whether the timer it
has just added expires before all others, so that its wake-up time has to be
reset, and when the next timer expires.  `AddTimer` answers the first one from
the old root alone, before the new timer rises to its position; `GetNextExpire`
answers the second one.
-/

/-- `GetNextExpire`; `front` is undefined on an empty vector. -/
def getNextExpire (slots : Slots) : Option Timestamp :=
  if slots.heap_ ≠ [] then
    some ⟨0⟩
  else
    slots.deadlineAt 0

section AddTimer

/--
`UpHeap` leaves the root where it is unless the rising timer has a strictly
smaller deadline.
-/
theorem Slots.upHeap_root
    {slots after : Slots}
    {index : Nat}
    (linked : slots.Linked)
    (word : slots.heap_.length ≤ 2 ^ 64)
    (inBounds : index < slots.heap_.length)
    (sifted : slots.upHeap index = some after) :
    after.heap_[0]? = slots.heap_[0]? ∨ slots.key index < slots.key 0 := by
  induction index using Nat.strongRecOn generalizing slots with
  | ind index inductionHypothesis =>
      rw [upHeap] at sifted
      by_cases positive : 0 < index
      · have parentBefore := parent_lt positive
        have parentInBounds := Nat.lt_trans parentBefore inBounds
        obtain ⟨own, ownAt, ownKey⟩ := linked.deadlineAt_of_lt inBounds
        obtain ⟨above, aboveAt, aboveKey⟩ :=
          linked.deadlineAt_of_lt parentInBounds
        simp only [positive, ↓reduceIte,
          decrement_half_eq_parent positive (by omega), ownAt, aboveAt,
          Option.bind_eq_bind, Option.bind_some, Option.pure_def] at sifted
        by_cases below : own < above
        · have keyBelow : slots.key index < slots.key (parent index) := by
            rw [← ownKey, ← aboveKey]
            exact Timestamp.lt_iff_usec_lt.mp below
          obtain ⟨swapped, swapEq, exchanged⟩ :=
            swapHeap_spec linked inBounds parentInBounds
              (Nat.ne_of_gt parentBefore)
          by_cases atRoot : parent index = 0
          · rw [atRoot] at keyBelow
            exact .inr keyBelow
          · simp only [below, not_true_eq_false, ↓reduceIte, swapEq,
              Option.bind_some] at sifted
            have notRoot : 0 ≠ index := Nat.ne_of_lt positive
            have kept :=
              inductionHypothesis (parent index) parentBefore
                exchanged.linked
                (by rw [exchanged.length]; exact word)
                (by rw [exchanged.length]; exact parentInBounds)
                sifted
            rwa [exchanged.other 0 notRoot (Ne.symm atRoot),
              exchanged.key, exchange_right,
              exchange_other _ notRoot (Ne.symm atRoot)] at kept
        · simp only [below, not_false_eq_true, ↓reduceIte,
            Option.some.injEq] at sifted
          exact .inl (by rw [sifted])
      · simp only [positive, ↓reduceIte, Option.some.injEq] at sifted
        exact .inl (by rw [sifted])

/-- The key of the appended timer is its deadline. -/
theorem Slots.grow_key_last (slots : Slots) (object : TimerObj) :
    (slots.grow object).key slots.heap_.length =
      object.deadline_.usec := by
  simp [key, deadlineAt, timerAt, grow]

/-- The new deadline is smaller than that of every pending timer. -/
def ExpiresBeforeAll
    (world : World heapCount)
    (self : Fin heapCount)
    (deadline : Timestamp) : Prop :=
  ∀ timer ∈ (world.heaps self).heap_,
    deadline.usec < usecOf world.deadlines timer

/-- What a caller of `AddTimer` may conclude from its result. -/
structure ReportsFirst
    (world after : World heapCount)
    (target : Fin heapCount)
    (deadline : Timestamp)
    (ret : Bool) : Prop where
  answer :
    ret = true ↔ ExpiresBeforeAll world target deadline
  atRoot :
    ExpiresBeforeAll world target deadline ↔
      (after.heaps target).heap_[0]? = some world.objs.length

variable
  {world after : World heapCount}
  {self : Fin heapCount}
  {deadline : Timestamp}

/-- It is enough to look at the root. -/
theorem expiresBeforeAll_iff
    (invariant : HeapInvariant world.objs (world.heaps self))
    (nonempty : (world.heaps self).heap_ ≠ []) :
    ExpiresBeforeAll world self deadline ↔
      deadline.usec < (world.slots self).key 0 := by
  obtain ⟨front, rest, shape⟩ := List.exists_cons_of_ne_nil nonempty
  have atFront : (world.heaps self).heap_[0]? = some front := by
    rw [shape]
    rfl
  rw [HeapInvariant.key_eq 0 atFront]
  constructor
  · intro before
    exact before front (List.mem_of_getElem? atFront)
  · intro before timer member
    exact Nat.lt_of_lt_of_le before
      (invariant.front_least atFront member)

/-- The vector `AddTimer` leaves is the one `UpHeap` has sifted. -/
theorem addTimer_sifts
    {interval : Timespan}
    {name : Nat}
    {ret : Bool}
    (invariant : world.Invariant)
    (room : world.objs.length + 1 < 2 ^ 64)
    (added :
      addTimer world self deadline interval name = some (after, ret)) :
    ∃ sifted,
      Slots.upHeap
          ((world.slots self).grow
            (.construct deadline interval (world.heaps self).heap_.length
              (world.objs.length + 1)))
          (world.heaps self).heap_.length = some sifted ∧
        (after.heaps self).heap_ = sifted.heap_ := by
  have few := (invariant.heaps self).heap_length_le
  have fresh : uniqueID world.counter = world.objs.length + 1 := by
    rw [uniqueID, invariant.counter]
    omega
  have lastIndex :
      decrement ((world.heaps self).heap_ ++ [world.objs.length]).length =
        (world.heaps self).heap_.length := by
    rw [List.length_append, List.length_singleton,
      Slots.decrement_of_pos (by omega) (by omega)]
    omega
  simp only [addTimer, fresh, lastIndex, Option.bind_eq_bind,
    Option.bind_eq_some_iff, Option.some.injEq, Prod.mk.injEq] at added
  obtain ⟨_, -, sifted, rose, rfl, -⟩ := added
  exact ⟨sifted, rose, by simp [restore_heaps_self]⟩

/-- The added timer reaches the root exactly if it expires before all. -/
theorem AddedTo.atRoot_iff
    {interval : Timespan}
    {name : Nat}
    {ret : Bool}
    (invariant : world.Invariant)
    (room : world.objs.length + 1 < 2 ^ 64)
    (added :
      addTimer world self deadline interval name = some (after, ret))
    (effect : AddedTo world self deadline name after) :
    ExpiresBeforeAll world self deadline ↔
      (after.heaps self).heap_[0]? = some world.objs.length := by
  have own := invariant.heaps self
  have deadlines : after.deadlines = world.deadlines ++ [deadline] :=
    effect.deadlines
  have old :
      ∀ timer ∈ (world.heaps self).heap_,
        usecOf after.deadlines timer = usecOf world.deadlines timer := by
    intro timer member
    have allocated : timer < world.deadlines.length := by
      simpa [World.deadlines] using own.allocated member
    unfold usecOf
    rw [deadlines, List.getElem?_append_left allocated]
  have new : usecOf after.deadlines world.objs.length = deadline.usec := by
    have isLast : world.objs.length = world.deadlines.length := by
      simp [World.deadlines]
    rw [deadlines, isLast]
    simp [usecOf]
  constructor
  · intro before
    have nonempty : (after.heaps self).heap_ ≠ [] := by
      intro empty
      simpa [empty] using effect.perm
    obtain ⟨front, rest, shape⟩ := List.exists_cons_of_ne_nil nonempty
    have atFront : (after.heaps self).heap_[0]? = some front := by
      rw [shape]
      rfl
    have least :=
      (effect.invariant.heaps self).front_least atFront
        (effect.perm.mem_iff.mpr List.mem_cons_self)
    rcases List.mem_cons.mp
        (effect.perm.mem_iff.mp (List.mem_of_getElem? atFront)) with
      isNew | isOld
    · rw [atFront, isNew]
    · rw [new, old front isOld] at least
      exact absurd (before front isOld) (Nat.not_lt_of_le least)
  · intro isRoot
    by_cases empty : (world.heaps self).heap_ = []
    · intro timer member
      rw [empty] at member
      cases member
    obtain ⟨sifted, rose, isSifted⟩ := addTimer_sifts invariant room added
    have few := own.heap_length_le
    have positive := List.length_pos_iff.mpr empty
    rw [expiresBeforeAll_iff own empty]
    rcases Slots.upHeap_root (own.grow_linked rfl)
        (by simp [Slots.grow]; omega) (by simp [Slots.grow]) rose with
      kept | smaller
    · -- The old root would be the new timer.
      have front : (world.heaps self).heap_[0]? = some world.objs.length := by
        rw [← isRoot, isSifted, kept]
        exact (List.getElem?_append_left positive).symm
      exact absurd (own.allocated (List.mem_of_getElem? front))
        (Nat.lt_irrefl _)
    · have risen : (world.heaps self).heap_.length =
          (Slots.mk world.objs (world.heaps self).heap_).heap_.length := rfl
      rw [own.grow_key positive, risen, Slots.grow_key_last] at smaller
      exact smaller

/--
`AddTimer` reports whether the new timer is the first one to expire exactly if
the heap was not empty: the first timer of all is not reported.
-/
theorem addTimer_reportsFirst_iff
    {trace : List (Call heapCount × Reply)}
    (reaches : (permittedProgram swap heapCount).Reaches trace world)
    (self : Fin heapCount)
    (deadline : Timestamp)
    (interval : Timespan)
    (name : Nat)
    (permitted :
      Permitted world (.addTimer self deadline interval name)) :
    ∃ after ret,
      addTimer world self deadline interval name = some (after, ret) ∧
        (ReportsFirst world after self deadline ret ↔
          (world.heaps self).heap_ ≠ []) := by
  obtain ⟨spec, -, related⟩ := Represents.of_reaches reaches
  have invariant := related.invariant
  obtain ⟨after, added, effect⟩ :=
    addTimer_spec invariant permitted self deadline interval name
  refine ⟨after, _, added, ?_⟩
  constructor
  · rintro ⟨answer, -⟩ empty
    have vacuous : ExpiresBeforeAll world self deadline := by
      intro timer member
      rw [empty] at member
      cases member
    simpa [empty] using answer.mpr vacuous
  · intro nonempty
    refine ⟨?_, effect.atRoot_iff invariant permitted added⟩
    rw [expiresBeforeAll_iff (invariant.heaps self) nonempty]
    simp [nonempty]

/-- The second timer of a heap is reported, as it expires before the first. -/
theorem addTimer_reportsFirst_iff_second :
    ∃ world after ret,
      addTimer (world : World 1) 0 ⟨30⟩ ⟨0⟩ 1 = some (after, ret) ∧
        ReportsFirst world after 0 ⟨30⟩ ret := by
  obtain ⟨trace, world, reaches, checked⟩ :=
    System.Reaches.exists_of_run?
      (by decide +kernel :
        ((permittedProgram Timestamp.exchange 1).run? .empty
            [.addTimer 0 ⟨50⟩ ⟨0⟩ 0]).any
          (fun outcome =>
            decide ((outcome.1.heaps 0).heap_ ≠ [] ∧
              Permitted outcome.1 (.addTimer 0 ⟨30⟩ ⟨0⟩ 1))) = true)
  obtain ⟨nonempty, permitted⟩ := of_decide_eq_true checked
  obtain ⟨after, ret, added, reported⟩ :=
    addTimer_reportsFirst_iff reaches 0 ⟨30⟩ ⟨0⟩ 1 permitted
  exact ⟨world, after, ret, added, reported.mpr nonempty⟩

/-- The first timer of a heap is at its root, and is not reported. -/
theorem addTimer_not_reportsFirst :
    ¬ ∀ (world : World 1) trace,
      (permittedProgram Timestamp.exchange 1).Reaches trace world →
      ∀ deadline interval name,
        Permitted world (.addTimer 0 deadline interval name) →
        ∃ after ret,
          addTimer world 0 deadline interval name = some (after, ret) ∧
            ReportsFirst world after 0 deadline ret := by
  intro always
  obtain ⟨after, ret, added, answer, -⟩ :=
    always .empty [] .initial ⟨30⟩ ⟨0⟩ 0 (by decide)
  have silent :
      (addTimer (.empty : World 1) 0 ⟨30⟩ ⟨0⟩ 0).map Prod.snd =
        some false := by
    decide +kernel
  rw [added, Option.map_some, Option.some.injEq] at silent
  have reported : ret = true :=
    answer.mpr (by simp [ExpiresBeforeAll, World.empty])
  rw [reported] at silent
  cases silent

end AddTimer

section GetNextExpire

/-- What `GetNextExpire` is to answer, and what a caller concludes from it. -/
structure NamesNextExpire
    (world : World heapCount)
    (target : Fin heapCount) : Prop where
  least :
    (world.heaps target).heap_ ≠ [] →
      ∃ next,
        getNextExpire (world.slots target) = some next ∧
          (∃ timer ∈ (world.heaps target).heap_,
            usecOf world.deadlines timer = next.usec) ∧
          ∀ timer ∈ (world.heaps target).heap_,
            next.usec ≤ usecOf world.deadlines timer
  idle :
    (world.heaps target).heap_ = [] →
      getNextExpire (world.slots target) = some ⟨0⟩
  expires :
    ∀ now, ∃ after expired,
      getExpiredTimers world target now = some (after, expired) ∧
        (expired ≠ [] ↔
          (world.heaps target).heap_ ≠ [] ∧
            ∃ next,
              getNextExpire (world.slots target) = some next ∧
                next.usec ≤ now.usec)

variable
  {world : World heapCount}
  {self : Fin heapCount}

/-- `GetExpiredTimers` returns something exactly if some timer is due. -/
theorem getExpiredTimers_ne_nil_iff
    (invariant : world.Invariant)
    (self : Fin heapCount)
    (now : Timestamp) :
    ∃ after expired,
      getExpiredTimers world self now = some (after, expired) ∧
        (expired ≠ [] ↔
          ∃ timer ∈ (world.heaps self).heap_,
            usecOf world.deadlines timer ≤ now.usec) := by
  obtain ⟨batch, after, returned, effect⟩ :=
    collectExpired_spec invariant self now []
  refine ⟨after, batch, returned, ?_⟩
  constructor
  · intro nonempty
    obtain ⟨timer, rest, rfl⟩ := List.exists_cons_of_ne_nil nonempty
    exact ⟨timer, effect.perm.mem_iff.mpr List.mem_cons_self,
      effect.due timer List.mem_cons_self⟩
  · rintro ⟨timer, member, due⟩ rfl
    have left := effect.perm.mem_iff.mp member
    exact absurd due (Nat.not_le_of_lt (effect.notDue timer left))

/--
`GetNextExpire` tests the heap the wrong way round: it names the next expiry
exactly if that happens to be `Timestamp(0)`.
-/
theorem getNextExpire_names_iff
    {trace : List (Call heapCount × Reply)}
    (reaches : (permittedProgram swap heapCount).Reaches trace world)
    (self : Fin heapCount) :
    NamesNextExpire world self ↔
      ∃ timer ∈ (world.heaps self).heap_,
        usecOf world.deadlines timer = 0 := by
  obtain ⟨spec, -, related⟩ := Represents.of_reaches reaches
  have invariant := related.invariant
  have answered :
      (world.heaps self).heap_ ≠ [] →
        getNextExpire (world.slots self) = some ⟨0⟩ := by
    intro nonempty
    exact if_pos nonempty
  have zero : (⟨0⟩ : Timestamp).usec = 0 := rfl
  constructor
  · intro names
    have nonempty : (world.heaps self).heap_ ≠ [] := by
      intro empty
      have idle := names.idle empty
      simp [getNextExpire, World.slots, empty, Slots.deadlineAt,
        Slots.timerAt] at idle
    obtain ⟨next, isNext, ⟨timer, member, same⟩, -⟩ :=
      names.least nonempty
    rw [answered nonempty, Option.some.injEq] at isNext
    rw [← isNext, zero] at same
    exact ⟨timer, member, same⟩
  · rintro ⟨timer, member, isZero⟩
    have nonempty : (world.heaps self).heap_ ≠ [] :=
      List.ne_nil_of_mem member
    constructor
    · intro _
      exact ⟨⟨0⟩, answered nonempty, ⟨timer, member, isZero⟩,
        fun _ _ => Nat.zero_le _⟩
    · intro empty
      exact absurd empty nonempty
    · intro now
      obtain ⟨after, expired, returned, someDue⟩ :=
        getExpiredTimers_ne_nil_iff invariant self now
      refine ⟨after, expired, returned, ?_⟩
      rw [someDue]
      constructor
      · intro _
        exact ⟨nonempty, ⟨0⟩, answered nonempty, Nat.zero_le _⟩
      · intro _
        exact ⟨timer, member, isZero ▸ Nat.zero_le _⟩

/-- A heap whose next timer expires at the epoch. -/
theorem getNextExpire_names_iff_epoch :
    ∃ world : World 1,
      (world.heaps 0).heap_.length = 2 ∧ NamesNextExpire world 0 := by
  obtain ⟨trace, world, reaches, checked⟩ :=
    System.Reaches.exists_of_run?
      (by decide +kernel :
        ((permittedProgram Timestamp.exchange 1).run? .empty
            [.addTimer 0 ⟨50⟩ ⟨0⟩ 0, .addTimer 0 ⟨0⟩ ⟨0⟩ 1]).any
          (fun outcome =>
            decide ((outcome.1.heaps 0).heap_.length = 2 ∧
              ∃ timer ∈ (outcome.1.heaps 0).heap_,
                usecOf outcome.1.deadlines timer = 0)) = true)
  obtain ⟨two, epoch⟩ := of_decide_eq_true checked
  exact ⟨world, two, (getNextExpire_names_iff reaches 0).mpr epoch⟩

/-- With one timer for the time 50 the answer is 0. -/
theorem getNextExpire_not_names :
    ¬ ∀ (world : World 1) trace,
      (permittedProgram Timestamp.exchange 1).Reaches trace world →
      NamesNextExpire world 0 := by
  intro always
  obtain ⟨trace, world, reaches, checked⟩ :=
    System.Reaches.exists_of_run?
      (by decide +kernel :
        ((permittedProgram Timestamp.exchange 1).run? .empty
            [.addTimer 0 ⟨50⟩ ⟨0⟩ 0]).any
          (fun outcome =>
            decide ((outcome.1.heaps 0).heap_ ≠ [] ∧
              getNextExpire (outcome.1.slots 0) = some ⟨0⟩ ∧
              ∀ timer ∈ (outcome.1.heaps 0).heap_,
                usecOf outcome.1.deadlines timer = 50)) = true)
  obtain ⟨nonempty, answered, fifty⟩ := of_decide_eq_true checked
  obtain ⟨next, isNext, ⟨timer, member, same⟩, -⟩ :=
    (always world trace reaches).least nonempty
  rw [answered, Option.some.injEq] at isNext
  rw [fifty timer member, ← isNext] at same
  cases same

end GetNextExpire

end CsPrimer.Timers
