import CsPrimer.Timers.PendingSet

namespace CsPrimer.Timers

open Library BinaryHeap

variable {heapCount : Nat} {swap : Timestamp.Swap}

/-!
# Restarting a pending timer

`Restart` is public and a pending timer can be reached through its weak
pointer, so a program can change a deadline the heap is ordered by.  The heap
is not told.  A one-shot timer gets the deadline 0, and the heap stays ordered
exactly if that is not earlier than the parent's; for a periodic timer `Restart`
uses a value that `AddTimespan` never returns, and is undefined.
-/

/--
The calls of a program: fewer than `2 ^ 64` timers are ever created, and
`Restart` is applied to existing timers, pending or not.
-/
def Sensible (world : World heapCount) : Call heapCount → Prop
  | .addTimer .. => world.objs.length + 1 < 2 ^ 64
  | .restart timer _ => timer < world.objs.length
  | _ => True

instance (world : World heapCount) :
    DecidablePred (Sensible world)
  | .addTimer .. =>
      inferInstanceAs (Decidable (world.objs.length + 1 < 2 ^ 64))
  | .restart timer _ =>
      inferInstanceAs (Decidable (timer < world.objs.length))
  | .cancelTimer .. => isTrue trivial
  | .getExpiredTimers .. => isTrue trivial
  | .copyID .. => isTrue trivial
  | .releaseTimer _ => isTrue trivial

/-- Every program whose calls are all sensible. -/
def sensibleProgram (swap : Timestamp.Swap) (heapCount : Nat) :
    System (World heapCount) (Call heapCount)
      (Call heapCount × Reply) :=
  (program swap heapCount).guarded Sensible

/-- A timer at the root, or below one whose deadline is 0. -/
abbrev Slots.RestartFits (slots : Slots) (object : TimerObj) : Prop :=
  0 < object.heap_index_ → slots.key ((object.heap_index_ - 1) / 2) = 0

/--
The restarted timer is a one-shot timer, and wherever it is pending the
deadline 0 fits.
-/
def RestartFits (world : World heapCount) : Call heapCount → Prop
  | .restart timer _ =>
      ∀ object ∈ world.objs[timer]?,
        object.periodic_ = false ∧
          ∀ heap, timer ∈ (world.heaps heap).heap_ →
            (world.slots heap).RestartFits object
  | _ => True

instance (world : World heapCount) :
    DecidablePred (RestartFits world)
  | .restart timer _ =>
      inferInstanceAs
        (Decidable
          (∀ object ∈ world.objs[timer]?,
            object.periodic_ = false ∧
              ∀ heap, timer ∈ (world.heaps heap).heap_ →
                (world.slots heap).RestartFits object))
  | .addTimer .. => isTrue trivial
  | .cancelTimer .. => isTrue trivial
  | .getExpiredTimers .. => isTrue trivial
  | .copyID .. => isTrue trivial
  | .releaseTimer _ => isTrue trivial

/-- Every heap is in order. -/
def World.InOrder (world : World heapCount) : Prop :=
  ∀ heap, (world.slots heap).HeapOrdered

/-- The deadline 0 fits exactly if the restart does. -/
theorem Slots.restartFits_iff
    {slots : Slots}
    {object : TimerObj} :
    slots.RestartFits object ↔
      Fits slots.key slots.heap_.length object.heap_index_ 0 := by
  constructor
  · intro above
    refine ⟨fun positive => ?_, fun _ _ _ _ => Nat.zero_le _⟩
    exact Nat.le_of_eq (above positive)
  · rintro ⟨above, -⟩ positive
    exact Nat.le_zero.mp (above positive)

/-- Changing one timer of the vector changes the key at its position. -/
theorem Slots.Linked.key_set
    {objs : List TimerObj}
    {heap_ : List TimerPtr}
    {index : Nat}
    {timer : TimerPtr}
    (linked : (Slots.mk objs heap_).Linked)
    (located : heap_[index]? = some timer)
    (changed : TimerObj) :
    (Slots.mk (objs.set timer changed) heap_).key =
      Function.update (Slots.mk objs heap_).key index
        changed.deadline_.usec := by
  obtain ⟨object, stored, -⟩ := linked located
  have allocated : timer < objs.length :=
    (List.getElem?_eq_some_iff.mp stored).1
  funext other
  by_cases isIndex : other = index
  · subst isIndex
    simp [Slots.key, Slots.deadlineAt, Slots.timerAt, located, allocated]
  · rw [Function.update_of_ne isIndex]
    unfold Slots.key Slots.deadlineAt Slots.timerAt
    cases elsewhere : heap_[other]? with
    | none =>
        rfl
    | some pending =>
        have different : timer ≠ pending := by
          rintro rfl
          exact isIndex (linked.position_unique elsewhere located)
        simp only [Option.bind_some, List.getElem?_set_ne different]

/-- A timer object behind `deadline_ = Timestamp(0)`. -/
def TimerObj.reset (object : TimerObj) : TimerObj :=
  { object with deadline_ := ⟨0⟩ }

/-- Behind `Restart` a one-shot timer is reset. -/
theorem TimerObj.restart_eq
    (swaps : ∀ this other, swap this other = (other, this))
    (object : TimerObj)
    (now : Timestamp) :
    object.restart swap now =
      if object.periodic_ then none else some object.reset := by
  simp [restart, reset, Timestamp.assign, Timestamp.addTimespanReturned, swaps]

/-- The world behind `Restart`. -/
def World.restarted
    (world : World heapCount)
    (timer : TimerPtr)
    (object : TimerObj) : World heapCount :=
  { world with objs := world.objs.set timer object.reset }

namespace World.Invariant

variable
  {world : World heapCount}
  {timer : TimerPtr}
  {object : TimerObj}

/-- A heap is in order after `Restart` exactly if the new deadline fits. -/
theorem restarted_ordered_iff
    (invariant : world.Invariant)
    (stored : world.objs[timer]? = some object)
    (heap : Fin heapCount) :
    ((world.restarted timer object).slots heap).HeapOrdered ↔
      (timer ∈ (world.heaps heap).heap_ →
        (world.slots heap).RestartFits object) := by
  have own := invariant.heaps heap
  by_cases pending : timer ∈ (world.heaps heap).heap_
  · obtain ⟨index, located⟩ := List.mem_iff_getElem?.mp pending
    obtain ⟨same, storedSame, rfl⟩ := own.linked located
    obtain rfl := Option.some.inj (stored.symm.trans storedSame)
    simp only [pending, forall_const]
    rw [Slots.restartFits_iff]
    change
      Ordered
          (Slots.mk (world.objs.set timer object.reset)
            (world.heaps heap).heap_).key _ ↔ _
    rw [Slots.Linked.key_set own.linked located]
    exact own.ordered.update_iff (List.getElem?_eq_some_iff.mp located).1
  · constructor
    · intro _ isPending
      exact absurd isPending pending
    · intro _
      apply own.ordered.congr
      intro index inBounds
      have present := List.getElem?_eq_getElem inBounds
      have different : timer ≠ (world.heaps heap).heap_[index] := by
        rintro rfl
        exact pending (List.getElem_mem inBounds)
      simp only [Slots.key, Slots.deadlineAt, Slots.timerAt, World.slots,
        restarted, present, Option.bind_some,
        List.getElem?_set_ne different]

/-- As long as the heaps are in order `Restart` keeps the invariant. -/
theorem restarted
    (invariant : world.Invariant)
    (stored : world.objs[timer]? = some object)
    (ordered : (world.restarted timer object).InOrder) :
    (world.restarted timer object).Invariant := by
  have allocated : timer < world.objs.length :=
    (List.getElem?_eq_some_iff.mp stored).1
  -- Every timer keeps its position and its identifier.
  have kept :
      ∀ (other : TimerPtr) (before : TimerObj),
        world.objs[other]? = some before →
        ∃ after : TimerObj,
          (world.objs.set timer object.reset)[other]? = some after ∧
            after.heap_index_ = before.heap_index_ ∧
            after.id_ = before.id_ := by
    intro other before found
    by_cases isTimer : other = timer
    · subst isTimer
      obtain rfl : object = before :=
        Option.some.inj (stored.symm.trans found)
      exact ⟨_, List.getElem?_set_self allocated, rfl, rfl⟩
    · exact ⟨before,
        (List.getElem?_set_ne (Ne.symm isTimer)).trans found, rfl, rfl⟩
  constructor
  · intro heap
    refine ⟨?_, ordered heap, (invariant.heaps heap).active⟩
    intro index other located
    obtain ⟨before, found, position⟩ :=
      (invariant.heaps heap).linked located
    obtain ⟨after, foundAfter, same, -⟩ := kept other before found
    exact ⟨after, foundAfter, same.trans position⟩
  · simpa [World.restarted] using invariant.few
  · simpa [World.restarted] using invariant.counter
  · intro other after found
    have inBounds : other < world.objs.length := by
      simpa [World.restarted] using
        (List.getElem?_eq_some_iff.mp found).1
    obtain ⟨same, foundAfter, -, id⟩ :=
      kept other _ (List.getElem?_eq_getElem inBounds)
    obtain rfl : same = after :=
      Option.some.inj (foundAfter.symm.trans found)
    rw [id]
    exact invariant.numbered (List.getElem?_eq_getElem inBounds)
  · exact invariant.apart
  · simpa [World.restarted] using invariant.issued

end World.Invariant

/-- `Restart` of a periodic timer is undefined. -/
theorem invoke_restart_of_periodic
    {world : World heapCount}
    (swaps : ∀ this other, swap this other = (other, this))
    {timer : TimerPtr}
    {object : TimerObj}
    (stored : world.objs[timer]? = some object)
    (isPeriodic : object.periodic_ = true)
    (now : Timestamp) :
    invoke swap world (.restart timer now) = none := by
  simp [invoke, restartTimer, stored, object.restart_eq swaps, isPeriodic]

/-- `Restart` resets a one-shot timer. -/
theorem invoke_restart_of_oneShot
    {world : World heapCount}
    (swaps : ∀ this other, swap this other = (other, this))
    {timer : TimerPtr}
    {object : TimerObj}
    (stored : world.objs[timer]? = some object)
    (oneShot : object.periodic_ = false)
    (now : Timestamp) :
    invoke swap world (.restart timer now) =
      some (world.restarted timer object, .done) := by
  simp [invoke, restartTimer, stored, object.restart_eq swaps, oneShot,
    World.restarted]

/-- A call that returns and leaves the heaps in order. -/
def LeavesInOrder
    (swap : Timestamp.Swap)
    (world : World heapCount)
    (call : Call heapCount) : Prop :=
  ∃ after reply,
    invoke swap world call = some (after, reply) ∧ after.InOrder

/-- `Restart` leaves a world in order exactly if it fits. -/
theorem World.Invariant.restart
    {world : World heapCount}
    (swaps : ∀ this other, swap this other = (other, this))
    (invariant : world.Invariant)
    {timer : TimerPtr}
    {object : TimerObj}
    (stored : world.objs[timer]? = some object)
    (now : Timestamp) :
    (LeavesInOrder swap world (.restart timer now) ↔
        RestartFits world (.restart timer now)) ∧
      ∀ after reply,
        invoke swap world (.restart timer now) = some (after, reply) →
        after.InOrder → after.Invariant := by
  have fits :
      RestartFits world (.restart timer now) ↔
        object.periodic_ = false ∧
          ∀ heap, timer ∈ (world.heaps heap).heap_ →
            (world.slots heap).RestartFits object := by
    simp only [RestartFits, stored, Option.mem_def, Option.some.injEq,
      forall_eq']
  have inOrder :
      (world.restarted timer object).InOrder ↔
        ∀ heap, timer ∈ (world.heaps heap).heap_ →
          (world.slots heap).RestartFits object :=
    forall_congr' (invariant.restarted_ordered_iff stored)
  rw [fits, ← inOrder]
  cases isPeriodic : object.periodic_ with
  | true =>
      have isUndefined :=
        invoke_restart_of_periodic swaps stored isPeriodic now
      simp [LeavesInOrder, isUndefined]
  | false =>
      have isInvoked :=
        invoke_restart_of_oneShot swaps stored isPeriodic now
      simpa [LeavesInOrder, isInvoked] using invariant.restarted stored

/-- Of all calls on a world in order only `Restart` can disorder it. -/
theorem World.Invariant.call
    {world : World heapCount}
    (swaps : ∀ this other, swap this other = (other, this))
    (invariant : world.Invariant)
    {call : Call heapCount}
    (sensible : Sensible world call) :
    (LeavesInOrder swap world call ↔ RestartFits world call) ∧
      ∀ after reply, invoke swap world call = some (after, reply) →
        after.InOrder → after.Invariant := by
  have kept :
      ∀ {next : World heapCount} {reply : Reply}, next.Invariant →
        invoke swap world call = some (next, reply) →
        (LeavesInOrder swap world call ↔ True) ∧
          ∀ after reply, invoke swap world call = some (after, reply) →
            after.InOrder → after.Invariant := by
    intro next reply isInvariant invoked
    constructor
    · exact iff_true_intro
        ⟨next, reply, invoked, fun heap => (isInvariant.heaps heap).ordered⟩
    · intro after reply' invoked' _
      have same := Option.some.inj (invoked.symm.trans invoked')
      exact (Prod.mk.inj same).1 ▸ isInvariant
  cases call with
  | addTimer target deadline interval name =>
      obtain ⟨next, added, effect⟩ :=
        addTimer_spec invariant sensible target deadline interval name
      exact kept effect.invariant (by simp [invoke, added]; rfl)
  | cancelTimer target name =>
      by_cases named :
          ∃ timer ∈ (world.heaps target).heap_,
            (world.ids name).timer_ = some timer
      · obtain ⟨timer, pending, isNamed⟩ := named
        obtain ⟨removed, cancelled, effect⟩ :=
          cancelTimer_spec invariant pending isNamed
        exact kept (effect.invariant.update_ids name (.inl rfl))
          (by simp [invoke, cancelled]; rfl)
      · have idle : cancelTimer world target name = some world :=
          cancelTimer_idle invariant fun timer member isNamed =>
            named ⟨timer, member, isNamed⟩
        exact kept invariant (by simp [invoke, idle]; rfl)
  | getExpiredTimers target now =>
      obtain ⟨batch, next, returned, effect⟩ :=
        collectExpired_spec invariant target now []
      exact kept effect.invariant
        (by simp [invoke, getExpiredTimers, returned]; rfl)
  | copyID target source =>
      exact kept (invariant.update_ids target (invariant.issued source)) rfl
  | releaseTimer timer =>
      exact kept (invariant.with_held _) rfl
  | restart timer now =>
      exact invariant.restart swaps (List.getElem?_eq_getElem sensible) now

/-- As long as every `Restart` fits, the invariant holds. -/
theorem World.Invariant.of_fitting
    {trace : List (Call heapCount × Reply)}
    {world : World heapCount}
    (swaps : ∀ this other, swap this other = (other, this))
    (reaches :
      ((sensibleProgram swap heapCount).guarded RestartFits).Reaches trace
        world) :
    world.Invariant := by
  apply reaches.invariant World.Invariant.empty
  intro trace events world after call invariant taken
  obtain ⟨fits, moved⟩ := System.guarded_step?_eq_some.mp taken
  obtain ⟨sensible, ran⟩ := System.guarded_step?_eq_some.mp moved
  obtain ⟨⟨next, reply⟩, invoked, same⟩ := Option.map_eq_some_iff.mp ran
  obtain ⟨rfl, -⟩ := Prod.mk.inj same
  obtain ⟨inOrder, kept⟩ := invariant.call swaps sensible
  obtain ⟨other, otherReply, otherInvoked, ordered⟩ := inOrder.mpr fits
  have isSame := Option.some.inj (otherInvoked.symm.trans invoked)
  obtain ⟨rfl, rfl⟩ := Prod.mk.inj isSame
  exact kept _ _ invoked ordered

/-- The pending timers that are due are returned. -/
def ReturnsAllDue
    (world : World heapCount)
    (target : Fin heapCount)
    (now : Timestamp) : Prop :=
  ∃ after expired,
    getExpiredTimers world target now = some (after, expired) ∧
      ∀ timer ∈ (world.heaps target).heap_,
        usecOf world.deadlines timer ≤ now.usec → timer ∈ expired

/--
Timers are restarted while they are pending.  In a run in which every
`Restart` fits, the heaps are in order and `GetExpiredTimers` returns all
pending timers that are due; a call on such a world returns and leaves the
heaps in order exactly if it is not a `Restart` that does not fit.
-/
theorem timerHeap_inOrder_iff_restartFits
    {trace : List (Call heapCount × Reply)}
    {world : World heapCount}
    (swaps : ∀ this other, swap this other = (other, this))
    (reaches :
      ((sensibleProgram swap heapCount).guarded RestartFits).Reaches trace
        world) :
    world.InOrder ∧
      (∀ target now, ReturnsAllDue world target now) ∧
      ∀ call, Sensible world call →
        (LeavesInOrder swap world call ↔ RestartFits world call) := by
  have invariant := World.Invariant.of_fitting swaps reaches
  refine ⟨fun heap => (invariant.heaps heap).ordered, ?_, ?_⟩
  · intro target now
    obtain ⟨batch, after, returned, effect⟩ :=
      collectExpired_spec invariant target now []
    refine ⟨after, batch, returned, fun timer member due => ?_⟩
    rcases List.mem_append.mp (effect.perm.mem_iff.mp member) with
      isReturned | left
    · exact isReturned
    · exact absurd due (Nat.not_le_of_lt (effect.notDue timer left))
  · intro call sensible
    exact (invariant.call swaps sensible).1

/-- Two one-shot timers are restarted, the first one first. -/
theorem timerHeap_inOrder_iff_restartFits_fromTheRoot :
    ∃ world : World 1,
      ((world.heaps 0).heap_ = [0, 1, 2] ∧ usecOf world.deadlines 1 = 0) ∧
        world.InOrder ∧ ∀ now, ReturnsAllDue world 0 now := by
  obtain ⟨trace, world, reaches, checked⟩ :=
    System.Reaches.exists_of_run?
      (by decide +kernel :
        (((sensibleProgram Timestamp.exchange 1).guarded RestartFits).run?
            .empty
            [.addTimer 0 ⟨10⟩ ⟨0⟩ 0, .addTimer 0 ⟨20⟩ ⟨0⟩ 1,
              .addTimer 0 ⟨30⟩ ⟨5⟩ 2, .restart 0 ⟨60⟩,
              .restart 1 ⟨60⟩]).any
          (fun outcome =>
            decide ((outcome.1.heaps 0).heap_ = [0, 1, 2] ∧
              usecOf outcome.1.deadlines 1 = 0)) = true)
  obtain ⟨inOrder, returned, -⟩ :=
    timerHeap_inOrder_iff_restartFits (fun _ _ => rfl) reaches
  exact ⟨world, of_decide_eq_true checked, inOrder, returned 0⟩

/-- A one-shot timer is restarted below another and hidden by it. -/
theorem restart_disorders :
    ¬ ∀ (world : World 1) trace,
      (permittedProgram Timestamp.exchange 1).Reaches trace world →
      ∀ name timer now,
        world.lock (world.ids name).timer_ = some timer →
        timer ∈ (world.heaps 0).heap_ →
        ∃ after,
          restartTimer Timestamp.exchange world timer now = some after ∧
            after.InOrder ∧ ∀ later, ReturnsAllDue after 0 later := by
  intro always
  obtain ⟨trace, world, reaches, checked⟩ :=
    System.Reaches.exists_of_run?
      (by decide +kernel :
        ((permittedProgram Timestamp.exchange 1).run? .empty
            [.addTimer 0 ⟨10⟩ ⟨0⟩ 0, .addTimer 0 ⟨20⟩ ⟨0⟩ 1]).any
          (fun outcome =>
            decide (outcome.1.lock (outcome.1.ids 1).timer_ = some 1 ∧
              1 ∈ (outcome.1.heaps 0).heap_) &&
            (restartTimer Timestamp.exchange outcome.1 1 ⟨50⟩).all
              fun after =>
                decide (
                  (getExpiredTimers after 0 ⟨5⟩).map Prod.snd = some [] ∧
                    1 ∈ (after.heaps 0).heap_ ∧
                    usecOf after.deadlines 1 = 0)) = true)
  rw [Bool.and_eq_true] at checked
  obtain ⟨locked, pending⟩ := of_decide_eq_true checked.1
  obtain ⟨after, restarted, -, returned⟩ :=
    always world trace reaches 1 1 ⟨50⟩ locked pending
  obtain ⟨final, expired, isExpired, all⟩ := returned ⟨5⟩
  have missed := checked.2
  simp only [restarted, Option.all_some, decide_eq_true_eq, isExpired,
    Option.map_some, Option.some.injEq] at missed
  obtain ⟨rfl, hidden, isZero⟩ := missed
  exact List.not_mem_nil (all 1 hidden (isZero ▸ Nat.zero_le _))

end CsPrimer.Timers
