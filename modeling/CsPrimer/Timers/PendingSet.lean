import CsPrimer.Timers.Invariant

namespace CsPrimer.Timers

open Library BinaryHeap

variable {heapCount : Nat} {swap : Timestamp.Swap}

/-!
# Timer heaps refine sets of pending timers

The abstract model knows nothing of vectors, positions or weak pointers: a
heap is the set of timers that were added to it and neither cancelled nor
returned since, and an identifier is the timer it names, if any.  Timers are
numbered in the order of their creation, which is also their address in the
concrete world.
-/

/-- Sets of pending timers, with the deadline each timer was created with. -/
structure PendingSet (heapCount : Nat) where
  deadlines : List Timestamp
  pending : Fin heapCount → Finset Nat
  names : Nat → Option Nat

namespace PendingSet

/-- No timer was ever created. -/
def initial : PendingSet heapCount where
  deadlines :=
    []
  pending _ :=
    ∅
  names _ :=
    none

/-- The timer `name` names, if it is pending in the heap `target`. -/
def Cancels
    (spec : PendingSet heapCount)
    (target : Fin heapCount)
    (name timer : Nat) : Prop :=
  spec.names name = some timer ∧ timer ∈ spec.pending target

/-- What each call does to the sets of pending timers. -/
def next (spec : PendingSet heapCount) :
    Call heapCount → PendingSet heapCount
  | .addTimer target deadline _ name =>
      { deadlines := spec.deadlines ++ [deadline]
        pending :=
          Function.update spec.pending target
            (insert spec.deadlines.length (spec.pending target))
        names :=
          Function.update spec.names name
            (some spec.deadlines.length) }
  | .cancelTimer target name =>
      match spec.names name with
      | none => spec
      | some timer =>
          if timer ∈ spec.pending target then
            { spec with
              pending :=
                Function.update spec.pending target
                  ((spec.pending target).erase timer)
              names := Function.update spec.names name none }
          else
            spec
  | .getExpiredTimers target now =>
      { spec with
        pending :=
          Function.update spec.pending target
            ((spec.pending target).filter fun timer =>
              now.usec < usecOf spec.deadlines timer) }
  | .copyID target source =>
      { spec with
        names :=
          Function.update spec.names target (spec.names source) }
  | .releaseTimer _ => spec
  | .restart _ _ => spec

/--
What each call may return: `GetExpiredTimers` returns exactly the pending
timers that are due, each once, by non-decreasing deadline.
-/
def Answers (spec : PendingSet heapCount) :
    Call heapCount → Reply → Prop
  | .addTimer .., .added _ => True
  | .getExpiredTimers target now, .expired timers =>
      timers.Nodup ∧
        (∀ timer, timer ∈ timers ↔
          timer ∈ spec.pending target ∧
            usecOf spec.deadlines timer ≤ now.usec) ∧
        timers.Pairwise fun earlier later =>
          usecOf spec.deadlines earlier ≤ usecOf spec.deadlines later
  | .cancelTimer .., .done => True
  | .copyID .., .done => True
  | .releaseTimer _, .done => True
  | .restart .., .done => True
  | _, _ => False

/-- The histories of calls and replies the abstract model allows. -/
inductive Accepts :
    List (Call heapCount × Reply) → PendingSet heapCount → Prop where
  | initial :
      Accepts [] .initial
  | call
      {trace : List (Call heapCount × Reply)}
      {spec : PendingSet heapCount}
      {call : Call heapCount}
      {reply : Reply}
      (earlier : Accepts trace spec)
      (answered : spec.Answers call reply) :
      Accepts (trace ++ [(call, reply)]) (spec.next call)

end PendingSet

/--
The calls a program may make: fewer than `2 ^ 64` timers are ever created, and
`Restart` is only applied to an existing timer that is in no heap, and not to a
periodic one, for which it is undefined.
-/
def Permitted (world : World heapCount) : Call heapCount → Prop
  | .addTimer .. => world.objs.length + 1 < 2 ^ 64
  | .restart timer _ =>
      (∃ object ∈ world.objs[timer]?, object.periodic_ = false) ∧
        ∀ heap, timer ∉ (world.heaps heap).heap_
  | _ => True

instance (world : World heapCount) :
    DecidablePred (Permitted world)
  | .addTimer .. =>
      inferInstanceAs (Decidable (world.objs.length + 1 < 2 ^ 64))
  | .restart timer _ =>
      inferInstanceAs
        (Decidable
          ((∃ object ∈ world.objs[timer]?, object.periodic_ = false) ∧
            ∀ heap, timer ∉ (world.heaps heap).heap_))
  | .cancelTimer .. => isTrue trivial
  | .getExpiredTimers .. => isTrue trivial
  | .copyID .. => isTrue trivial
  | .releaseTimer _ => isTrue trivial

/-- Every program whose calls are all permitted. -/
def permittedProgram (swap : Timestamp.Swap) (heapCount : Nat) :
    System (World heapCount) (Call heapCount)
      (Call heapCount × Reply) :=
  (program swap heapCount).guarded Permitted

/-- The concrete world represents the abstract sets of pending timers. -/
structure Represents
    (world : World heapCount)
    (spec : PendingSet heapCount) : Prop where
  invariant :
    world.Invariant
  created :
    spec.deadlines.length = world.objs.length
  pending :
    ∀ heap timer, timer ∈ spec.pending heap ↔
      timer ∈ (world.heaps heap).heap_
  deadlines :
    ∀ heap, ∀ timer ∈ (world.heaps heap).heap_,
      usecOf world.deadlines timer = usecOf spec.deadlines timer
  names :
    ∀ name, (world.ids name).timer_ = spec.names name

namespace Represents

/-- The empty world represents empty sets. -/
theorem empty :
    Represents (.empty : World heapCount) .initial where
  invariant :=
    .empty
  created :=
    rfl
  pending := by
    simp [PendingSet.initial, World.empty]
  deadlines := by
    simp [World.empty]
  names _ :=
    rfl

variable
  {world : World heapCount}
  {spec : PendingSet heapCount}

/-- A call is simulated when it runs, answers correctly and stays related. -/
def Simulated
    (swap : Timestamp.Swap)
    (world : World heapCount)
    (spec : PendingSet heapCount)
    (call : Call heapCount) : Prop :=
  ∃ after reply,
    invoke swap world call = some (after, reply) ∧
      spec.Answers call reply ∧
      Represents after (spec.next call)

/-- `AddTimer` inserts the next timer into the set of its heap. -/
theorem addTimer
    (related : Represents world spec)
    (room : world.objs.length + 1 < 2 ^ 64)
    (target : Fin heapCount)
    (deadline : Timestamp)
    (interval : Timespan)
    (name : Nat) :
    Simulated swap world spec
      (.addTimer target deadline interval name) := by
  obtain ⟨after, addedEq, added⟩ :=
    addTimer_spec related.invariant room target deadline interval name
  have deadlinesShape :
      after.deadlines = world.deadlines ++ [deadline] :=
    added.deadlines
  have worldLength :
      world.deadlines.length = spec.deadlines.length := by
    rw [related.created]
    simp [World.deadlines]
  have lengthEq : after.objs.length = world.objs.length + 1 := by
    simpa using congrArg List.length added.deadlines
  have newDeadline :
      usecOf after.deadlines world.objs.length =
        usecOf (spec.deadlines ++ [deadline]) world.objs.length := by
    rw [deadlinesShape, ← related.created]
    simp [usecOf, ← worldLength]
  have oldDeadline :
      ∀ heap, ∀ timer ∈ (world.heaps heap).heap_,
        usecOf after.deadlines timer =
          usecOf (spec.deadlines ++ [deadline]) timer := by
    intro heap timer member
    have old := (related.invariant.heaps heap).allocated member
    have same := related.deadlines heap timer member
    rw [deadlinesShape]
    unfold usecOf at same ⊢
    rw [List.getElem?_append_left (by rw [worldLength, related.created]; exact old),
      List.getElem?_append_left (by rw [related.created]; exact old)]
    exact same
  refine ⟨after, .added _, by rw [invoke, addedEq]; rfl, trivial, {
    invariant := added.invariant
    created := ?_
    pending := ?_
    deadlines := ?_
    names := ?_
  }⟩
  · simp [PendingSet.next, related.created, lengthEq]
  · intro heap timer
    by_cases isTarget : heap = target
    · subst isTarget
      simp only [PendingSet.next, Function.update_self,
        Finset.mem_insert, related.pending, related.created,
        added.perm.mem_iff, List.mem_cons]
    · simp only [PendingSet.next, ne_eq, isTarget, not_false_eq_true,
        Function.update_of_ne, related.pending,
        added.others heap isTarget]
  · intro heap timer member
    by_cases isTarget : heap = target
    · subst isTarget
      rcases List.mem_cons.mp (added.perm.mem_iff.mp member) with
        isNew | old
      · rw [isNew]
        exact newDeadline
      · exact oldDeadline heap timer old
    · rw [added.others heap isTarget] at member
      exact oldDeadline heap timer member
  · intro other
    rw [added.ids]
    by_cases isName : other = name
    · subst isName
      simp [PendingSet.next, related.created]
    · simp [PendingSet.next, isName, related.names]

/-- An identifier that names no pending timer of the heap cancels nothing. -/
theorem cancelTimer_idle
    (swap : Timestamp.Swap)
    (related : Represents world spec)
    {target : Fin heapCount}
    {name : Nat}
    (idle : ∀ timer, ¬ spec.Cancels target name timer) :
    invoke swap world (.cancelTimer target name) = some (world, .done) ∧
      spec.next (.cancelTimer target name) = spec := by
  constructor
  · have notNamed :
        ∀ timer ∈ (world.heaps target).heap_,
          (world.ids name).timer_ ≠ some timer := by
      intro timer member named
      rw [related.names] at named
      exact idle timer
        ⟨named, (related.pending target timer).mpr member⟩
    have unchanged :=
      Timers.cancelTimer_idle related.invariant notNamed
    simp [invoke, unchanged]
  · simp only [PendingSet.next]
    split
    · rfl
    · next timer named =>
        rw [if_neg fun member => idle timer ⟨named, member⟩]

/-- `CancelTimer` erases exactly the pending timer its identifier names. -/
theorem cancelTimer
    (related : Represents world spec)
    (target : Fin heapCount)
    (name : Nat) :
    Simulated swap world spec (.cancelTimer target name) := by
  by_cases idle : ∀ timer, ¬ spec.Cancels target name timer
  · obtain ⟨unchanged, sameSpec⟩ := related.cancelTimer_idle swap idle
    exact ⟨world, .done, unchanged, trivial, by rwa [sameSpec]⟩
  · obtain ⟨timer, named, member⟩ :
        ∃ timer, spec.Cancels target name timer := by
      simpa using idle
    have pending := (related.pending target timer).mp member
    obtain ⟨removed, removedEq, effect⟩ :=
      cancelTimer_spec related.invariant pending
        ((related.names name).trans named)
    have nextShape :
        spec.next (.cancelTimer target name) =
          { spec with
            pending :=
              Function.update spec.pending target
                ((spec.pending target).erase timer)
            names := Function.update spec.names name none } := by
      simp [PendingSet.next, named, member]
    have distinct :
        (timer :: (removed.heaps target).heap_).Nodup :=
      effect.perm.nodup
        (Slots.Linked.nodup (related.invariant.heaps target).linked)
    have inherited :
        ∀ other, other ∈ (removed.heaps target).heap_ →
          other ∈ (world.heaps target).heap_ := fun other kept =>
      effect.perm.mem_iff.mpr (List.mem_cons_of_mem _ kept)
    refine ⟨_, .done, by simp [invoke, removedEq]; rfl, trivial, ?_⟩
    rw [nextShape]
    refine {
      invariant := effect.invariant.update_ids name (.inl rfl)
      created := ?_
      pending := ?_
      deadlines := ?_
      names := ?_
    }
    · have sameLength :=
        congrArg List.length effect.deadlines
      simp only [World.deadlines, List.length_map] at sameLength
      exact related.created.trans sameLength.symm
    · intro heap other
      by_cases isTarget : heap = target
      · subst isTarget
        simp only [Function.update_self, Finset.mem_erase,
          related.pending, effect.perm.mem_iff, List.mem_cons]
        constructor
        · rintro ⟨notTimer, isTimer | kept⟩
          · exact (notTimer isTimer).elim
          · exact kept
        · intro kept
          refine ⟨?_, .inr kept⟩
          rintro rfl
          exact (List.nodup_cons.mp distinct).1 kept
      · simp only [ne_eq, isTarget, not_false_eq_true,
          Function.update_of_ne, related.pending,
          effect.others heap isTarget]
    · intro heap other kept
      show usecOf removed.deadlines other = _
      rw [effect.deadlines]
      apply related.deadlines heap
      by_cases isTarget : heap = target
      · subst isTarget
        exact inherited other kept
      · rwa [← effect.others heap isTarget]
    · intro other
      by_cases isName : other = name
      · subst isName
        simp
      · simp [isName, effect.ids, related.names]

/-- `GetExpiredTimers` returns the due timers and keeps the others. -/
theorem getExpiredTimers
    (related : Represents world spec)
    (target : Fin heapCount)
    (now : Timestamp) :
    Simulated swap world spec (.getExpiredTimers target now) := by
  obtain ⟨batch, after, expiredEq, expired⟩ :=
    collectExpired_spec related.invariant target now []
  have distinct :
      (batch ++ (after.heaps target).heap_).Nodup :=
    expired.perm.nodup
      (Slots.Linked.nodup (related.invariant.heaps target).linked)
  have inBatch :
      ∀ timer ∈ batch, timer ∈ (world.heaps target).heap_ :=
    fun timer member =>
      expired.perm.mem_iff.mpr (List.mem_append_left _ member)
  have inRest :
      ∀ timer ∈ (after.heaps target).heap_,
        timer ∈ (world.heaps target).heap_ :=
    fun timer member =>
      expired.perm.mem_iff.mpr (List.mem_append_right _ member)
  have sameDeadline := related.deadlines target
  refine ⟨after, .expired batch,
    by simp [invoke, Timers.getExpiredTimers, expiredEq],
    ⟨?_, ?_, ?_⟩, {
      invariant := expired.invariant
      created := ?_
      pending := ?_
      deadlines := ?_
      names := ?_
    }⟩
  · exact (List.nodup_append.mp distinct).1
  · intro timer
    rw [related.pending]
    constructor
    · intro member
      refine ⟨inBatch timer member, ?_⟩
      rw [← sameDeadline timer (inBatch timer member)]
      exact expired.due timer member
    · rintro ⟨member, due⟩
      rcases List.mem_append.mp (expired.perm.mem_iff.mp member) with
        returned | kept
      · exact returned
      · have notDue := expired.notDue timer kept
        rw [sameDeadline timer member] at notDue
        omega
  · apply expired.sorted.imp_of_mem
    intro earlier later earlierMember laterMember inOrder
    rwa [← sameDeadline earlier (inBatch earlier earlierMember),
      ← sameDeadline later (inBatch later laterMember)]
  · have sameLength := congrArg List.length expired.deadlines
    simp only [World.deadlines, List.length_map] at sameLength
    exact related.created.trans sameLength.symm
  · intro heap timer
    by_cases isTarget : heap = target
    · subst isTarget
      simp only [PendingSet.next, Function.update_self,
        Finset.mem_filter, related.pending]
      constructor
      · rintro ⟨member, notDue⟩
        rcases List.mem_append.mp (expired.perm.mem_iff.mp member) with
          returned | kept
        · have due := expired.due timer returned
          rw [sameDeadline timer member] at due
          omega
        · exact kept
      · intro kept
        have member := inRest timer kept
        refine ⟨member, ?_⟩
        rw [← sameDeadline timer member]
        exact expired.notDue timer kept
    · simp only [PendingSet.next, ne_eq, isTarget, not_false_eq_true,
        Function.update_of_ne, related.pending,
        expired.others heap isTarget]
  · intro heap timer member
    show usecOf after.deadlines timer = usecOf spec.deadlines timer
    rw [expired.deadlines]
    apply related.deadlines heap
    by_cases isTarget : heap = target
    · subst isTarget
      exact inRest timer member
    · rwa [← expired.others heap isTarget]
  · intro name
    rw [expired.ids]
    exact related.names name

/-- Copying an identifier copies the name of a timer. -/
theorem copyID
    (related : Represents world spec)
    (target source : Nat) :
    Simulated swap world spec (.copyID target source) := by
  refine ⟨_, .done, rfl, trivial, {
    invariant :=
      related.invariant.update_ids target
        (related.invariant.issued source)
    created := related.created
    pending := related.pending
    deadlines := related.deadlines
    names := ?_
  }⟩
  intro other
  by_cases isTarget : other = target
  · subst isTarget
    simp [PendingSet.next, related.names]
  · simp [PendingSet.next, isTarget, related.names]

/-- Dropping a returned timer does not concern the heaps. -/
theorem releaseTimer
    (related : Represents world spec)
    (timer : TimerPtr) :
    Simulated swap world spec (.releaseTimer timer) := by
  exact ⟨_, .done, rfl, trivial, {
    invariant := related.invariant.with_held _
    created := related.created
    pending := related.pending
    deadlines := related.deadlines
    names := related.names
  }⟩

/-- Restarting a timer that is in no heap does not concern the heaps. -/
theorem restart
    (related : Represents world spec)
    {timer : TimerPtr}
    {object : TimerObj}
    (stored : world.objs[timer]? = some object)
    (oneShot : object.periodic_ = false)
    (idle : ∀ heap, timer ∉ (world.heaps heap).heap_)
    (now : Timestamp) :
    Simulated swap world spec (.restart timer now) := by
  have invariant := related.invariant
  have allocated := (List.getElem?_eq_some_iff.mp stored).1
  let restartedObject :=
    { object with deadline_ := object.deadline_.assign swap ⟨0⟩ }
  have untouched :
      ∀ {other}, other ≠ timer →
        (world.objs.set timer restartedObject)[other]? =
          world.objs[other]? :=
    fun different => List.getElem?_set_ne different.symm
  have notTimer :
      ∀ heap, ∀ other ∈ (world.heaps heap).heap_, other ≠ timer := by
    rintro heap other member rfl
    exact idle heap member
  let restarted :=
    { world with objs := world.objs.set timer restartedObject }
  refine ⟨restarted, .done,
    by simp [invoke, restartTimer, TimerObj.restart, stored, oneShot,
      restarted, restartedObject], trivial, {
      invariant :=
        ⟨fun heap =>
            (invariant.heaps heap).frame fun other member =>
              untouched (notTimer heap other member),
          by simpa [restarted] using invariant.few,
          by simpa [restarted] using invariant.counter,
          ?_, invariant.apart,
          by simpa [restarted] using invariant.issued⟩
      created := by
        simpa [PendingSet.next, restarted] using related.created
      pending := related.pending
      deadlines := ?_
      names := related.names
    }⟩
  · intro other found isFound
    by_cases isTimer : other = timer
    · subst isTimer
      simp only [restarted, List.getElem?_set_self allocated,
        Option.some.injEq] at isFound
      have number := invariant.numbered stored
      rw [← isFound]
      exact number
    · simp only [restarted, untouched isTimer] at isFound
      exact invariant.numbered isFound
  · intro heap other member
    have same := related.deadlines heap other member
    rw [PendingSet.next, ← same]
    simp only [usecOf, World.deadlines, List.getElem?_map, restarted,
      untouched (notTimer heap other member)]

/-- Every permitted call is simulated. -/
theorem simulated
    (swap : Timestamp.Swap)
    (related : Represents world spec)
    {call : Call heapCount}
    (permitted : Permitted world call) :
    Simulated swap world spec call := by
  cases call with
  | addTimer target deadline interval name =>
      exact related.addTimer permitted target deadline interval name
  | cancelTimer target name =>
      exact related.cancelTimer target name
  | getExpiredTimers target now =>
      exact related.getExpiredTimers target now
  | copyID target source =>
      exact related.copyID target source
  | releaseTimer timer =>
      exact related.releaseTimer timer
  | restart timer now =>
      obtain ⟨⟨object, stored, oneShot⟩, idle⟩ := permitted
      exact related.restart stored oneShot idle now

end Represents

/-- Every run of permitted calls is accepted by the abstract model. -/
theorem Represents.of_reaches
    {trace : List (Call heapCount × Reply)}
    {world : World heapCount}
    (reaches : (permittedProgram swap heapCount).Reaches trace world) :
    ∃ spec, PendingSet.Accepts trace spec ∧ Represents world spec := by
  induction reaches with
  | initial =>
      exact ⟨.initial, .initial, .empty⟩
  | @step trace events world after call earlier taken
      inductionHypothesis =>
      obtain ⟨spec, accepts, related⟩ := inductionHypothesis
      obtain ⟨permitted, ran⟩ :=
        System.guarded_step?_eq_some.mp taken
      obtain ⟨simulatedAfter, reply, invoked, answered, stillRelated⟩ :=
        related.simulated swap permitted
      simp only [program, invoked, Option.map_some, Option.some.injEq,
        Prod.mk.injEq] at ran
      obtain ⟨rfl, rfl⟩ := ran
      exact ⟨_, accepts.call answered, stillRelated⟩

/--
`TimerHeap` refines its set of pending timers.  After every permitted run the
history is one the abstract model accepts and the vectors hold exactly the
pending timers; every further permitted call runs without a fault, answers as
the model demands and preserves the correspondence.  Cancelling an identifier
that names no pending timer of the heap changes nothing.
-/
theorem timerHeap_refines_pendingSet
    {trace : List (Call heapCount × Reply)}
    {world : World heapCount}
    (reaches : (permittedProgram swap heapCount).Reaches trace world) :
    ∃ spec,
      PendingSet.Accepts trace spec ∧
        (∀ heap timer, timer ∈ spec.pending heap ↔
          timer ∈ (world.heaps heap).heap_) ∧
        ∀ call, Permitted world call →
          ∃ after reply,
            invoke swap world call = some (after, reply) ∧
              spec.Answers call reply ∧
              (∀ heap timer, timer ∈ (spec.next call).pending heap ↔
                timer ∈ (after.heaps heap).heap_) ∧
              ∀ target name, call = .cancelTimer target name →
                (∀ timer, ¬ spec.Cancels target name timer) →
                after = world := by
  obtain ⟨spec, accepts, related⟩ := Represents.of_reaches reaches
  refine ⟨spec, accepts, related.pending, ?_⟩
  intro call permitted
  obtain ⟨after, reply, invoked, answered, stillRelated⟩ :=
    related.simulated swap permitted
  refine ⟨after, reply, invoked, answered, stillRelated.pending, ?_⟩
  rintro target name rfl idle
  have unchanged := (related.cancelTimer_idle swap idle).1
  rw [invoked] at unchanged
  exact (Prod.mk.inj (Option.some.inj unchanged)).1

/-- A run over two heaps with fresh, copied, foreign and stale identifiers. -/
def mixedCalls : List (Call 2) :=
  [.addTimer 0 ⟨50⟩ ⟨0⟩ 0, .addTimer 0 ⟨30⟩ ⟨7⟩ 1,
    .addTimer 1 ⟨30⟩ ⟨0⟩ 2, .addTimer 0 ⟨90⟩ ⟨0⟩ 3,
    .addTimer 0 ⟨40⟩ ⟨0⟩ 4, .copyID 5 0, .cancelTimer 1 0,
    .cancelTimer 0 0, .cancelTimer 0 5, .cancelTimer 0 9,
    .getExpiredTimers 0 ⟨40⟩, .restart 4 ⟨60⟩, .releaseTimer 1,
    .getExpiredTimers 1 ⟨29⟩]

theorem timerHeap_refines_pendingSet_mixedCalls :
    ∃ world trace spec,
      (permittedProgram Timestamp.exchange 2).run? .empty mixedCalls =
          some (world, trace) ∧
        PendingSet.Accepts trace spec ∧
        ∀ heap timer, timer ∈ spec.pending heap ↔
          timer ∈ (world.heaps heap).heap_ := by
  obtain ⟨⟨world, trace⟩, executed⟩ :=
    Option.isSome_iff_exists.mp
      (by decide +kernel :
        ((permittedProgram Timestamp.exchange 2).run? .empty
          mixedCalls).isSome)
  obtain ⟨spec, accepts, pending, -⟩ :=
    timerHeap_refines_pendingSet (System.Reaches.of_run? executed)
  exact ⟨world, trace, spec, executed, accepts, pending⟩

/-- The identifiers of the timers in a vector. -/
def World.heapIds
    (world : World heapCount)
    (heap : Fin heapCount) : List Nat :=
  (world.heaps heap).heap_.filterMap fun timer =>
    world.objs[timer]?.map TimerObj.id_

/-- Identifiers in the vector are one more than the addresses. -/
theorem World.Invariant.heapIds_eq
    {world : World heapCount}
    (invariant : world.Invariant)
    (heap : Fin heapCount) :
    world.heapIds heap = (world.heaps heap).heap_.map (· + 1) := by
  unfold World.heapIds
  rw [← List.filterMap_eq_map]
  apply List.filterMap_congr
  intro timer member
  have allocated := (invariant.heaps heap).allocated member
  have stored := List.getElem?_eq_getElem allocated
  rw [stored, Option.map_some, invariant.numbered stored]
  rfl

/--
The representation of every reachable heap: ordered by deadline, with exact
back-indices, an identifier set equal to the identifiers of the vector, and no
access outside the vector in any further permitted call.
-/
theorem timerHeap_representation
    {trace : List (Call heapCount × Reply)}
    {world : World heapCount}
    (reaches : (permittedProgram swap heapCount).Reaches trace world) :
    (∀ heap,
      (∀ index, 0 < index →
        index < (world.heaps heap).heap_.length →
        ∃ own above,
          (world.slots heap).deadlineAt index = some own ∧
            (world.slots heap).deadlineAt ((index - 1) / 2) =
              some above ∧
            above.epoch_usec_ ≤ own.epoch_usec_) ∧
      (∀ index (timer : TimerPtr),
        (world.heaps heap).heap_[index]? = some timer →
          ∃ object : TimerObj, world.objs[timer]? = some object ∧
            object.heap_index_ = index) ∧
      (world.heaps heap).active_timers_ =
        (world.heapIds heap).toFinset ∧
      (world.heapIds heap).Nodup) ∧
    ∀ call, Permitted world call → (invoke swap world call).isSome := by
  obtain ⟨spec, -, related⟩ := Represents.of_reaches reaches
  have invariant := related.invariant
  refine ⟨fun heap => ⟨?_, ?_, ?_, ?_⟩, ?_⟩
  · intro index positive inBounds
    have own := invariant.heaps heap
    have linked : (world.slots heap).Linked := own.linked
    have parentBefore := parent_lt positive
    obtain ⟨deadline, deadlineAt, deadlineKey⟩ :=
      linked.deadlineAt_of_lt inBounds
    obtain ⟨above, aboveAt, aboveKey⟩ :=
      linked.deadlineAt_of_lt
        (Nat.lt_trans parentBefore inBounds)
    refine ⟨deadline, above, deadlineAt, aboveAt, ?_⟩
    have ordered := own.ordered index positive inBounds
    change (world.slots heap).key _ ≤ (world.slots heap).key _ at ordered
    rw [← deadlineKey, ← aboveKey] at ordered
    exact UInt64.le_iff_toNat_le.mpr ordered
  · intro index timer stored
    exact (invariant.heaps heap).linked stored
  · ext id
    rw [(invariant.heaps heap).active, invariant.heapIds_eq]
    simp only [List.mem_toFinset, List.mem_map, eq_comm]
  · rw [invariant.heapIds_eq]
    exact (Slots.Linked.nodup (invariant.heaps heap).linked).map
      fun _ _ same => Nat.succ.inj same
  · intro call permitted
    obtain ⟨after, reply, invoked, -, -⟩ := related.simulated swap permitted
    rw [invoked]
    rfl

theorem timerHeap_representation_mixedCalls :
    ∃ world trace,
      (permittedProgram Timestamp.exchange 2).run? .empty mixedCalls =
          some (world, trace) ∧
        (∀ heap, (world.heaps heap).active_timers_ =
          (world.heapIds heap).toFinset) ∧
        ∀ call, Permitted world call →
          (invoke Timestamp.exchange world call).isSome := by
  obtain ⟨⟨world, trace⟩, executed⟩ :=
    Option.isSome_iff_exists.mp
      (by decide +kernel :
        ((permittedProgram Timestamp.exchange 2).run? .empty
          mixedCalls).isSome)
  obtain ⟨shape, runs⟩ :=
    timerHeap_representation (System.Reaches.of_run? executed)
  exact ⟨world, trace, executed, fun heap => (shape heap).2.2.1, runs⟩

end CsPrimer.Timers
