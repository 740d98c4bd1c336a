import CsPrimer.Singleton.GetInstance
import CsPrimer.Library.ThreadPool

namespace CsPrimer.Singleton

open Library

/-!
# When a second instance is made

`alpha` does not lock, and `release` tests behind the mutex what it has loaded
before.  In both of them a call that has found the null pointer ends by
allocating only, whatever the other calls do meanwhile.  So the allocations and
the calls on the way to one never become fewer, and they are the allocations
when all calls have ended.
-/

namespace Position

/-- The call has found the null pointer and has not allocated yet. -/
def pending : Position → Nat
  | .locking | .retesting | .creating .allocating => 1
  | _ => 0

/-- The call has found the null pointer and has not assigned yet. -/
def storing (order : Order) : Position → Nat
  | .locking | .retesting | .creating .allocating
  | .creating (.assigning _) => 1
  | .creating (.constructing _) =>
      match order with
      | .inOrder => 1
      | .reordered => 0
  | _ => 0

/-- The statements that a call still has before it, in the order it creates. -/
def remaining (order : Order) : Position → Nat
  | .outside | .evaluating => 0
  | .unlocking _ | .returning => 1
  | .creating (.created _) => 2
  | .creating (.constructing _) =>
      match order with
      | .inOrder => 4
      | .reordered => 3
  | .creating (.assigning _) =>
      match order with
      | .inOrder => 3
      | .reordered => 4
  | .creating .allocating => 5
  | .retesting => 6
  | .locking => 7
  | .testing => 8

end Position

/-- What a step of a call does to `instance_` and to the allocations. -/
inductive Moves
    {Thread : Type}
    (order : Order)
    (shared : Shared Thread)
    (position : Position)
    (after : Shared Thread)
    (next : Position) : Prop where
  | finds
      (isTesting : position = .testing)
      (isNone : shared.instance_ = none)
      (same : after = shared)
      (isPending : next.pending = 1)
      (isStoring : next.storing order = 1)
  | stores
      (isAssigning : ∃ mem, position = .creating (.assigning mem))
      (isSome : after.instance_ ≠ none)
      (allocates : after.allocated = shared.allocated)
      (notPending : next.pending = 0)
      (notStoring : next.storing order = 0)
  | goesOn
      (notFound : ¬ (position = .testing ∧ shared.instance_ = none))
      (same : after.instance_ = shared.instance_)
      (allocates :
        after.allocated + next.pending =
          shared.allocated + position.pending)
      (isStoring : next.storing order = position.storing order)

section Steps

variable
  {Thread : Type}
  {order : Order}
  {shared after : Shared Thread}
  {thread : Thread}
  {position next : Position}
  {events : List Event}

theorem moves_of_createThen
    {stage : Stage}
    {behind : Nat → Position}
    (notPending : ∀ mem, (behind mem).pending = 0)
    (notStoring : ∀ mem, (behind mem).storing order = 0)
    (stepped : createThen order shared stage behind = (after, next, events)) :
    Moves order shared (.creating stage) after next := by
  cases stage with
  | allocating =>
      cases order <;>
        simp only [createThen, create, Prod.mk.injEq] at stepped <;>
        obtain ⟨rfl, rfl, rfl⟩ := stepped <;>
        exact .goesOn (by simp) rfl rfl rfl
  | constructing mem =>
      cases order with
      | inOrder =>
          simp only [createThen, create, Prod.mk.injEq] at stepped
          obtain ⟨rfl, rfl, rfl⟩ := stepped
          exact .goesOn (by simp) rfl rfl rfl
      | reordered =>
          simp only [createThen, create, Prod.mk.injEq] at stepped
          obtain ⟨rfl, rfl, rfl⟩ := stepped
          exact .goesOn (by simp) rfl
            (congrArg (shared.allocated + ·) (notPending mem))
            (notStoring mem)
  | assigning mem =>
      cases order with
      | inOrder =>
          simp only [createThen, create, Prod.mk.injEq] at stepped
          obtain ⟨rfl, rfl, rfl⟩ := stepped
          exact .stores ⟨mem, rfl⟩ (by simp) rfl (notPending mem)
            (notStoring mem)
      | reordered =>
          simp only [createThen, create, Prod.mk.injEq] at stepped
          obtain ⟨rfl, rfl, rfl⟩ := stepped
          exact .stores ⟨mem, rfl⟩ (by simp) rfl rfl rfl
  | created mem =>
      simp only [createThen, create, Prod.mk.injEq] at stepped
      obtain ⟨rfl, rfl, rfl⟩ := stepped
      exact .goesOn (by simp) rfl
        (congrArg (shared.allocated + ·) (notPending mem)) (notStoring mem)

theorem remaining_lt_of_createThen
    {stage : Stage}
    {behind : Nat → Position}
    (isLast : ∀ mem, (behind mem).remaining order = 1)
    (stepped : createThen order shared stage behind = (after, next, events)) :
    next.remaining order <
      (Position.creating stage).remaining order := by
  cases stage <;> cases order <;>
    simp only [createThen, create, Prod.mk.injEq] at stepped <;>
    obtain ⟨-, rfl, -⟩ := stepped <;>
    first
      | exact (isLast _).trans_lt (by simp [Position.remaining])
      | simp [Position.remaining]

/-- A call that has found the null pointer ends by allocating only. -/
theorem Moves.allocates
    (moves : Moves order shared position after next)
    (isPending : position.pending = 1) :
    after.allocated + next.pending = shared.allocated + 1 := by
  cases moves with
  | finds isTesting =>
      rw [isTesting] at isPending
      cases isPending
  | stores isAssigning =>
      obtain ⟨mem, isAssigning⟩ := isAssigning
      rw [isAssigning] at isPending
      cases isPending
  | goesOn notFound same allocates isStoring =>
      rw [allocates, isPending]

/-- Taking the mutex leaves the rest alone. -/
theorem lock_spec (locked : lock shared thread = some after) :
    shared.mutex_ = none ∧ after = { shared with mutex_ := some thread } := by
  cases isMutex : shared.mutex_ with
  | none =>
      simp only [lock, isMutex, Option.some.injEq] at locked
      exact ⟨rfl, locked.symm⟩
  | some owner =>
      simp only [lock, isMutex, reduceCtorEq] at locked

theorem alpha_moves
    (stepped :
      alpha order shared thread position = some (after, next, events)) :
    Moves order shared position after next := by
  cases position with
  | outside | returning =>
      simp only [alpha, Option.some.injEq, Prod.mk.injEq] at stepped
      obtain ⟨rfl, rfl, rfl⟩ := stepped
      exact .goesOn (by simp) rfl rfl rfl
  | testing =>
      cases isInstance : shared.instance_ with
      | none =>
          simp only [alpha, isInstance, Option.some.injEq, Prod.mk.injEq]
            at stepped
          obtain ⟨rfl, rfl, rfl⟩ := stepped
          exact .finds rfl isInstance rfl rfl rfl
      | some mem =>
          simp only [alpha, isInstance, Option.some.injEq, Prod.mk.injEq]
            at stepped
          obtain ⟨rfl, rfl, rfl⟩ := stepped
          exact .goesOn (by simp [isInstance]) rfl rfl rfl
  | creating stage =>
      simp only [alpha, Option.some.injEq] at stepped
      exact moves_of_createThen (fun _ => rfl) (fun _ => rfl) stepped
  | locking | retesting | evaluating | unlocking result =>
      simp only [alpha, reduceCtorEq] at stepped

theorem release_moves
    (stepped :
      release shared thread position = some (after, next, events)) :
    Moves .inOrder shared position after next := by
  cases position with
  | outside | retesting | unlocking result =>
      simp only [release, Option.some.injEq, Prod.mk.injEq] at stepped
      obtain ⟨rfl, rfl, rfl⟩ := stepped
      exact .goesOn (by simp) rfl rfl rfl
  | testing =>
      cases isInstance : shared.instance_ with
      | none =>
          simp only [release, isInstance, Option.some.injEq, Prod.mk.injEq]
            at stepped
          obtain ⟨rfl, rfl, rfl⟩ := stepped
          exact .finds rfl isInstance rfl rfl rfl
      | some tmp =>
          simp only [release, isInstance, Option.some.injEq, Prod.mk.injEq]
            at stepped
          obtain ⟨rfl, rfl, rfl⟩ := stepped
          exact .goesOn (by simp [isInstance]) rfl rfl rfl
  | locking =>
      simp only [release, Option.map_eq_some_iff, Prod.mk.injEq] at stepped
      obtain ⟨locked, isLocked, rfl, rfl, rfl⟩ := stepped
      obtain ⟨-, rfl⟩ := lock_spec isLocked
      exact .goesOn (by simp) rfl rfl rfl
  | creating stage =>
      simp only [release, Option.some.injEq] at stepped
      exact moves_of_createThen (fun _ => rfl) (fun _ => rfl) stepped
  | evaluating | returning =>
      simp only [release, reduceCtorEq] at stepped

/-- A call that has begun comes closer to its end with every step. -/
theorem remaining_lt_of_alpha
    (isInside : position ≠ .outside)
    (stepped :
      alpha order shared thread position = some (after, next, events)) :
    next.remaining order < position.remaining order := by
  cases position with
  | outside =>
      exact absurd rfl isInside
  | testing =>
      cases isInstance : shared.instance_ <;>
        simp only [alpha, isInstance, Option.some.injEq, Prod.mk.injEq]
          at stepped <;>
        obtain ⟨-, rfl, -⟩ := stepped <;>
        simp [Position.remaining]
  | creating stage =>
      simp only [alpha, Option.some.injEq] at stepped
      exact remaining_lt_of_createThen (fun _ => rfl) stepped
  | returning =>
      simp only [alpha, Option.some.injEq, Prod.mk.injEq] at stepped
      obtain ⟨-, rfl, -⟩ := stepped
      simp [Position.remaining]
  | locking | retesting | evaluating | unlocking result =>
      simp only [alpha, reduceCtorEq] at stepped

theorem remaining_lt_of_release
    (isInside : position ≠ .outside)
    (stepped :
      release shared thread position = some (after, next, events)) :
    next.remaining .inOrder < position.remaining .inOrder := by
  cases position with
  | outside =>
      exact absurd rfl isInside
  | testing =>
      cases isInstance : shared.instance_ <;>
        simp only [release, isInstance, Option.some.injEq, Prod.mk.injEq]
          at stepped <;>
        obtain ⟨-, rfl, -⟩ := stepped <;>
        simp [Position.remaining]
  | locking =>
      simp only [release, Option.map_eq_some_iff, Prod.mk.injEq] at stepped
      obtain ⟨-, -, -, rfl, -⟩ := stepped
      simp [Position.remaining]
  | creating stage =>
      simp only [release, Option.some.injEq] at stepped
      exact remaining_lt_of_createThen (fun _ => rfl) stepped
  | retesting | unlocking result =>
      simp only [release, Option.some.injEq, Prod.mk.injEq] at stepped
      obtain ⟨-, rfl, -⟩ := stepped
      simp [Position.remaining]
  | evaluating | returning =>
      simp only [release, reduceCtorEq] at stepped

end Steps

section Counting

variable
  {Thread : Type}
  [Fintype Thread]
  {order : Order}
  {state next : State Thread}
  {thread : Thread}

/-- The allocations, and the calls that have found the null pointer before one. -/
def foreseen (state : State Thread) : Nat :=
  state.shared.allocated + total Position.pending state.threads

/-- No call has found the null pointer and has still to assign. -/
def Alone
    (order : Order)
    (state : State Thread)
    (thread : Thread) : Prop :=
  state.threads thread = .testing → state.shared.instance_ = none →
    total (Position.storing order) state.threads = 0

instance
    (order : Order)
    (state : State Thread)
    (thread : Thread) :
    Decidable (Alone order state thread) :=
  inferInstanceAs (Decidable (_ → _ → _))

/-- As long as nothing is assigned, every instance has a call to assign it. -/
structure Counted (order : Order) (state : State Thread) : Prop where
  unset :
    state.shared.instance_ = none →
      foreseen state = total (Position.storing order) state.threads
  set :
    state.shared.instance_ ≠ none →
      total (Position.storing order) state.threads < foreseen state

/-- When no call is in progress, what has been foreseen has been allocated. -/
theorem foreseen_of_outside
    (ended : ∀ thread, state.threads thread = .outside) :
    foreseen state = state.shared.allocated := by
  have noPending : total Position.pending state.threads = 0 :=
    total_eq_zero_iff.mpr fun thread => by rw [ended]; rfl
  rw [foreseen, noPending, Nat.add_zero]

/-- Only a call that tests can find the null pointer. -/
theorem alone_of_quiet
    (quiet :
      state.threads thread ≠ .testing ∨
        ∀ other,
          state.threads other = .outside ∨
            state.threads other = .testing) :
    Alone order state thread := by
  intro isTesting isNone
  rcases quiet with notTesting | quiet
  · exact absurd isTesting notTesting
  · refine total_eq_zero_iff.mpr fun other => ?_
    rcases quiet other with isOutside | isTesting
    · rw [isOutside]
      rfl
    · rw [isTesting]
      rfl

variable
  [DecidableEq Thread]
  {getInstance :
    Shared Thread → Thread → Position →
      Option (Shared Thread × Position × List Event)}
  {events : List Event}

/-- Only a call that finds the null pointer makes one instance more. -/
theorem Moves.foreseen_cases
    {after : Shared Thread}
    {later : Position}
    (moves :
      Moves order state.shared (state.threads thread) after later) :
    (state.threads thread = .testing ∧ state.shared.instance_ = none ∧
        foreseen
            { shared := after
              threads := Function.update state.threads thread later } =
          foreseen state + 1) ∨
      (¬ (state.threads thread = .testing ∧
          state.shared.instance_ = none) ∧
        foreseen
            { shared := after
              threads := Function.update state.threads thread later } =
          foreseen state) := by
  have pending :=
    total_update Position.pending state.threads thread later
  unfold foreseen
  simp only
  cases moves with
  | finds isTesting isNone same isPending isStoring =>
      subst same
      rw [isTesting, isPending] at pending
      simp only [Position.pending] at pending
      exact .inl ⟨isTesting, isNone, by omega⟩
  | stores isAssigning isSome allocates notPending notStoring =>
      obtain ⟨mem, isAssigning⟩ := isAssigning
      rw [isAssigning, notPending] at pending
      simp only [Position.pending] at pending
      exact .inr ⟨by simp [isAssigning], by omega⟩
  | goesOn notFound same allocates isStoring =>
      exact .inr ⟨notFound, by omega⟩

/-- A step keeps the count, and foresees more only if the call is not alone. -/
theorem Counted.step
    (version : ∀ {shared after : Shared Thread} {thread : Thread}
      {position later : Position} {events : List Event},
      getInstance shared thread position = some (after, later, events) →
      Moves order shared position after later)
    (counted : Counted order state)
    (taken :
      (system getInstance).step? state thread = some (next, events)) :
    Counted order next ∧
      (foreseen next = foreseen state ∧ Alone order state thread ∨
        foreseen next = total (Position.storing order) state.threads + 1 ∧
          state.threads thread = .testing ∧
          state.shared.instance_ = none) := by
  simp only [system, Option.map_eq_some_iff, Prod.mk.injEq] at taken
  obtain ⟨⟨after, later, emitted⟩, stepped, rfl, rfl⟩ := taken
  have moves := version stepped
  have storing :=
    total_update (Position.storing order) state.threads thread later
  obtain ⟨unset, set⟩ := counted
  constructor
  · have change := moves.foreseen_cases
    cases moves with
    | finds isTesting isNone same isPending isStoring =>
        subst same
        rw [isTesting, isStoring] at storing
        simp only [Position.storing] at storing
        have before := unset isNone
        have more :=
          (change.resolve_right fun kept => kept.1 ⟨isTesting, isNone⟩).2.2
        refine ⟨fun _ => ?_, fun isSome => absurd isNone isSome⟩
        simp only
        omega
    | stores isAssigning isSome allocates notPending notStoring =>
        obtain ⟨mem, isAssigning⟩ := isAssigning
        rw [isAssigning, notStoring] at storing
        simp only [Position.storing] at storing
        have kept :=
          (change.resolve_left fun found => by
            rw [isAssigning] at found
            cases found.1).2
        refine ⟨fun isNone => absurd isNone isSome, fun _ => ?_⟩
        simp only
        by_cases isNone : state.shared.instance_ = none
        · have before := unset isNone
          omega
        · have before := set isNone
          omega
    | goesOn notFound same allocates isStoring =>
        have kept :=
          (change.resolve_left fun found =>
            notFound ⟨found.1, found.2.1⟩).2
        refine ⟨fun isNone => ?_, fun isSome => ?_⟩
        · have before := unset (same.symm.trans isNone)
          simp only
          omega
        · have before := set (same ▸ isSome)
          simp only
          omega
  · rcases moves.foreseen_cases with
      ⟨isTesting, isNone, more⟩ | ⟨notFound, same⟩
    · exact .inr ⟨unset isNone ▸ more, isTesting, isNone⟩
    · exact .inl ⟨same, fun isTesting isNone =>
        absurd ⟨isTesting, isNone⟩ notFound⟩

theorem Counted.initially :
    Counted order (system getInstance).initial := by
  have noPending :
      total Position.pending (fun _ : Thread => .outside) = 0 :=
    total_const_zero rfl
  have noStoring :
      total (Position.storing order) (fun _ : Thread => .outside) = 0 :=
    total_const_zero rfl
  refine ⟨fun _ => ?_, fun isSome => absurd rfl isSome⟩
  simp [foreseen, system, noPending, noStoring]

/-- A second instance is foreseen exactly if two calls find the null pointer. -/
theorem second_foreseen_exactly
    (version : ∀ {shared after : Shared Thread} {thread : Thread}
      {position later : Position} {events : List Event},
      getInstance shared thread position = some (after, later, events) →
      Moves order shared position after later) :
    (system getInstance).BadExactlyOutside (Alone order)
      fun state => 2 ≤ foreseen state := by
  refine System.BadExactlyOutside.of_invariant (Counted order) ?_ ?_
  · refine ⟨?_, Counted.initially⟩
    rw [foreseen_of_outside fun _ => rfl]
    simp [system]
  · intro state next thread events good counted taken
    obtain ⟨later, same | ⟨more, isTesting, isNone⟩⟩ :=
      counted.step version taken
    · refine ⟨⟨fun isBad => ?_, fun notAlone => ?_⟩, later⟩
      · exact absurd (same.1 ▸ isBad) good
      · exact absurd same.2 notAlone
    · refine ⟨⟨fun isBad isAlone => ?_, fun notAlone => ?_⟩, later⟩
      · have none := isAlone isTesting isNone
        omega
      · have some : total (Position.storing order) state.threads ≠ 0 :=
          fun isZero => notAlone fun _ _ => isZero
        omega

/-- Whatever the calls do from here, two instances are there when all have ended. -/
def Inevitable
    (getInstance :
      Shared Thread → Thread → Position →
        Option (Shared Thread × Position × List Event))
    (state : State Thread) : Prop :=
  ∀ schedule final later,
    (system getInstance).run? state schedule = some (final, later) →
    (∀ thread, final.threads thread = .outside) →
    2 ≤ final.shared.allocated

/-- What has been foreseen does not become less. -/
theorem foreseen_le_of_step
    (version : ∀ {shared after : Shared Thread} {thread : Thread}
      {position later : Position} {events : List Event},
      getInstance shared thread position = some (after, later, events) →
      Moves order shared position after later)
    (taken :
      (system getInstance).step? state thread = some (next, events)) :
    foreseen state ≤ foreseen next := by
  simp only [system, Option.map_eq_some_iff, Prod.mk.injEq] at taken
  obtain ⟨⟨after, later, emitted⟩, stepped, rfl, rfl⟩ := taken
  rcases (version stepped).foreseen_cases with
    ⟨-, -, more⟩ | ⟨-, same⟩
  · exact more ▸ Nat.le_succ _
  · exact Nat.le_of_eq same.symm

/-- When a version makes a second instance. -/
structure SecondExactly
    (order : Order)
    (getInstance :
      Shared Thread → Thread → Position →
        Option (Shared Thread × Position × List Event)) : Prop where
  /-- A call that has found the null pointer ends by allocating only. -/
  allocates :
    ∀ {shared after thread position later events},
      getInstance shared thread position = some (after, later, events) →
      position.pending = 1 →
      after.allocated + later.pending = shared.allocated + 1
  /-- The calls that are in progress can always end. -/
  ends :
    ∀ trace state, (system getInstance).Reaches trace state →
      ∃ schedule final later,
        (system getInstance).run? state schedule = some (final, later) ∧
          ∀ thread, final.threads thread = .outside
  exactly :
    (system getInstance).BadExactlyOutside (Alone order)
      (Inevitable getInstance)
  single :
    ∀ trace state,
      ((system getInstance).guarded (Alone order)).Reaches trace state →
      state.shared.allocated ≤ 1

/-- The calls of a version in these states can go on, and end. -/
structure Lively
    (order : Order)
    (getInstance :
      Shared Thread → Thread → Position →
        Option (Shared Thread × Position × List Event))
    (good : State Thread → Prop) : Prop where
  moves :
    ∀ {shared after thread position later events},
      getInstance shared thread position = some (after, later, events) →
      Moves order shared position after later
  decreases :
    ∀ {shared after thread position later events},
      position ≠ .outside →
      getInstance shared thread position = some (after, later, events) →
      later.remaining order < position.remaining order
  initially :
    good (system getInstance).initial
  kept :
    ∀ {state next thread events}, good state →
      (system getInstance).step? state thread = some (next, events) →
      good next
  tests :
    ∀ shared thread, (getInstance shared thread .testing).isSome
  advances :
    ∀ {state thread}, good state →
      state.threads thread ≠ .outside →
      state.threads thread ≠ .testing →
      ∃ other,
        state.threads other ≠ .outside ∧
          state.threads other ≠ .testing ∧
          (getInstance state.shared other (state.threads other)).isSome

namespace Lively

variable {good : State Thread → Prop}

/-- As long as a call is in progress, one of them can go on alone. -/
theorem exists_step
    (lively : Lively order getInstance good)
    (holds : good state)
    (inProgress : ¬ ∀ thread, state.threads thread = .outside) :
    ∃ thread next events,
      (system getInstance).step? state thread = some (next, events) ∧
        Alone order state thread ∧
        total (Position.remaining order) next.threads <
          total (Position.remaining order) state.threads := by
  have steps :
      ∀ thread, state.threads thread ≠ .outside →
        (getInstance state.shared thread (state.threads thread)).isSome →
        ∃ next events,
          (system getInstance).step? state thread = some (next, events) ∧
            total (Position.remaining order) next.threads <
              total (Position.remaining order) state.threads := by
    intro thread isInside isSome
    obtain ⟨⟨after, later, events⟩, stepped⟩ :=
      Option.isSome_iff_exists.mp isSome
    have less := lively.decreases isInside stepped
    have change :=
      total_update (Position.remaining order) state.threads thread later
    refine ⟨_, events, by simp only [system, stepped]; rfl, ?_⟩
    simp only
    omega
  by_cases busy :
      ∃ thread, state.threads thread ≠ .outside ∧
        state.threads thread ≠ .testing
  · obtain ⟨thread, isInside, notTesting⟩ := busy
    obtain ⟨other, otherInside, otherNotTesting, isSome⟩ :=
      lively.advances holds isInside notTesting
    obtain ⟨next, events, taken, less⟩ := steps other otherInside isSome
    exact ⟨other, next, events, taken,
      alone_of_quiet (.inl otherNotTesting), less⟩
  · push Not at inProgress
    obtain ⟨thread, isInside⟩ := inProgress
    have quiet :
        ∀ other,
          state.threads other = .outside ∨
            state.threads other = .testing := by
      intro other
      by_contra neither
      exact busy ⟨other, not_or.mp neither⟩
    have isTesting := (quiet thread).resolve_left isInside
    obtain ⟨next, events, taken, less⟩ :=
      steps thread isInside (isTesting ▸ lively.tests _ _)
    exact ⟨thread, next, events, taken, alone_of_quiet (.inr quiet), less⟩

/-- All calls can end, and need not make a second instance to do so. -/
theorem exists_ending
    (lively : Lively order getInstance good)
    (holds : good state)
    (counted : Counted order state) :
    ∃ schedule final later,
      (system getInstance).run? state schedule = some (final, later) ∧
        (∀ thread, final.threads thread = .outside) ∧
        final.shared.allocated ≤ max 1 (foreseen state) := by
  have progress :
      ∀ {other : State Thread},
        good other ∧ Counted order other ∧
          foreseen other ≤ max 1 (foreseen state) →
        (¬ ∀ thread, other.threads thread = .outside) →
        ∃ thread next events,
          (system getInstance).step? other thread = some (next, events) ∧
            (good next ∧ Counted order next ∧
              foreseen next ≤ max 1 (foreseen state)) ∧
            total (Position.remaining order) next.threads <
              total (Position.remaining order) other.threads := by
    rintro other ⟨holds, counted, bound⟩ inProgress
    obtain ⟨thread, next, events, taken, alone, less⟩ :=
      lively.exists_step holds inProgress
    have kept := lively.kept holds taken
    obtain ⟨later, same | ⟨more, isTesting, isNone⟩⟩ :=
      counted.step lively.moves taken
    · exact ⟨thread, next, events, taken,
        ⟨kept, later, same.1 ▸ bound⟩, less⟩
    · have none := alone isTesting isNone
      exact ⟨thread, next, events, taken, ⟨kept, later, by omega⟩, less⟩
  obtain ⟨schedule, final, later, executed, ⟨-, -, bound⟩, ended⟩ :=
    System.exists_run?_of_measure
      (fun other : State Thread =>
        total (Position.remaining order) other.threads)
      @progress ⟨holds, counted, Nat.le_max_right 1 _⟩
  exact ⟨schedule, final, later, executed, ended,
    foreseen_of_outside ended ▸ bound⟩

/-- What is foreseen is exactly what is inevitable. -/
theorem inevitable_iff
    (lively : Lively order getInstance good)
    (holds : good state)
    (counted : Counted order state) :
    Inevitable getInstance state ↔ 2 ≤ foreseen state := by
  constructor
  · intro inevitable
    obtain ⟨schedule, final, later, executed, ended, bound⟩ :=
      lively.exists_ending holds counted
    have two := inevitable schedule final later executed ended
    omega
  · intro two schedule final later executed ended
    rw [← foreseen_of_outside ended]
    have kept :
        ∀ {other next : State Thread} {thread : Thread}
          {events : List Event},
          2 ≤ foreseen other →
          (system getInstance).step? other thread = some (next, events) →
          2 ≤ foreseen next :=
      fun before taken =>
        Nat.le_trans before (foreseen_le_of_step lively.moves taken)
    exact System.run?_preserves_state kept two executed

theorem of_reaches
    {trace : List Event}
    (lively : Lively order getInstance good)
    (reaches : (system getInstance).Reaches trace state) :
    good state ∧ Counted order state := by
  induction reaches with
  | initial =>
      exact ⟨lively.initially, Counted.initially⟩
  | step earlier taken inductionHypothesis =>
      obtain ⟨holds, counted⟩ := inductionHypothesis
      exact ⟨lively.kept holds taken, (counted.step lively.moves taken).1⟩

theorem secondExactly
    (lively : Lively order getInstance good) :
    SecondExactly order getInstance where
  allocates stepped isPending :=
    (lively.moves stepped).allocates isPending
  ends trace state reaches := by
    obtain ⟨holds, counted⟩ := lively.of_reaches reaches
    obtain ⟨schedule, final, later, executed, ended, -⟩ :=
      lively.exists_ending holds counted
    exact ⟨schedule, final, later, executed, ended⟩
  exactly trace state reaches := by
    obtain ⟨holds, counted⟩ := lively.of_reaches reaches.of_guarded
    obtain ⟨few, steps⟩ :=
      second_foreseen_exactly lively.moves trace state reaches
    rw [lively.inevitable_iff holds counted]
    refine ⟨few, fun thread next events taken => ?_⟩
    rw [lively.inevitable_iff (lively.kept holds taken)
      (counted.step lively.moves taken).1]
    exact steps thread next events taken
  single trace state reaches := by
    have few :=
      (second_foreseen_exactly lively.moves trace state reaches).1
    unfold foreseen at few
    omega

end Lively

end Counting

/-- Where a call of `alpha` can be. -/
def Unlocked : Position → Prop
  | .outside | .testing | .creating _ | .returning => True
  | .locking | .retesting | .evaluating | .unlocking _ => False

section Alpha

variable
  {Thread : Type}
  {order : Order}

/-- A call of `alpha` is never blocked, and stays where it can be. -/
theorem unlocked_step
    (shared : Shared Thread)
    (thread : Thread)
    {position : Position}
    (unlocked : Unlocked position) :
    ∃ after next events,
      alpha order shared thread position = some (after, next, events) ∧
        Unlocked next := by
  cases position with
  | outside | returning =>
      exact ⟨_, _, _, rfl, trivial⟩
  | testing =>
      cases isInstance : shared.instance_ <;>
        simp only [alpha, isInstance] <;>
        exact ⟨_, _, _, rfl, trivial⟩
  | creating stage =>
      cases stage <;> cases order <;>
        exact ⟨_, _, _, rfl, trivial⟩
  | locking | retesting | evaluating | unlocking result =>
      exact unlocked.elim

theorem lively_alpha
    [DecidableEq Thread]
    [Fintype Thread] :
    Lively order (alpha order) fun state : State Thread =>
      ∀ thread, Unlocked (state.threads thread) where
  moves := alpha_moves
  decreases := remaining_lt_of_alpha
  initially _ := trivial
  kept := by
    intro state next thread events unlocked taken other
    simp only [system, Option.map_eq_some_iff, Prod.mk.injEq] at taken
    obtain ⟨⟨after, later, emitted⟩, stepped, rfl, rfl⟩ := taken
    obtain ⟨_, _, _, same, stays⟩ :=
      unlocked_step state.shared thread (unlocked thread)
    rw [stepped] at same
    cases same
    by_cases isThread : other = thread
    · subst isThread
      simpa using stays
    · simpa [isThread] using unlocked other
  tests shared thread := by
    cases isInstance : shared.instance_ <;> simp [alpha, isInstance]
  advances := by
    intro state thread unlocked isInside notTesting
    obtain ⟨_, _, _, stepped, -⟩ :=
      unlocked_step state.shared thread (unlocked thread)
    exact ⟨thread, isInside, notTesting, by rw [stepped]; rfl⟩

end Alpha

section Release

variable
  {Thread : Type}
  {trace events : List Event}
  {state next : State Thread}
  {thread : Thread}

/-- The call is between the lock and the end of the scope. -/
def Inside : Position → Prop
  | .retesting | .creating _ | .unlocking _ => True
  | _ => False

/-- Whoever is inside holds the mutex, and no call is where `release` is not. -/
structure Locked (state : State Thread) : Prop where
  holds :
    ∀ thread,
      Inside (state.threads thread) ↔ state.shared.mutex_ = some thread
  here :
    ∀ thread,
      state.threads thread ≠ .evaluating ∧
        state.threads thread ≠ .returning

namespace Locked

theorem initially :
    Locked
      { shared := { instance_ := none, mutex_ := none, allocated := 0 }
        threads := fun _ : Thread => .outside } where
  holds _ := by simp [Inside]
  here _ := by simp

/-- While one call is inside the others are not. -/
theorem not_inside
    (locked : Locked state)
    (isInside : Inside (state.threads thread))
    {other : Thread}
    (different : other ≠ thread) :
    ¬ Inside (state.threads other) := by
  intro otherInside
  have isOwner := (locked.holds thread).mp isInside
  rw [(locked.holds other).mp otherInside, Option.some.injEq] at isOwner
  exact different isOwner

/-- The creation of an instance stays behind the lock. -/
theorem inside_of_createThen
    {shared after : Shared Thread}
    {position : Position}
    {stage : Stage}
    (stepped :
      createThen .inOrder shared stage
          (fun tmp => .unlocking (some tmp)) =
        (after, position, events)) :
    after.mutex_ = shared.mutex_ ∧ Inside position ∧
      position ≠ .evaluating ∧ position ≠ .returning := by
  cases stage <;>
    simp only [createThen, create, Prod.mk.injEq] at stepped <;>
    obtain ⟨rfl, rfl, -⟩ := stepped <;>
    exact ⟨rfl, trivial, by simp, by simp⟩

/-- A call behind the lock can go on. -/
theorem isSome_of_inside
    {shared : Shared Thread}
    {position : Position}
    (isInside : Inside position) :
    (release shared thread position).isSome := by
  cases position with
  | retesting | creating stage | unlocking result =>
      rfl
  | outside | testing | locking | evaluating | returning =>
      exact isInside.elim

variable [DecidableEq Thread]

/-- One call moves, and the mutex stays what it was for the others. -/
theorem turn
    {shared : Shared Thread}
    {position : Position}
    (locked : Locked state)
    (own : Inside position ↔ shared.mutex_ = some thread)
    (others :
      ∀ other, other ≠ thread →
        (shared.mutex_ = some other ↔ state.shared.mutex_ = some other))
    (isHere : position ≠ .evaluating ∧ position ≠ .returning) :
    Locked
      { shared := shared
        threads := Function.update state.threads thread position } where
  holds other := by
    by_cases same : other = thread
    · subst same
      simpa using own
    · simpa [same, others other same] using locked.holds other
  here other := by
    by_cases same : other = thread
    · subst same
      simpa using isHere
    · simpa [same] using locked.here other

/-- Every step of `release` keeps the discipline of the mutex. -/
theorem step
    (locked : Locked state)
    (taken : (system release).step? state thread = some (next, events)) :
    Locked next := by
  simp only [system, Option.map_eq_some_iff, Prod.mk.injEq] at taken
  obtain ⟨⟨shared, position, emitted⟩, stepped, rfl, rfl⟩ := taken
  have before := locked.holds thread
  cases isPosition : state.threads thread with
  | outside =>
      rw [isPosition] at before
      simp only [release, isPosition, Option.some.injEq, Prod.mk.injEq]
        at stepped
      obtain ⟨rfl, rfl, rfl⟩ := stepped
      exact locked.turn before (fun _ _ => Iff.rfl) (by simp)
  | testing =>
      rw [isPosition] at before
      cases isInstance : state.shared.instance_ <;>
        simp only [release, isPosition, isInstance, Option.some.injEq,
          Prod.mk.injEq] at stepped <;>
        obtain ⟨rfl, rfl, rfl⟩ := stepped <;>
        exact locked.turn before (fun _ _ => Iff.rfl) (by simp)
  | locking =>
      simp only [release, isPosition, Option.map_eq_some_iff, Prod.mk.injEq]
        at stepped
      obtain ⟨after, isLocked, rfl, rfl, rfl⟩ := stepped
      obtain ⟨isFree, rfl⟩ := lock_spec isLocked
      refine locked.turn ⟨fun _ => rfl, fun _ => trivial⟩ ?_ (by simp)
      intro other different
      simp [isFree, Ne.symm different]
  | retesting =>
      rw [isPosition] at before
      simp only [release, isPosition, Option.some.injEq, Prod.mk.injEq]
        at stepped
      obtain ⟨rfl, rfl, rfl⟩ := stepped
      exact locked.turn before (fun _ _ => Iff.rfl) (by simp)
  | creating stage =>
      rw [isPosition] at before
      simp only [release, isPosition, Option.some.injEq] at stepped
      obtain ⟨sameMutex, isInside, isHere⟩ := inside_of_createThen stepped
      refine locked.turn ?_ (fun _ _ => by rw [sameMutex]) isHere
      rw [sameMutex]
      exact ⟨fun _ => before.mp trivial, fun _ => isInside⟩
  | unlocking result =>
      rw [isPosition] at before
      have isOwner := before.mp trivial
      simp only [release, isPosition, Option.some.injEq, Prod.mk.injEq]
        at stepped
      obtain ⟨rfl, rfl, rfl⟩ := stepped
      refine locked.turn (by simp [Inside, unlock]) ?_ (by simp)
      intro other different
      simp [unlock, isOwner, Ne.symm different]
  | evaluating | returning =>
      simp only [release, isPosition, reduceCtorEq] at stepped

end Locked

theorem lively_release
    [DecidableEq Thread]
    [Fintype Thread] :
    Lively .inOrder release (Locked : State Thread → Prop) where
  moves := release_moves
  decreases := remaining_lt_of_release
  initially := Locked.initially
  kept := Locked.step
  tests shared thread := by
    cases isInstance : shared.instance_ <;> simp [release, isInstance]
  advances := by
    intro state thread locked isInside notTesting
    cases isMutex : state.shared.mutex_ with
    | some owner =>
        -- The call that holds the mutex can go on.
        have ownerInside := (locked.holds owner).mpr isMutex
        refine ⟨owner, ?_, ?_, Locked.isSome_of_inside ownerInside⟩ <;>
          intro isOwner <;>
          rw [isOwner] at ownerInside <;>
          exact ownerInside
    | none =>
        -- Nobody is inside, so this call can only be at the lock.
        have notInside : ¬ Inside (state.threads thread) := by
          rw [locked.holds, isMutex]
          simp
        obtain ⟨notEvaluating, notReturning⟩ := locked.here thread
        refine ⟨thread, isInside, notTesting, ?_⟩
        cases isPosition : state.threads thread with
        | locking =>
            simp [release, lock, isMutex]
        | outside => exact absurd isPosition isInside
        | testing => exact absurd isPosition notTesting
        | evaluating => exact absurd isPosition notEvaluating
        | returning => exact absurd isPosition notReturning
        | retesting | creating stage | unlocking result =>
            rw [isPosition] at notInside
            exact absurd trivial notInside

end Release

/--
`alpha`, in whatever order it creates, and `release` make a second instance
inevitable exactly if a call tests while another one has found the null pointer
and has not assigned yet.
-/
theorem second_instance_exactly
    {Thread : Type}
    [DecidableEq Thread]
    [Fintype Thread] :
    (∀ order, SecondExactly order (@alpha Thread order)) ∧
      SecondExactly .inOrder (@release Thread) :=
  ⟨fun _ => lively_alpha.secondExactly, lively_release.secondExactly⟩

end CsPrimer.Singleton
