import CsPrimer.Shm.IncrCorrect

namespace CsPrimer.Shm.Incr2

open Library

/-!
# `incr2.c`: the end of a shared semaphore

The semaphore of `incr2.c` is in the mapping with the counter, and parent and
child share it as they share the named one of `incr.c`.  The parent destroys it
behind its own loop, without waiting for the child.  Whoever uses it from then
on does something undefined, and the run says nothing more.
-/

/-- The mapping and the processes, and what has become of the semaphore. -/
structure SharedState where
  shared : State
  destroyed : Bool
  fault : Bool

/-- A step of a loop, or the call behind the loop of the parent. -/
inductive Action where
  | loop (pid : Process)
  | semDestroy
  deriving Repr, DecidableEq

/-- The next step of a process is `sem_wait` or `sem_post`. -/
def UsesMutex (loop : Loop) : Prop :=
  loop.position = .waiting ∨ loop.position = .posting
  deriving Decidable

/-- The next step of a process, and the end of the semaphore. -/
def step?
    (nloop : Nat)
    (state : SharedState) :
    Action → Option (SharedState × List Event)
  | .loop pid =>
      if state.fault then
        none
      else if state.destroyed ∧ UsesMutex (state.shared.loops pid) then
        some ({ state with fault := true }, [])
      else
        (Shm.step? .named nloop state.shared pid).map fun outcome =>
          ({ state with shared := outcome.1 }, outcome.2)
  | .semDestroy =>
      if state.fault ∨ state.destroyed then
        none
      else if (state.shared.loops .parent).position = .returned then
        some ({ state with destroyed := true }, [])
      else
        none

/-- The interleavings of the two processes. -/
def system (nloop : Nat) : System SharedState Action Event where
  initial :=
    { shared := (Shm.system .named nloop).initial
      destroyed := false
      fault := false }
  step? :=
    step? nloop

/-- Nothing can be done any more. -/
def Stopped (nloop : Nat) (state : SharedState) : Prop :=
  ∀ action, step? nloop state action = none

/-- The semaphore is destroyed, and the child may still use it. -/
def Doomed (nloop : Nat) (state : SharedState) : Prop :=
  state.destroyed = true ∧
    ∃ actions final later,
      (system nloop).run? state actions = some (final, later) ∧
        final.fault = true

/-- The child has no iteration left. -/
def ChildDone (nloop : Nat) (state : SharedState) : Prop :=
  (state.shared.loops .child).position = .returned ∨
    (state.shared.loops .child).position = .testing ∧
      nloop ≤ (state.shared.loops .child).i
  deriving Decidable

/-- The parent destroys the semaphore when the child is done. -/
def DestroysLast (nloop : Nat) (state : SharedState) : Action → Prop
  | .loop _ => True
  | .semDestroy => ChildDone nloop state

instance
    (nloop : Nat)
    (state : SharedState)
    (action : Action) :
    Decidable (DestroysLast nloop state action) :=
  match action with
  | .loop _ => .isTrue trivial
  | .semDestroy =>
      inferInstanceAs (Decidable (ChildDone nloop state))

/-- What a step can be. -/
inductive Taken (nloop : Nat) (state : SharedState) :
    Action → SharedState → List Event → Prop where
  | faults
      {pid : Process}
      (alive : state.fault = false)
      (isDestroyed : state.destroyed = true)
      (uses : UsesMutex (state.shared.loops pid)) :
      Taken nloop state (.loop pid) { state with fault := true } []
  | loops
      {pid : Process}
      {next : State}
      {events : List Event}
      (moved : Shm.step? .named nloop state.shared pid = some (next, events)) :
      Taken nloop state (.loop pid) { state with shared := next } events
  | destroys
      (notDestroyed : state.destroyed = false)
      (returned : (state.shared.loops .parent).position = .returned) :
      Taken nloop state .semDestroy { state with destroyed := true } []

section Steps

variable
  {nloop : Nat}
  {trace events : List Event}
  {state next : SharedState}
  {action : Action}
  {pid : Process}

/-- A loop that has returned or is at its test makes no use at once. -/
theorem not_usesMutex
    {loop : Loop}
    (outside : loop.position = .returned ∨ loop.position = .testing) :
    ¬ UsesMutex loop := by
  rintro (isWaiting | isPosting)
  · rw [isWaiting] at outside
    simp at outside
  · rw [isPosting] at outside
    simp at outside

theorem taken_of_step?
    (taken : step? nloop state action = some (next, events)) :
    Taken nloop state action next events := by
  cases action with
  | loop pid =>
      simp only [step?] at taken
      split at taken
      case isTrue =>
        contradiction
      case isFalse alive =>
        split at taken
        case isTrue uses =>
          obtain ⟨rfl, rfl⟩ := Prod.mk.inj (Option.some.inj taken)
          exact .faults (eq_false_of_ne_true alive) uses.1 uses.2
        case isFalse =>
          obtain ⟨⟨moved, printed⟩, isMove, same⟩ :=
            Option.map_eq_some_iff.mp taken
          obtain ⟨rfl, rfl⟩ := Prod.mk.inj same
          exact .loops isMove
  | semDestroy =>
      simp only [step?] at taken
      split at taken
      case isTrue =>
        contradiction
      case isFalse alive =>
        split at taken
        case isTrue returned =>
          obtain ⟨rfl, rfl⟩ := Prod.mk.inj (Option.some.inj taken)
          exact .destroys (by simpa using fun is => alive (.inr is)) returned
        case isFalse =>
          contradiction

/-- A use of the semaphore is undefined once it is destroyed. -/
theorem step?_uses
    (alive : state.fault = false)
    (isDestroyed : state.destroyed = true)
    (uses : UsesMutex (state.shared.loops pid)) :
    step? nloop state (.loop pid) =
      some ({ state with fault := true }, []) := by
  simp [step?, alive, isDestroyed, uses]

/-- Other steps of a loop are those of the loop. -/
theorem step?_loop
    {shared : State}
    (alive : state.fault = false)
    (noUse : ¬ (state.destroyed = true ∧ UsesMutex (state.shared.loops pid)))
    (moved : Shm.step? .named nloop state.shared pid = some (shared, events)) :
    step? nloop state (.loop pid) =
      some ({ state with shared := shared }, events) := by
  simp only [step?, alive, if_neg noUse, moved]
  rfl

/-- The counter and the loops run as they do in `incr.c`. -/
theorem reaches_shared
    (reaches : (system nloop).Reaches trace state) :
    (Shm.system .named nloop).Reaches trace state.shared := by
  induction reaches with
  | initial =>
      exact .initial
  | step _ taken inductionHypothesis =>
      cases taken_of_step? taken with
      | faults | destroys =>
          rwa [List.append_nil]
      | loops moved =>
          exact inductionHypothesis.step moved

end Steps

section Lifetime

variable
  {nloop : Nat}
  {trace events : List Event}
  {state next : SharedState}
  {action : Action}

/-- The parent has returned and the child is done. -/
structure Over (nloop : Nat) (state : SharedState) : Prop where
  alive : state.fault = false
  parent : (state.shared.loops .parent).position = .returned
  child : ChildDone nloop state

/-- A child that is done can only return. -/
theorem Over.preserved
    (isOver : Over nloop state)
    (taken : step? nloop state action = some (next, events)) :
    Over nloop next := by
  obtain ⟨alive, parent, child⟩ := isOver
  cases taken_of_step? taken with
  | @faults pid _ _ uses =>
      cases pid with
      | parent =>
          exact absurd uses (not_usesMutex (.inl parent))
      | child =>
          exact absurd uses (not_usesMutex (child.imp_right And.left))
  | @loops pid _ _ moved =>
      cases pid with
      | parent =>
          simp only [Shm.step?, parent, reduceCtorEq] at moved
      | child =>
          rcases child with returned | ⟨isTesting, done⟩
          · simp only [Shm.step?, returned, reduceCtorEq] at moved
          · simp only [Shm.step?, isTesting, if_neg (Nat.not_lt.mpr done),
              Option.some.injEq, Prod.mk.injEq] at moved
            obtain ⟨rfl, rfl⟩ := moved
            refine ⟨alive, ?_, .inl ?_⟩
            · simpa using parent
            · simp
  | destroys =>
      exact ⟨alive, parent, child⟩

theorem Over.not_doomed (isOver : Over nloop state) : ¬ Doomed nloop state := by
  rintro ⟨-, actions, final, later, ran, isFault⟩
  have stillOver : Over nloop final :=
    System.run?_preserves_state Over.preserved isOver ran
  rw [stillOver.alive] at isFault
  contradiction

/-- What can still come before a use can come before the step to it as well. -/
theorem Doomed.of_step
    (isDestroyed : state.destroyed = true)
    (taken : step? nloop state action = some (next, events))
    (doomed : Doomed nloop next) :
    Doomed nloop state := by
  obtain ⟨-, actions, final, later, ran, isFault⟩ := doomed
  exact ⟨isDestroyed, action :: actions, final, events ++ later,
    System.run?_cons_eq_some.mpr ⟨next, events, later, taken, ran, rfl⟩,
    isFault⟩

/-- A use is one step away. -/
theorem Doomed.of_uses
    (alive : state.fault = false)
    (isDestroyed : state.destroyed = true)
    (uses : UsesMutex (state.shared.loops .child)) :
    Doomed nloop state := by
  refine ⟨isDestroyed, [.loop .child], { state with fault := true }, [], ?_,
    rfl⟩
  exact System.run?_cons_eq_some.mpr
    ⟨_, [], [], step?_uses alive isDestroyed uses, rfl, rfl⟩

/-- The child goes on without a use of the semaphore. -/
theorem Doomed.of_child
    {shared : State}
    (alive : state.fault = false)
    (isDestroyed : state.destroyed = true)
    (noUse : ¬ UsesMutex (state.shared.loops .child))
    (moved :
      Shm.step? .named nloop state.shared .child = some (shared, events))
    (doomed : Doomed nloop { state with shared := shared }) :
    Doomed nloop state :=
  doomed.of_step isDestroyed
    (step?_loop alive (fun both => noUse both.2) moved)

/-- The counter has room for what the child stores next. -/
theorem fits_of_claimed
    {shared : State}
    (invariant : Invariant .named nloop trace shared)
    (claimed : Claimed trace shared)
    (fits : 2 * nloop ≤ intMax) :
    ((shared.loops .child).position = .loading → shared.ptr + 1 ≤ intMax) ∧
      ∀ value, (shared.loops .child).position = .storing value →
        value + 1 ≤ intMax := by
  have sums := claimed.loaded
  have parentLoaded := Loop.loaded_le (invariant.ok .parent)
  have childLoaded := Loop.loaded_le (invariant.ok .child)
  have childOk := invariant.ok .child
  rw [total_eq_add Loop.loaded] at sums
  constructor
  · intro isLoading
    have notYet :
        (shared.loops .child).loaded = (shared.loops .child).i := by
      simp only [Loop.loaded, isLoading]
    simp only [Loop.Ok, isLoading] at childOk
    omega
  · intro value isStoring
    have isCurrent := claimed.current .child value isStoring
    have pending := weight_le_total Loop.pending shared.loops .child
    simp only [Loop.pending, isStoring] at pending
    omega

theorem Doomed.of_printing
    (value : Nat)
    (alive : state.fault = false)
    (isDestroyed : state.destroyed = true)
    (isPrinting : (state.shared.loops .child).position = .printing value) :
    Doomed nloop state := by
  have moved :
      Shm.step? .named nloop state.shared .child =
        some (state.shared.goTo .child
          { state.shared.loops .child with position := .posting },
          [.printed .child value]) := by
    simp only [Shm.step?, isPrinting]
  refine Doomed.of_child alive isDestroyed ?_ moved
    (.of_uses alive isDestroyed (.inr ?_))
  · simp [UsesMutex, isPrinting]
  · simp

theorem Doomed.of_storing
    {value : Nat}
    (alive : state.fault = false)
    (isDestroyed : state.destroyed = true)
    (isStoring : (state.shared.loops .child).position = .storing value)
    (fits : value + 1 ≤ intMax) :
    Doomed nloop state := by
  have moved :
      Shm.step? .named nloop state.shared .child =
        some ({ state.shared with ptr := value + 1 }.goTo .child
          { state.shared.loops .child with position := .printing value },
          []) := by
    simp only [Shm.step?, isStoring, if_pos fits]
  refine Doomed.of_child alive isDestroyed ?_ moved
    (.of_printing value alive isDestroyed ?_)
  · simp [UsesMutex, isStoring]
  · simp

theorem Doomed.of_loading
    (alive : state.fault = false)
    (isDestroyed : state.destroyed = true)
    (isLoading : (state.shared.loops .child).position = .loading)
    (fits : state.shared.ptr + 1 ≤ intMax) :
    Doomed nloop state := by
  have moved :
      Shm.step? .named nloop state.shared .child =
        some (state.shared.goTo .child
          { state.shared.loops .child with
            position := .storing state.shared.ptr }, []) := by
    simp only [Shm.step?, isLoading]
  refine Doomed.of_child alive isDestroyed ?_ moved
    (.of_storing alive isDestroyed ?_ fits)
  · simp [UsesMutex, isLoading]
  · simp

theorem Doomed.of_testing
    (alive : state.fault = false)
    (isDestroyed : state.destroyed = true)
    (isTesting : (state.shared.loops .child).position = .testing)
    (more : (state.shared.loops .child).i < nloop) :
    Doomed nloop state := by
  have moved :
      Shm.step? .named nloop state.shared .child =
        some (state.shared.goTo .child
          { state.shared.loops .child with position := .waiting }, []) := by
    simp only [Shm.step?, isTesting, if_pos more]
  refine Doomed.of_child alive isDestroyed ?_ moved
    (.of_uses alive isDestroyed (.inl ?_))
  · simp [UsesMutex, isTesting]
  · simp

/-- A child that is not done comes to a use of the semaphore. -/
theorem Doomed.of_not_done
    (alive : state.fault = false)
    (isDestroyed : state.destroyed = true)
    (loadFits :
      (state.shared.loops .child).position = .loading →
        state.shared.ptr + 1 ≤ intMax)
    (storeFits :
      ∀ value, (state.shared.loops .child).position = .storing value →
        value + 1 ≤ intMax)
    (notDone : ¬ ChildDone nloop state) :
    Doomed nloop state := by
  cases isPosition : (state.shared.loops .child).position with
  | testing =>
      refine .of_testing alive isDestroyed isPosition ?_
      exact Nat.lt_of_not_le fun done => notDone (.inr ⟨isPosition, done⟩)
  | waiting =>
      exact .of_uses alive isDestroyed (.inl isPosition)
  | loading =>
      exact .of_loading alive isDestroyed isPosition (loadFits isPosition)
  | storing value =>
      exact .of_storing alive isDestroyed isPosition
        (storeFits value isPosition)
  | printing value =>
      exact .of_printing value alive isDestroyed isPosition
  | posting =>
      exact .of_uses alive isDestroyed (.inr isPosition)
  | returned =>
      exact absurd (.inl isPosition) notDone

/-- What the parent destroys is doomed exactly if the child is not done. -/
theorem doomed_iff_of_destroyed
    (reaches : (Shm.system .named nloop).Reaches trace state.shared)
    (fits : 2 * nloop ≤ intMax)
    (alive : state.fault = false)
    (isDestroyed : state.destroyed = true)
    (returned : (state.shared.loops .parent).position = .returned) :
    Doomed nloop state ↔ ¬ ChildDone nloop state := by
  obtain ⟨invariant, claimed⟩ := claimed_of_named reaches
  obtain ⟨loadFits, storeFits⟩ := fits_of_claimed invariant claimed fits
  constructor
  · intro doomed done
    exact Over.not_doomed ⟨alive, returned, done⟩ doomed
  · exact Doomed.of_not_done alive isDestroyed loadFits storeFits

end Lifetime

section Runs

variable
  {nloop : Nat}
  {trace events : List Event}
  {state next : SharedState}
  {action : Action}

/-- What the states of a run have as long as none is doomed. -/
structure Ready (nloop : Nat) (state : SharedState) : Prop where
  alive : state.fault = false
  reached : ∃ trace, (Shm.system .named nloop).Reaches trace state.shared

/-- A step that is not the end of the semaphore does not doom it. -/
theorem Ready.preserved
    (ready : Ready nloop state)
    (good : ¬ Doomed nloop state)
    (taken : step? nloop state action = some (next, events)) :
    Ready nloop next := by
  obtain ⟨alive, trace, reaches⟩ := ready
  cases taken_of_step? taken with
  | @faults pid _ isDestroyed uses =>
      refine absurd ?_ good
      exact ⟨isDestroyed, [.loop pid], { state with fault := true }, [],
        System.run?_cons_eq_some.mpr ⟨_, [], [], taken, rfl, rfl⟩, rfl⟩
  | loops moved =>
      exact ⟨alive, _, reaches.step moved⟩
  | destroys =>
      exact ⟨alive, trace, reaches⟩

/-- Before its end the semaphore is not doomed, and a loop cannot doom it. -/
theorem not_doomed_of_loop
    {pid : Process}
    (good : ¬ Doomed nloop state)
    (taken : step? nloop state (.loop pid) = some (next, events)) :
    ¬ Doomed nloop next := by
  intro doomed
  have isDestroyed : state.destroyed = true := by
    cases taken_of_step? taken with
    | faults _ isDestroyed =>
        exact isDestroyed
    | loops =>
        exact doomed.1
  exact good (doomed.of_step isDestroyed taken)

/-- A semaphore that is destroyed last is not doomed. -/
theorem Ready.not_doomed
    (ready : Ready nloop state)
    (good : ¬ Doomed nloop state)
    (last : DestroysLast nloop state action)
    (taken : step? nloop state action = some (next, events)) :
    ¬ Doomed nloop next := by
  cases action with
  | loop pid =>
      exact not_doomed_of_loop good taken
  | semDestroy =>
      cases taken_of_step? taken with
      | destroys _ returned =>
          exact Over.not_doomed ⟨ready.alive, returned, last⟩

/-- If the counter has room, the guarantee is exact. -/
theorem Ready.doomed_iff
    (ready : Ready nloop state)
    (good : ¬ Doomed nloop state)
    (fits : 2 * nloop ≤ intMax)
    (taken : step? nloop state action = some (next, events)) :
    Doomed nloop next ↔ ¬ DestroysLast nloop state action := by
  cases action with
  | loop pid =>
      exact iff_of_false (not_doomed_of_loop good taken)
        (not_not_intro trivial)
  | semDestroy =>
      obtain ⟨alive, trace, reaches⟩ := ready
      cases taken_of_step? taken with
      | destroys _ returned =>
          exact doomed_iff_of_destroyed reaches fits alive rfl returned

theorem ready_of_guarded
    (reaches :
      ((system nloop).guarded (DestroysLast nloop)).Reaches trace state) :
    Ready nloop state ∧ ¬ Doomed nloop state := by
  induction reaches with
  | initial =>
      refine ⟨⟨rfl, [], .initial⟩, ?_⟩
      rintro ⟨isDestroyed, -⟩
      contradiction
  | step _ taken inductionHypothesis =>
      obtain ⟨last, moved⟩ := System.guarded_step?_eq_some.mp taken
      obtain ⟨ready, good⟩ := inductionHypothesis
      exact ⟨ready.preserved good moved, ready.not_doomed good last moved⟩

/-- When nothing can be done any more both loops have stopped. -/
theorem stopped_shared
    (alive : state.fault = false)
    (stopped : Stopped nloop state) :
    Shm.Stopped .named nloop state.shared := by
  intro pid
  have noStep := stopped (.loop pid)
  by_cases use :
      state.destroyed = true ∧ UsesMutex (state.shared.loops pid)
  · rw [step?_uses alive use.1 use.2] at noStep
    contradiction
  · cases moved : Shm.step? .named nloop state.shared pid with
    | none =>
        rfl
    | some outcome =>
        rw [step?_loop alive use moved] at noStep
        contradiction

/-- Behind both loops and `sem_destroy` nothing is left to do. -/
theorem stopped_of_returned
    (isDestroyed : state.destroyed = true)
    (returned : Returned state.shared) :
    Stopped nloop state := by
  intro action
  cases taken : step? nloop state action with
  | none =>
      rfl
  | some outcome =>
      exfalso
      obtain ⟨next, events⟩ := outcome
      cases taken_of_step? taken with
      | @faults pid _ _ uses =>
          exact not_usesMutex (.inl (returned pid)) uses
      | @loops pid _ _ moved =>
          rw [Shm.stopped_of_returned returned pid] at moved
          contradiction
      | destroys notDestroyed =>
          rw [isDestroyed] at notDestroyed
          contradiction

end Runs

section Length

/-- A bound on the steps a loop has left. -/
def left (nloop : Nat) (loop : Loop) : Nat :=
  match loop.position with
  | .testing =>
      if loop.i < nloop then 6 * (nloop - (loop.i + 1)) + 7 else 1
  | .waiting => 6 * (nloop - (loop.i + 1)) + 6
  | .loading => 6 * (nloop - (loop.i + 1)) + 5
  | .storing _ => 6 * (nloop - (loop.i + 1)) + 4
  | .printing _ => 6 * (nloop - (loop.i + 1)) + 3
  | .posting => 6 * (nloop - (loop.i + 1)) + 2
  | .returned => 0

theorem left_initial (nloop : Nat) :
    left nloop Loop.initial = 6 * nloop + 1 := by
  change (if 0 < nloop then 6 * (nloop - (0 + 1)) + 7 else 1) = _
  split <;> omega

/-- A bound on the steps a run has left. -/
def measure (nloop : Nat) (state : SharedState) : Nat :=
  total (left nloop) state.shared.loops +
    (if state.destroyed then 0 else 1) + (if state.fault then 0 else 1)

variable
  {nloop : Nat}
  {events : List Event}

/-- A step of a loop changes the loop only, and brings it nearer to its end. -/
theorem left_lt
    {shared next : State}
    {pid : Process}
    (moved : Shm.step? .named nloop shared pid = some (next, events)) :
    ∃ loop,
      next.loops = Function.update shared.loops pid loop ∧
        left nloop loop < left nloop (shared.loops pid) := by
  cases Shm.taken_of_step? moved with
  | goesOn isTesting more =>
      refine ⟨_, rfl, ?_⟩
      simp only [left, isTesting, if_pos more]
      omega
  | leaves isTesting done =>
      refine ⟨_, rfl, ?_⟩
      simp only [left, isTesting, if_neg done]
      omega
  | waits isWaiting =>
      refine ⟨_, by rw [State.goTo_loops, State.setMutex_loops], ?_⟩
      simp only [left, isWaiting]
      omega
  | loads isLoading =>
      refine ⟨_, rfl, ?_⟩
      simp only [left, isLoading]
      omega
  | stores isStoring =>
      refine ⟨_, rfl, ?_⟩
      simp only [left, isStoring]
      omega
  | prints isPrinting =>
      refine ⟨_, rfl, ?_⟩
      simp only [left, isPrinting]
      omega
  | posts isPosting =>
      refine ⟨_, by rw [State.goTo_loops, State.setMutex_loops], ?_⟩
      simp only [left, isPosting]
      split <;> omega

theorem measure_lt
    {state next : SharedState}
    {action : Action}
    (taken : step? nloop state action = some (next, events)) :
    measure nloop next < measure nloop state := by
  cases taken_of_step? taken with
  | faults alive =>
      simp [measure, alive]
  | @loops pid _ _ moved =>
      obtain ⟨loop, isNext, less⟩ := left_lt moved
      have updated := total_update (left nloop) state.shared.loops pid loop
      simp only [measure, isNext]
      omega
  | destroys notDestroyed =>
      simp [measure, notDestroyed]

/-- Every run ends. -/
theorem length_le
    {state : SharedState}
    {actions : List Action}
    (ran :
      (system nloop).run? (system nloop).initial actions =
        some (state, events)) :
    actions.length ≤ 12 * nloop + 4 := by
  have bound := System.length_le_of_run? (measure nloop) measure_lt ran
  have start : measure nloop (system nloop).initial = 12 * nloop + 4 := by
    change total (left nloop) (fun _ => Loop.initial) + 1 + 1 = _
    rw [total_eq_add, left_initial]
    omega
  omega

end Length

/--
If the parent destroys the semaphore last, it is not used afterwards, and the
program counts exactly whenever the counter can hold the number; runs are
finite.  If the counter can hold it, a call of `sem_destroy` leaves a use of the
semaphore ahead exactly if the child is not done.
-/
theorem incr2_counts (nloop : Nat) :
    (∀ trace state,
        ((system nloop).guarded (DestroysLast nloop)).Reaches trace state →
          ¬ Doomed nloop state ∧
            (Stopped nloop state →
              (Counted nloop trace state.shared ↔ 2 * nloop ≤ intMax))) ∧
      (∀ actions final trace,
        (system nloop).run? (system nloop).initial actions =
            some (final, trace) →
          actions.length ≤ 12 * nloop + 4) ∧
      (2 * nloop ≤ intMax →
        (system nloop).BadExactlyOutside (DestroysLast nloop)
          (Doomed nloop)) := by
  refine ⟨?_, fun _ _ _ => length_le, ?_⟩
  · intro trace state reaches
    obtain ⟨ready, good⟩ := ready_of_guarded reaches
    refine ⟨good, fun stopped => ?_⟩
    have shared := reaches_shared reaches.of_guarded
    constructor
    · intro counted
      exact counted.2 ▸ (claimed_of_named shared).1.isInt
    · exact counted_of_named shared (stopped_shared ready.alive stopped)
  · intro fits
    refine .of_invariant (Ready nloop) ?_ ?_
    · exact (ready_of_guarded .initial).symm
    · intro state next action events good ready taken
      exact ⟨ready.doomed_iff good fits taken, ready.preserved good taken⟩

/-- The child is done before the parent begins. -/
def childFirst : List Action :=
  List.replicate 19 (.loop .child) ++ List.replicate 19 (.loop .parent) ++
    [.semDestroy]

theorem incr2_counts_childFirst :
    ∃ trace state,
      ((system 3).guarded (DestroysLast 3)).Reaches trace state ∧
        state.destroyed = true ∧ ¬ Doomed 3 state ∧
        Counted 3 trace state.shared := by
  obtain ⟨trace, state, reaches, observed⟩ :=
    System.Reaches.exists_of_run?
      (by decide +kernel :
        (((system 3).guarded (DestroysLast 3)).run? (system 3).initial
          childFirst).any
          (fun outcome => decide (
            outcome.1.destroyed = true ∧
              (outcome.1.shared.loops .parent).position = .returned ∧
              (outcome.1.shared.loops .child).position = .returned)) = true)
  obtain ⟨isDestroyed, parent, child⟩ := of_decide_eq_true observed
  obtain ⟨good, counts⟩ := (incr2_counts 3).1 trace state reaches
  have stopped : Stopped 3 state :=
    stopped_of_returned isDestroyed (returned_of_both parent child)
  exact ⟨trace, state, reaches, isDestroyed, good,
    (counts stopped).mpr (by decide)⟩

/-- The parent is done, and destroys the semaphore before the child begins. -/
def parentFirst : List Action :=
  List.replicate 7 (.loop .parent) ++ [.semDestroy]

/-- The child then waits on what is no semaphore any more. -/
theorem doomed_parentFirst :
    ¬ ∀ nloop trace state,
      (system nloop).Reaches trace state → ¬ Doomed nloop state := by
  intro always
  obtain ⟨trace, state, reaches, observed⟩ :=
    System.Reaches.exists_of_run?
      (by decide +kernel :
        ((system 1).run? (system 1).initial parentFirst).any
          (fun outcome => outcome.1.destroyed &&
            ((system 1).run? outcome.1
              [.loop .child, .loop .child]).any
                (fun later => later.1.fault)) = true)
  obtain ⟨isDestroyed, isUsed⟩ := Bool.and_eq_true_iff.mp observed
  obtain ⟨⟨final, later⟩, ran, isFault⟩ := (Option.any_eq_true _ _).mp isUsed
  exact always 1 trace state reaches
    ⟨isDestroyed, _, final, later, ran, isFault⟩

end CsPrimer.Shm.Incr2
