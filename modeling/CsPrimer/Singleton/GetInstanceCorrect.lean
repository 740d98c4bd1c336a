import CsPrimer.Singleton.GetInstance

namespace CsPrimer.Singleton

open Library

/-!
# How many instances there are, and when they are constructed

Behind the mutex there is one creation at most, and whoever holds the mutex
knows how far it has come.  `gamma` reads `instance_` without the mutex as
well, and there it can meet a creation that has assigned before it constructs.
-/

/-- The instance has not been created yet, or it is the constructed one. -/
def Settled
    {Thread : Type}
    (trace : List Event)
    (shared : Shared Thread) : Prop :=
  (shared.instance_ = none ∧ shared.allocated = 0 ∧
      .constructed 0 ∉ trace) ∨
    (shared.instance_ = some 0 ∧ shared.allocated = 1 ∧
      .constructed 0 ∈ trace)

/-- The instance is the constructed one. -/
def Made
    {Thread : Type}
    (trace : List Event)
    (shared : Shared Thread) : Prop :=
  shared.instance_ = some 0 ∧ shared.allocated = 1 ∧ .constructed 0 ∈ trace

/-- What the thread that creates the instance knows. -/
def Stage.Ok
    {Thread : Type}
    (order : Order)
    (trace : List Event)
    (shared : Shared Thread) : Stage → Prop
  | .allocating =>
      shared.instance_ = none ∧ shared.allocated = 0 ∧
        .constructed 0 ∉ trace
  | .constructing mem =>
      mem = 0 ∧ shared.allocated = 1 ∧ .constructed 0 ∉ trace ∧
        match order with
        | .inOrder => shared.instance_ = none
        | .reordered => shared.instance_ = some 0
  | .assigning mem =>
      mem = 0 ∧ shared.allocated = 1 ∧ shared.instance_ = none ∧
        match order with
        | .inOrder => .constructed 0 ∈ trace
        | .reordered => .constructed 0 ∉ trace
  | .created mem =>
      mem = 0 ∧ Made trace shared

/-- What the thread that holds the mutex knows. -/
def Position.Ok
    {Thread : Type}
    (order : Order)
    (trace : List Event)
    (shared : Shared Thread) : Position → Prop
  | .retesting => Settled trace shared
  | .creating stage => stage.Ok order trace shared
  | .evaluating => Made trace shared
  | .unlocking result => result = some 0 ∧ Made trace shared
  | .outside | .testing | .locking | .returning => False

/-- The thread is between the lock and the end of the scope. -/
def Position.Held : Position → Prop
  | .retesting | .creating _ | .evaluating | .unlocking _ => True
  | .outside | .testing | .locking | .returning => False

/-- An instance is constructed once, and returned after that. -/
def Proper (before : List Event) : Event → Prop
  | .constructed mem => mem = 0 ∧ .constructed mem ∉ before
  | .returned result => result = some 0 ∧ .constructed 0 ∈ before

theorem Settled.made
    {Thread : Type}
    {trace : List Event}
    {shared : Shared Thread}
    {mem : Nat}
    (settled : Settled trace shared)
    (isSome : shared.instance_ = some mem) :
    mem = 0 ∧ Made trace shared := by
  rcases settled with ⟨isNone, -, -⟩ | made
  · rw [isNone] at isSome
    cases isSome
  · refine ⟨?_, made⟩
    have same := made.1.symm.trans isSome
    simpa using same.symm

theorem Settled.fresh
    {Thread : Type}
    {trace : List Event}
    {shared : Shared Thread}
    (settled : Settled trace shared)
    (isNone : shared.instance_ = none) :
    shared.instance_ = none ∧ shared.allocated = 0 ∧
      .constructed 0 ∉ trace := by
  rcases settled with fresh | made
  · exact fresh
  · rw [made.1] at isNone
    cases isNone

theorem Position.Ok.held
    {Thread : Type}
    {order : Order}
    {trace : List Event}
    {shared : Shared Thread}
    {position : Position}
    (ok : position.Ok order trace shared) :
    position.Held := by
  cases position <;> simp_all [Position.Ok, Position.Held]

/-- No more than one instance is ever allocated. -/
theorem Position.Ok.allocated_le
    {Thread : Type}
    {order : Order}
    {trace : List Event}
    {shared : Shared Thread}
    {position : Position}
    (ok : position.Ok order trace shared) :
    shared.allocated ≤ 1 := by
  cases position with
  | retesting =>
      rcases ok with ⟨-, isZero, -⟩ | ⟨-, isOne, -⟩ <;> omega
  | creating stage =>
      cases stage <;>
        simp only [Position.Ok, Stage.Ok, Made] at ok <;>
        omega
  | evaluating =>
      exact Nat.le_of_eq ok.2.1
  | unlocking result =>
      exact Nat.le_of_eq ok.2.2.1
  | outside | testing | locking | returning =>
      exact ok.elim

/-- The instance is the first allocation. -/
theorem Position.Ok.instance_eq
    {Thread : Type}
    {order : Order}
    {trace : List Event}
    {shared : Shared Thread}
    {position : Position}
    {mem : Nat}
    (ok : position.Ok order trace shared)
    (isInstance : shared.instance_ = some mem) :
    mem = 0 := by
  cases position with
  | retesting =>
      exact (Settled.made ok isInstance).1
  | creating stage =>
      cases stage <;> cases order <;>
        simp only [Position.Ok, Stage.Ok, Made, isInstance, reduceCtorEq,
          Option.some.injEq, false_and, and_false] at ok <;>
        omega
  | evaluating =>
      exact (Settled.made (.inr ok) isInstance).1
  | unlocking result =>
      exact (Settled.made (.inr ok.2) isInstance).1
  | outside | testing | locking | returning =>
      exact ok.elim

section Creating

variable
  {Thread : Type}
  {order : Order}
  {trace events : List Event}
  {shared after : Shared Thread}
  {stage : Stage}

/-- The construction of the only instance. -/
theorem atEvery_constructed
    (fresh : .constructed 0 ∉ trace) :
    AtEvery (fun before => Proper (trace ++ before)) [.constructed 0] := by
  refine AtEvery.snoc AtEvery.nil ?_
  simpa [Proper] using fresh

/-- A step of a creation brings it one stage further. -/
theorem create_spec
    {later : Stage}
    (ok : stage.Ok order trace shared)
    (stepped : create order shared stage = (after, later, events)) :
    later.Ok order (trace ++ events) after ∧
      after.mutex_ = shared.mutex_ ∧
      (shared.instance_ = some 0 → after.instance_ = some 0) ∧
      AtEvery (fun before => Proper (trace ++ before)) events := by
  cases stage with
  | allocating =>
      obtain ⟨isNone, isZero, fresh⟩ := ok
      cases order <;>
        simp only [create, Prod.mk.injEq] at stepped <;>
        obtain ⟨rfl, rfl, rfl⟩ := stepped <;>
        simp [Stage.Ok, isNone, isZero, fresh, AtEvery.nil]
  | constructing mem =>
      obtain ⟨rfl, isOne, fresh, assigned⟩ := ok
      cases order <;>
        simp only [create, Prod.mk.injEq] at stepped <;>
        obtain ⟨rfl, rfl, rfl⟩ := stepped <;>
        simp only at assigned <;>
        simp [Stage.Ok, Made, isOne, assigned, atEvery_constructed fresh]
  | assigning mem =>
      obtain ⟨rfl, isOne, isNone, constructed⟩ := ok
      cases order <;>
        simp only [create, Prod.mk.injEq] at stepped <;>
        obtain ⟨rfl, rfl, rfl⟩ := stepped <;>
        simp only at constructed <;>
        simp [Stage.Ok, Made, isOne, constructed, AtEvery.nil]
  | created mem =>
      simp only [create, Prod.mk.injEq] at stepped
      obtain ⟨rfl, rfl, rfl⟩ := stepped
      exact ⟨by simpa using ok, rfl, id, AtEvery.nil⟩

/-- Behind the last stage the call goes on, before it the creation does. -/
theorem createThen_spec
    {behind : Nat → Position}
    {next : Position}
    (ok : stage.Ok order trace shared)
    (stepped : createThen order shared stage behind = (after, next, events)) :
    ((next = behind 0 ∧ Made (trace ++ events) after) ∨
        ∃ later, next = .creating later ∧
          later.Ok order (trace ++ events) after) ∧
      after.mutex_ = shared.mutex_ ∧
      (shared.instance_ = some 0 → after.instance_ = some 0) ∧
      AtEvery (fun before => Proper (trace ++ before)) events := by
  rcases isStep : create order shared stage with ⟨other, later, emitted⟩
  have spec := create_spec ok isStep
  cases later with
  | created mem =>
      simp only [createThen, isStep, Prod.mk.injEq] at stepped
      obtain ⟨rfl, rfl, rfl⟩ := stepped
      obtain ⟨⟨rfl, made⟩, others⟩ := spec
      exact ⟨.inl ⟨rfl, made⟩, others⟩
  | allocating | constructing mem | assigning mem =>
      simp only [createThen, isStep, Prod.mk.injEq] at stepped
      obtain ⟨rfl, rfl, rfl⟩ := stepped
      exact ⟨.inr ⟨_, rfl, spec.1⟩, spec.2⟩

end Creating

/-- What holds in every run of a version that creates behind the mutex. -/
structure Guarded
    {Thread : Type}
    (order : Order)
    (trace : List Event)
    (state : State Thread) : Prop where
  exclusive :
    ∀ thread, (state.threads thread).Held →
      state.shared.mutex_ = some thread
  free :
    state.shared.mutex_ = none → Settled trace state.shared
  owned :
    ∀ thread, state.shared.mutex_ = some thread →
      (state.threads thread).Ok order trace state.shared
  returning :
    ∀ thread, state.threads thread = .returning →
      state.shared.instance_ = some 0

namespace Guarded

variable
  {Thread : Type}
  {order : Order}
  {trace events : List Event}
  {state : State Thread}
  {thread : Thread}
  {shared : Shared Thread}
  {next : Position}

theorem initially :
    Guarded order []
      ({ shared := { instance_ := none, mutex_ := none, allocated := 0 }
         threads := fun _ => .outside } : State Thread) where
  exclusive thread isHeld := isHeld.elim
  free _ := .inl ⟨rfl, rfl, List.not_mem_nil⟩
  owned thread isOwner := by cases isOwner
  returning thread isReturning := by cases isReturning

/-- There is one instance at most. -/
theorem allocated_le (guarded : Guarded order trace state) :
    state.shared.allocated ≤ 1 := by
  cases isMutex : state.shared.mutex_ with
  | none =>
      rcases guarded.free isMutex with ⟨-, isZero, -⟩ | ⟨-, isOne, -⟩ <;>
        omega
  | some owner =>
      exact (guarded.owned owner isMutex).allocated_le

/-- The instance is the first allocation. -/
theorem instance_eq
    {mem : Nat}
    (guarded : Guarded order trace state)
    (isInstance : state.shared.instance_ = some mem) :
    mem = 0 := by
  cases isMutex : state.shared.mutex_ with
  | none =>
      exact ((guarded.free isMutex).made isInstance).1
  | some owner =>
      exact (guarded.owned owner isMutex).instance_eq isInstance

/-- What the holder of the mutex knows. -/
theorem ok_of_held
    {position : Position}
    (guarded : Guarded order trace state)
    (isPosition : state.threads thread = position)
    (isHeld : position.Held) :
    position.Ok order trace state.shared := by
  subst isPosition
  exact guarded.owned thread (guarded.exclusive thread isHeld)

/-- A call that returns changes neither the instance nor what is known. -/
theorem returns
    {result : Option Nat}
    (guarded : Guarded order trace state) :
    Guarded order (trace ++ [.returned result]) state := by
  have settled :
      ∀ shared : Shared Thread, Settled trace shared →
        Settled (trace ++ [.returned result]) shared := by
    intro shared isSettled
    simpa [Settled] using isSettled
  exact
    { exclusive := guarded.exclusive
      free := fun isFree => settled _ (guarded.free isFree)
      owned := by
        intro thread isOwner
        have ok := guarded.owned thread isOwner
        cases isPosition : state.threads thread with
        | creating stage =>
            rw [isPosition] at ok
            cases stage <;>
              simp [Position.Ok, Stage.Ok, Made] at ok ⊢ <;>
              exact ok
        | retesting =>
            rw [isPosition] at ok
            exact settled _ ok
        | evaluating | unlocking result =>
            rw [isPosition] at ok
            simpa [Position.Ok, Made] using ok
        | outside | testing | locking | returning =>
            rw [isPosition] at ok
            exact ok
      returning := guarded.returning }

variable [DecidableEq Thread]

/-- The thread that holds the mutex goes on. -/
theorem works
    {position : Position}
    (guarded : Guarded order trace state)
    (isPosition : state.threads thread = position)
    (held : position.Held)
    (isMutex : shared.mutex_ = state.shared.mutex_)
    (keeps :
      state.shared.instance_ = some 0 → shared.instance_ = some 0)
    (ok : next.Ok order (trace ++ events) shared) :
    Guarded order (trace ++ events)
      { shared := shared
        threads := Function.update state.threads thread next } := by
  have isOwner : shared.mutex_ = some thread :=
    isMutex.trans (guarded.exclusive thread (isPosition ▸ held))
  exact
    { exclusive := by
        intro other isOther
        by_cases same : other = thread
        · exact same ▸ isOwner
        · simp only [Function.update_of_ne same] at isOther
          exact isMutex.trans (guarded.exclusive other isOther)
      free := by
        intro isFree
        rw [isOwner] at isFree
        cases isFree
      owned := by
        intro other isOther
        rw [isOwner] at isOther
        cases isOther
        simpa only [Function.update_self] using ok
      returning := by
        intro other isReturning
        by_cases same : other = thread
        · subst same
          simp only [Function.update_self] at isReturning
          exact (isReturning ▸ ok).elim
        · simp only [Function.update_of_ne same] at isReturning
          exact keeps (guarded.returning other isReturning) }

/-- A thread takes the mutex. -/
theorem takes
    (guarded : Guarded order trace state)
    (locked : lock state.shared thread = some shared) :
    Guarded order trace
      { shared := shared
        threads := Function.update state.threads thread .retesting } := by
  cases isMutex : state.shared.mutex_ with
  | some owner =>
      simp only [lock, isMutex, reduceCtorEq] at locked
  | none =>
      simp only [lock, isMutex, Option.some.injEq] at locked
      subst locked
      have settled := guarded.free isMutex
      exact
        { exclusive := by
            intro other isOther
            by_cases same : other = thread
            · rw [same]
            · simp only [Function.update_of_ne same] at isOther
              have isOwner := guarded.exclusive other isOther
              rw [isMutex] at isOwner
              cases isOwner
          free := by
            intro isFree
            cases isFree
          owned := by
            intro other isOwner
            cases isOwner
            simp only [Function.update_self]
            exact settled
          returning := by
            intro other isReturning
            by_cases same : other = thread
            · subst same
              simp only [Function.update_self, reduceCtorEq] at isReturning
            · simp only [Function.update_of_ne same] at isReturning
              exact guarded.returning other isReturning }

/-- A thread that does not hold the mutex moves without touching anything. -/
theorem passes
    (guarded : Guarded order trace state)
    (notHeld : ¬ (state.threads thread).Held)
    (nextNotHeld : ¬ next.Held)
    (found : next = .returning → state.shared.instance_ = some 0) :
    Guarded order trace
      { state with
        threads := Function.update state.threads thread next } where
  exclusive other isOther := by
    by_cases same : other = thread
    · subst same
      simp only [Function.update_self] at isOther
      exact absurd isOther nextNotHeld
    · simp only [Function.update_of_ne same] at isOther
      exact guarded.exclusive other isOther
  free isFree := guarded.free isFree
  owned other isOwner := by
    have ok := guarded.owned other isOwner
    have different : other ≠ thread := by
      rintro rfl
      exact notHeld ok.held
    simpa only [Function.update_of_ne different] using ok
  returning other isReturning := by
    by_cases same : other = thread
    · subst same
      simp only [Function.update_self] at isReturning
      exact found isReturning
    · simp only [Function.update_of_ne same] at isReturning
      exact guarded.returning other isReturning

/-- The thread that holds the mutex gives it back. -/
theorem gives
    {result : Option Nat}
    (guarded : Guarded order trace state)
    (isUnlocking : state.threads thread = .unlocking result)
    (nextNotHeld : ¬ next.Held) :
    Guarded order trace
      { shared := unlock state.shared
        threads := Function.update state.threads thread next } := by
  have isOwner : state.shared.mutex_ = some thread :=
    guarded.exclusive thread (isUnlocking ▸ trivial)
  have made : Made trace state.shared :=
    (guarded.ok_of_held isUnlocking trivial).2
  exact
    { exclusive := by
        intro other isOther
        by_cases same : other = thread
        · subst same
          simp only [Function.update_self] at isOther
          exact absurd isOther nextNotHeld
        · simp only [Function.update_of_ne same] at isOther
          have isOther := guarded.exclusive other isOther
          rw [isOwner] at isOther
          cases isOther
          exact absurd rfl same
      free := fun _ => .inr made
      owned := by
        intro other isOwner
        cases isOwner
      returning := fun _ _ => made.1 }

end Guarded

section Versions

variable
  {Thread : Type}
  [DecidableEq Thread]
  {order : Order}
  {trace events : List Event}
  {state next : State Thread}
  {thread : Thread}

/-- A step of a version is a step of the thread, from where it is. -/
theorem step?_eq_some
    {getInstance :
      Shared Thread → Thread → Position →
        Option (Shared Thread × Position × List Event)}
    (taken :
      (system getInstance).step? state thread = some (next, events)) :
    ∃ shared position,
      getInstance state.shared thread (state.threads thread) =
          some (shared, position, events) ∧
        next =
          { shared := shared
            threads := Function.update state.threads thread position } := by
  simp only [system, Option.map_eq_some_iff, Prod.mk.injEq] at taken
  obtain ⟨⟨shared, position, emitted⟩, moved, rfl, rfl⟩ := taken
  exact ⟨shared, position, moved, rfl⟩

/-- The creation of the instance, behind the mutex. -/
theorem Guarded.creates
    {shared : Shared Thread}
    {position : Position}
    {stage : Stage}
    {behind : Nat → Position}
    (guarded : Guarded order trace state)
    (isCreating : state.threads thread = .creating stage)
    (stepped :
      createThen order state.shared stage behind =
        (shared, position, events))
    (goesOn :
      Made (trace ++ events) shared →
        (behind 0).Ok order (trace ++ events) shared) :
    Guarded order (trace ++ events)
        { shared := shared
          threads := Function.update state.threads thread position } ∧
      AtEvery (fun before => Proper (trace ++ before)) events := by
  have ok : stage.Ok order trace state.shared :=
    guarded.ok_of_held isCreating trivial
  obtain ⟨moved, isMutex, keeps, proper⟩ := createThen_spec ok stepped
  refine ⟨guarded.works isCreating trivial isMutex keeps ?_, proper⟩
  rcases moved with ⟨rfl, made⟩ | ⟨later, rfl, laterOk⟩
  · exact goesOn made
  · exact laterOk

/-- What is returned is the instance, once it has been constructed. -/
theorem atEvery_returned
    (constructed : .constructed 0 ∈ trace) :
    AtEvery (fun before => Proper (trace ++ before)) [.returned (some 0)] := by
  refine AtEvery.snoc AtEvery.nil ?_
  simpa [Proper] using constructed

/-- Every step of `beta` keeps what is known. -/
theorem beta_step
    (guarded : Guarded order trace state)
    (taken :
      (system (beta order)).step? state thread = some (next, events)) :
    Guarded order (trace ++ events) next ∧
      AtEvery (fun before => Proper (trace ++ before)) events := by
  obtain ⟨shared, position, moved, rfl⟩ := step?_eq_some taken
  cases isPosition : state.threads thread with
  | outside =>
      simp only [beta, isPosition, Option.some.injEq, Prod.mk.injEq] at moved
      obtain ⟨rfl, rfl, rfl⟩ := moved
      rw [List.append_nil]
      refine ⟨guarded.passes ?_ ?_ ?_, AtEvery.nil⟩ <;>
        simp [isPosition, Position.Held]
  | locking =>
      simp only [beta, isPosition, Option.map_eq_some_iff, Prod.mk.injEq]
        at moved
      obtain ⟨locked, isLocked, rfl, rfl, rfl⟩ := moved
      rw [List.append_nil]
      exact ⟨guarded.takes isLocked, AtEvery.nil⟩
  | retesting =>
      have settled : Settled trace state.shared :=
        guarded.ok_of_held isPosition trivial
      cases isInstance : state.shared.instance_ with
      | none =>
          simp only [beta, isPosition, isInstance, Option.some.injEq,
            Prod.mk.injEq] at moved
          obtain ⟨rfl, rfl, rfl⟩ := moved
          refine ⟨guarded.works isPosition trivial rfl id ?_, AtEvery.nil⟩
          rw [List.append_nil]
          exact settled.fresh isInstance
      | some mem =>
          simp only [beta, isPosition, isInstance, Option.some.injEq,
            Prod.mk.injEq] at moved
          obtain ⟨rfl, rfl, rfl⟩ := moved
          refine ⟨guarded.works isPosition trivial rfl id ?_, AtEvery.nil⟩
          rw [List.append_nil]
          exact (settled.made isInstance).2
  | creating stage =>
      simp only [beta, isPosition, Option.some.injEq] at moved
      exact guarded.creates isPosition moved id
  | evaluating =>
      have made : Made trace state.shared :=
        guarded.ok_of_held isPosition trivial
      simp only [beta, isPosition, Option.some.injEq, Prod.mk.injEq] at moved
      obtain ⟨rfl, rfl, rfl⟩ := moved
      refine ⟨guarded.works isPosition trivial rfl id ?_, AtEvery.nil⟩
      rw [List.append_nil]
      exact ⟨made.1, made⟩
  | unlocking result =>
      obtain ⟨rfl, -, -, constructed⟩ :=
        guarded.ok_of_held isPosition trivial
      simp only [beta, isPosition, Option.some.injEq, Prod.mk.injEq] at moved
      obtain ⟨rfl, rfl, rfl⟩ := moved
      exact ⟨(guarded.gives isPosition (by simp [Position.Held])).returns,
        atEvery_returned constructed⟩
  | testing | returning =>
      simp only [beta, isPosition, reduceCtorEq] at moved

/-- A thread has assigned the instance and has not constructed it yet. -/
def Unconstructed (order : Order) (state : State Thread) : Prop :=
  order = .reordered ∧
    ∃ creator mem, state.threads creator = .creating (.constructing mem)

omit [DecidableEq Thread] in
/-- What can be read without the mutex is constructed, but for one window. -/
theorem Guarded.constructed_iff
    (guarded : Guarded order trace state)
    (isInstance : state.shared.instance_ = some 0) :
    .constructed 0 ∈ trace ↔ ¬ Unconstructed order state := by
  constructor
  · rintro constructed ⟨-, creator, mem, isCreating⟩
    have ok := guarded.ok_of_held isCreating trivial
    exact ok.2.2.1 constructed
  · intro outside
    cases isMutex : state.shared.mutex_ with
    | none =>
        exact ((guarded.free isMutex).made isInstance).2.2.2
    | some owner =>
        have ok := guarded.owned owner isMutex
        cases isPosition : state.threads owner with
        | retesting =>
            rw [isPosition] at ok
            exact (Settled.made ok isInstance).2.2.2
        | creating stage =>
            rw [isPosition] at ok
            cases stage with
            | allocating =>
                exact absurd (ok.1.symm.trans isInstance) (by simp)
            | constructing mem =>
                cases order with
                | inOrder =>
                    exact absurd (ok.2.2.2.symm.trans isInstance) (by simp)
                | reordered =>
                    exact absurd ⟨rfl, owner, mem, isPosition⟩ outside
            | assigning mem =>
                exact absurd (ok.2.2.1.symm.trans isInstance) (by simp)
            | created mem =>
                exact ok.2.2.2
        | evaluating =>
            rw [isPosition] at ok
            exact ok.2.2
        | unlocking result =>
            rw [isPosition] at ok
            exact ok.2.2.2
        | outside | testing | locking | returning =>
            rw [isPosition] at ok
            exact ok.elim

/-- What a step of `gamma` says, unless it returns within the window. -/
theorem gamma_step
    (guarded : Guarded order trace state)
    (taken :
      (system (gamma order)).step? state thread = some (next, events)) :
    Guarded order (trace ++ events) next ∧
      (¬ Unconstructed order state →
        AtEvery (fun before => Proper (trace ++ before)) events) ∧
      ∀ result, .returned result ∈ events →
        result = some 0 ∧
          (.constructed 0 ∈ trace ↔ ¬ Unconstructed order state) := by
  obtain ⟨shared, position, moved, rfl⟩ := step?_eq_some taken
  cases isPosition : state.threads thread with
  | outside =>
      simp only [gamma, isPosition, Option.some.injEq, Prod.mk.injEq] at moved
      obtain ⟨rfl, rfl, rfl⟩ := moved
      rw [List.append_nil]
      refine ⟨guarded.passes ?_ ?_ ?_, fun _ => AtEvery.nil, by simp⟩ <;>
        simp [isPosition, Position.Held]
  | testing =>
      cases isInstance : state.shared.instance_ with
      | none =>
          simp only [gamma, isPosition, isInstance, Option.some.injEq,
            Prod.mk.injEq] at moved
          obtain ⟨rfl, rfl, rfl⟩ := moved
          rw [List.append_nil]
          refine ⟨guarded.passes ?_ ?_ ?_, fun _ => AtEvery.nil, by simp⟩ <;>
            simp [isPosition, Position.Held]
      | some mem =>
          simp only [gamma, isPosition, isInstance, Option.some.injEq,
            Prod.mk.injEq] at moved
          obtain ⟨rfl, rfl, rfl⟩ := moved
          rw [List.append_nil]
          have isFirst : mem = 0 := guarded.instance_eq isInstance
          refine ⟨guarded.passes ?_ ?_ ?_, fun _ => AtEvery.nil, by simp⟩ <;>
            simp [isPosition, Position.Held, isInstance, isFirst]
  | locking =>
      simp only [gamma, isPosition, Option.map_eq_some_iff, Prod.mk.injEq]
        at moved
      obtain ⟨locked, isLocked, rfl, rfl, rfl⟩ := moved
      rw [List.append_nil]
      exact ⟨guarded.takes isLocked, fun _ => AtEvery.nil, by simp⟩
  | retesting =>
      have settled : Settled trace state.shared :=
        guarded.ok_of_held isPosition trivial
      cases isInstance : state.shared.instance_ with
      | none =>
          simp only [gamma, isPosition, isInstance, Option.some.injEq,
            Prod.mk.injEq] at moved
          obtain ⟨rfl, rfl, rfl⟩ := moved
          refine ⟨guarded.works isPosition trivial rfl id ?_,
            fun _ => AtEvery.nil, by simp⟩
          rw [List.append_nil]
          exact settled.fresh isInstance
      | some mem =>
          simp only [gamma, isPosition, isInstance, Option.some.injEq,
            Prod.mk.injEq] at moved
          obtain ⟨rfl, rfl, rfl⟩ := moved
          obtain ⟨rfl, made⟩ := settled.made isInstance
          refine ⟨guarded.works isPosition trivial rfl id ?_,
            fun _ => AtEvery.nil, by simp⟩
          rw [List.append_nil]
          exact ⟨rfl, made⟩
  | creating stage =>
      simp only [gamma, isPosition, Option.some.injEq] at moved
      obtain ⟨kept, proper⟩ :=
        guarded.creates isPosition moved fun made => ⟨rfl, made⟩
      refine ⟨kept, fun _ => proper, ?_⟩
      intro result isReturned
      exact absurd isReturned (not_returned_of_createThen moved)
  | unlocking result =>
      simp only [gamma, isPosition, Option.some.injEq, Prod.mk.injEq] at moved
      obtain ⟨rfl, rfl, rfl⟩ := moved
      rw [List.append_nil]
      exact ⟨guarded.gives isPosition (by simp [Position.Held]),
        fun _ => AtEvery.nil, by simp⟩
  | returning =>
      simp only [gamma, isPosition, Option.some.injEq, Prod.mk.injEq] at moved
      obtain ⟨rfl, rfl, rfl⟩ := moved
      have isInstance := guarded.returning thread isPosition
      have exactly := guarded.constructed_iff isInstance
      have kept :
          Guarded order trace
            { state with
              threads := Function.update state.threads thread .outside } := by
        refine guarded.passes ?_ ?_ ?_ <;>
          simp [isPosition, Position.Held]
      refine ⟨kept.returns, ?_, ?_⟩
      · intro outside
        rw [isInstance]
        exact atEvery_returned (exactly.mpr outside)
      · intro result isReturned
        rw [List.mem_singleton, Event.returned.injEq] at isReturned
        exact ⟨isReturned.trans isInstance, exactly⟩
  | evaluating =>
      simp only [gamma, isPosition, reduceCtorEq] at moved

end Versions

section Runs

variable
  {Thread : Type}
  [DecidableEq Thread]
  {order : Order}
  {trace : List Event}
  {state : State Thread}

/--
With the whole call locked there is one instance at most, in whatever order
the compiler has put the steps of its creation; it is constructed once, and
every call returns it after that.
-/
theorem beta_returns_the_instance
    (reaches : (system (beta order)).Reaches trace state) :
    state.shared.allocated ≤ 1 ∧ AtEvery Proper trace := by
  have invariant : Guarded order trace state ∧ AtEvery Proper trace := by
    induction reaches with
    | initial =>
        exact ⟨Guarded.initially, AtEvery.nil⟩
    | step earlier taken inductionHypothesis =>
        obtain ⟨guarded, proper⟩ := inductionHypothesis
        obtain ⟨kept, later⟩ := beta_step guarded taken
        exact ⟨kept, proper.append later⟩
  exact ⟨invariant.1.allocated_le, invariant.2⟩

/-- Two calls, the first of which has to create. -/
theorem beta_returns_the_instance_twoCalls :
    ∃ trace, ∃ state : State Bool,
      (system (beta .reordered)).Reaches trace state ∧
        trace =
          [.constructed 0, .returned (some 0), .returned (some 0)] ∧
        state.shared.allocated ≤ 1 ∧ AtEvery Proper trace := by
  obtain ⟨trace, state, reaches, observed⟩ :=
    System.Reaches.exists_of_run?
      (by decide :
        ((system (beta .reordered)).run?
            (system (beta .reordered)).initial
            ([true, false, true, true, true, true, true, true, true] ++
              [false, false, false, false])).any
          (fun outcome => decide (
            outcome.2 =
              [.constructed 0, .returned (some 0),
                .returned (some 0)])) = true)
  exact ⟨trace, state, reaches, of_decide_eq_true observed,
    beta_returns_the_instance reaches⟩

/--
With two tests there is one instance at most, and all calls return it.  It has
been constructed when a call returns, except that a reordered creation may
have assigned and not constructed it yet.
-/
theorem gamma_returns_the_instance
    (reaches : (system (gamma order)).Reaches trace state) :
    state.shared.allocated ≤ 1 ∧
      (order = .inOrder → AtEvery Proper trace) ∧
      ∀ thread next events result,
        (system (gamma order)).step? state thread = some (next, events) →
        .returned result ∈ events →
        result = some 0 ∧
          (.constructed 0 ∈ trace ↔ ¬ Unconstructed order state) := by
  have invariant :
      Guarded order trace state ∧
        (order = .inOrder → AtEvery Proper trace) := by
    induction reaches with
    | initial =>
        exact ⟨Guarded.initially, fun _ => AtEvery.nil⟩
    | step earlier taken inductionHypothesis =>
        obtain ⟨guarded, proper⟩ := inductionHypothesis
        obtain ⟨kept, later, -⟩ := gamma_step guarded taken
        refine ⟨kept, fun isInOrder => (proper isInOrder).append (later ?_)⟩
        rintro ⟨isReordered, -⟩
        rw [isInOrder] at isReordered
        cases isReordered
  refine ⟨invariant.1.allocated_le, invariant.2, ?_⟩
  intro thread next events result taken isReturned
  exact (gamma_step invariant.1 taken).2.2 result isReturned

/-- Both calls pass the first test, and the second one finds the instance. -/
theorem gamma_returns_the_instance_twoCalls :
    ∃ trace, ∃ state : State Bool,
      (system (gamma .inOrder)).Reaches trace state ∧
        trace =
          [.constructed 0, .returned (some 0), .returned (some 0)] ∧
        state.shared.allocated ≤ 1 ∧ AtEvery Proper trace := by
  obtain ⟨trace, state, reaches, observed⟩ :=
    System.Reaches.exists_of_run?
      (by decide :
        ((system (gamma .inOrder)).run?
            (system (gamma .inOrder)).initial
            ([true, true, false, false] ++ List.replicate 7 true ++
              [false, false, false, false])).any
          (fun outcome => decide (
            outcome.2 =
              [.constructed 0, .returned (some 0),
                .returned (some 0)])) = true)
  obtain ⟨single, proper, -⟩ := gamma_returns_the_instance reaches
  exact ⟨trace, state, reaches, of_decide_eq_true observed, single,
    proper rfl⟩

/-- A call returns the instance that has been assigned, not constructed. -/
example :
    ((system (gamma .reordered)).run?
        (system (gamma .reordered) : System (State Bool) Bool Event).initial
        ([true, true, true, true, true, true] ++
          [false, false, false])).map Prod.snd =
      some [.returned (some 0)] := by
  decide

end Runs

end CsPrimer.Singleton
