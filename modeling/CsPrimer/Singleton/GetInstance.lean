import CsPrimer.Library.TransitionSystem

namespace CsPrimer.Singleton

open Library

/-!
# The versions of `Singleton::GetInstance`

Any number of threads call `GetInstance` any number of times.  A pointer is the
number of the allocation that has returned it.  `instance_ = new Singleton()`
allocates, constructs and assigns; a compiler may assign before it constructs,
unless a release fence stands in between.  Loads and stores of `instance_` take
effect one after the other.
-/

/-- The order of the steps behind an allocation. -/
inductive Order where
  | inOrder
  | reordered
  deriving Repr, DecidableEq

/-- Where a thread is in `instance_ = new Singleton()`. -/
inductive Stage where
  | allocating
  | constructing (mem : Nat)
  | assigning (mem : Nat)
  | created (mem : Nat)
  deriving Repr, DecidableEq

/-- Where a thread is in a call of `GetInstance`. -/
inductive Position where
  | outside
  | testing
  | locking
  | retesting
  | creating (stage : Stage)
  | evaluating
  | unlocking (result : Option Nat)
  | returning
  deriving Repr, DecidableEq

/-- `instance_` and `mutex_`, and the number of allocations. -/
structure Shared (Thread : Type) where
  instance_ : Option Nat
  mutex_ : Option Thread
  allocated : Nat
  deriving Repr, DecidableEq

/-- The shared variables and the threads. -/
structure State (Thread : Type) where
  shared : Shared Thread
  threads : Thread → Position

/-- What happens to an instance, and what a call returns. -/
inductive Event where
  | constructed (mem : Nat)
  | returned (result : Option Nat)
  deriving Repr, DecidableEq

section Steps

variable {Thread : Type}

/-- A step of `instance_ = new Singleton()`. -/
def create
    (order : Order)
    (shared : Shared Thread) :
    Stage → Shared Thread × Stage × List Event
  | .allocating =>
      ({ shared with allocated := shared.allocated + 1 },
        match order with
        | .inOrder => .constructing shared.allocated
        | .reordered => .assigning shared.allocated, [])
  | .constructing mem =>
      (shared,
        match order with
        | .inOrder => .assigning mem
        | .reordered => .created mem, [.constructed mem])
  | .assigning mem =>
      ({ shared with instance_ := some mem },
        match order with
        | .inOrder => .created mem
        | .reordered => .constructing mem, [])
  | .created mem =>
      (shared, .created mem, [])

/-- A step of the creation, behind which the call goes on. -/
def createThen
    (order : Order)
    (shared : Shared Thread)
    (stage : Stage)
    (behind : Nat → Position) : Shared Thread × Position × List Event :=
  match create order shared stage with
  | (after, .created mem, events) => (after, behind mem, events)
  | (after, next, events) => (after, .creating next, events)

/-- `std::lock_guard<std::mutex> guard(mutex_)`, which blocks. -/
def lock
    (shared : Shared Thread)
    (thread : Thread) : Option (Shared Thread) :=
  match shared.mutex_ with
  | none => some { shared with mutex_ := some thread }
  | some _ => none

/-- The end of the scope of the guard. -/
def unlock (shared : Shared Thread) : Shared Thread :=
  { shared with mutex_ := none }

/-- `alpha`: a test without a lock. -/
def alpha
    (order : Order)
    (shared : Shared Thread)
    (_ : Thread) :
    Position → Option (Shared Thread × Position × List Event)
  | .outside =>
      some (shared, .testing, [])
  | .testing =>
      match shared.instance_ with
      | none => some (shared, .creating .allocating, [])
      | some _ => some (shared, .returning, [])
  | .creating stage =>
      some (createThen order shared stage fun _ => .returning)
  | .returning =>
      some (shared, .outside, [.returned shared.instance_])
  | .locking | .retesting | .evaluating | .unlocking _ =>
      none

/-- `beta`: the whole call is locked. -/
def beta
    (order : Order)
    (shared : Shared Thread)
    (thread : Thread) :
    Position → Option (Shared Thread × Position × List Event)
  | .outside =>
      some (shared, .locking, [])
  | .locking =>
      (lock shared thread).map fun locked => (locked, .retesting, [])
  | .retesting =>
      match shared.instance_ with
      | none => some (shared, .creating .allocating, [])
      | some _ => some (shared, .evaluating, [])
  | .creating stage =>
      some (createThen order shared stage fun _ => .evaluating)
  | .evaluating =>
      some (shared, .unlocking shared.instance_, [])
  | .unlocking result =>
      some (unlock shared, .outside, [.returned result])
  | .testing | .returning =>
      none

/-- `gamma`: a test without the lock, and one with it. -/
def gamma
    (order : Order)
    (shared : Shared Thread)
    (thread : Thread) :
    Position → Option (Shared Thread × Position × List Event)
  | .outside =>
      some (shared, .testing, [])
  | .testing =>
      match shared.instance_ with
      | none => some (shared, .locking, [])
      | some _ => some (shared, .returning, [])
  | .locking =>
      (lock shared thread).map fun locked => (locked, .retesting, [])
  | .retesting =>
      match shared.instance_ with
      | none => some (shared, .creating .allocating, [])
      | some mem => some (shared, .unlocking (some mem), [])
  | .creating stage =>
      some (createThen order shared stage fun mem => .unlocking (some mem))
  | .unlocking _ =>
      some (unlock shared, .returning, [])
  | .returning =>
      some (shared, .outside, [.returned shared.instance_])
  | .evaluating =>
      none

/--
`release`: the local `tmp` is what has been loaded before the lock, and it is
`tmp` that is tested again.  The fence keeps the order of the creation.
-/
def release
    (shared : Shared Thread)
    (thread : Thread) :
    Position → Option (Shared Thread × Position × List Event)
  | .outside =>
      some (shared, .testing, [])
  | .testing =>
      match shared.instance_ with
      | none => some (shared, .locking, [])
      | some tmp => some (shared, .outside, [.returned (some tmp)])
  | .locking =>
      (lock shared thread).map fun locked => (locked, .retesting, [])
  | .retesting =>
      -- `tmp` is the null pointer, as it was before the lock.
      some (shared, .creating .allocating, [])
  | .creating stage =>
      some (createThen .inOrder shared stage fun tmp => .unlocking (some tmp))
  | .unlocking result =>
      some (unlock shared, .outside, [.returned result])
  | .evaluating | .returning =>
      none

end Steps

section Creating

variable
  {Thread : Type}
  {order : Order}
  {events : List Event}
  {shared after : Shared Thread}
  {stage : Stage}

/-- A creation returns nothing. -/
theorem not_returned_of_createThen
    {behind : Nat → Position}
    {next : Position}
    {result : Option Nat}
    (stepped : createThen order shared stage behind = (after, next, events)) :
    .returned result ∉ events := by
  have isEvents : events = (create order shared stage).2.2 := by
    rcases isStep : create order shared stage with ⟨other, later, emitted⟩
    cases later <;>
      simp only [createThen, isStep, Prod.mk.injEq] at stepped <;>
      exact stepped.2.2.symm
  rw [isEvents]
  cases stage <;> cases order <;> simp [create]

end Creating

section System

variable
  {Thread : Type}
  [DecidableEq Thread]

/-- Any number of threads that call one version of `GetInstance`. -/
def system
    (getInstance :
      Shared Thread → Thread → Position →
        Option (Shared Thread × Position × List Event)) :
    System (State Thread) Thread Event where
  initial :=
    { shared := { instance_ := none, mutex_ := none, allocated := 0 }
      threads := fun _ => .outside }
  step? state thread :=
    (getInstance state.shared thread (state.threads thread)).map
      fun (shared, next, events) =>
        ({ shared := shared
           threads := Function.update state.threads thread next }, events)

end System

end CsPrimer.Singleton
