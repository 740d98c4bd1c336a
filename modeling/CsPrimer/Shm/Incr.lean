import CsPrimer.Library.ThreadPool
import CsPrimer.Library.TransitionSystem

namespace CsPrimer.Shm

open Library

/-!
# `incr_map_anon.c`, `incr_dev_zero.c` and `incr.c`: a counter after `fork`

Parent and child increment an `int` in a shared mapping.  `fork` gives each
process a copy of what is not shared: the semaphore of the first two programs
is a variable on the stack, so there are two of them afterwards, while the
named semaphore of `incr.c` is shared.  The loops of both processes are the
same.  A counter that leaves `int` has no successor.
-/

/-- `INT_MAX`. -/
abbrev intMax : Nat := 2147483647

/-- The two processes behind `fork`. -/
inductive Process where
  | parent
  | child
  deriving Repr, DecidableEq

instance : Fintype Process where
  elems :=
    {.parent, .child}
  complete pid := by
    cases pid <;> decide

/-- Where a program has its semaphore. -/
inductive Placement where
  /-- `sem_t mutex` of `incr_map_anon.c` and `incr_dev_zero.c`. -/
  | stack
  /-- `sem_open` of `incr.c`. -/
  | named
  deriving Repr, DecidableEq

/-- Where a process is in its loop, with the value it has loaded. -/
inductive Position where
  | testing
  | waiting
  | loading
  | storing (value : Nat)
  | printing (value : Nat)
  | posting
  | returned
  deriving Repr, DecidableEq

/-- The loop of a process and its variable `i`. -/
structure Loop where
  position : Position
  i : Nat
  deriving Repr, DecidableEq

def Loop.initial : Loop where
  position := .testing
  i := 0

/-- The mapping, the semaphores and the processes. -/
structure State where
  ptr : Nat
  named : Nat
  stack : Process → Nat
  loops : Process → Loop

/-- The line a process prints. -/
inductive Event where
  | printed (pid : Process) (value : Nat)
  deriving Repr, DecidableEq

/-- The tokens of the semaphore `mutex` refers to in a process. -/
def State.mutex
    (state : State)
    (placement : Placement)
    (pid : Process) : Nat :=
  match placement with
  | .stack => state.stack pid
  | .named => state.named

/-- The semaphore `mutex` refers to in a process gets other tokens. -/
def State.setMutex
    (state : State)
    (placement : Placement)
    (pid : Process)
    (tokens : Nat) : State :=
  match placement with
  | .stack =>
      { state with stack := Function.update state.stack pid tokens }
  | .named =>
      { state with named := tokens }

/-- A process goes on in its loop. -/
def State.goTo
    (state : State)
    (pid : Process)
    (next : Loop) : State :=
  { state with loops := Function.update state.loops pid next }

section Updates

variable
  {state : State}
  {placement : Placement}
  {pid : Process}
  {tokens : Nat}
  {next : Loop}

@[simp]
theorem State.setMutex_ptr :
    (state.setMutex placement pid tokens).ptr = state.ptr := by
  cases placement <;> rfl

@[simp]
theorem State.setMutex_loops :
    (state.setMutex placement pid tokens).loops = state.loops := by
  cases placement <;> rfl

@[simp]
theorem State.mutex_setMutex :
    (state.setMutex placement pid tokens).mutex placement pid = tokens := by
  cases placement <;> simp [mutex, setMutex]

/-- The semaphore on the stack of the other process stays as it is. -/
theorem State.setMutex_stack
    {other : Process}
    (different : other ≠ pid) :
    (state.setMutex placement pid tokens).stack other =
      state.stack other := by
  cases placement <;> simp [setMutex, different]

@[simp]
theorem State.goTo_ptr : (state.goTo pid next).ptr = state.ptr :=
  rfl

@[simp]
theorem State.goTo_stack : (state.goTo pid next).stack = state.stack :=
  rfl

@[simp]
theorem State.mutex_goTo :
    (state.goTo pid next).mutex placement = state.mutex placement := by
  cases placement <;> rfl

/-- The semaphores are not in the counter. -/
@[simp]
theorem State.mutex_store {value : Nat} :
    { state with ptr := value }.mutex placement pid =
      state.mutex placement pid := by
  cases placement <;> rfl

@[simp]
theorem State.goTo_loops :
    (state.goTo pid next).loops =
      Function.update state.loops pid next :=
  rfl

end Updates

/-- The next step of a process. -/
def step?
    (placement : Placement)
    (nloop : Nat)
    (state : State)
    (pid : Process) : Option (State × List Event) :=
  let loop := state.loops pid
  match loop.position with
  | .testing =>
      if loop.i < nloop then
        some (state.goTo pid { loop with position := .waiting }, [])
      else
        some (state.goTo pid { loop with position := .returned }, [])
  | .waiting =>
      (semWait (state.mutex placement pid)).map fun tokens =>
        ((state.setMutex placement pid tokens).goTo pid
          { loop with position := .loading }, [])
  | .loading =>
      some (state.goTo pid { loop with position := .storing state.ptr }, [])
  | .storing value =>
      if value + 1 ≤ intMax then
        some ({ state with ptr := value + 1 }.goTo pid
          { loop with position := .printing value }, [])
      else
        none
  | .printing value =>
      some (state.goTo pid { loop with position := .posting },
        [.printed pid value])
  | .posting =>
      some ((state.setMutex placement pid
          (semPost (state.mutex placement pid))).goTo pid
        { position := .testing, i := loop.i + 1 }, [])
  | .returned =>
      none

/-- The interleavings behind `fork`; an action is the process it is of. -/
def system (placement : Placement) (nloop : Nat) :
    System State Process Event where
  initial :=
    { ptr := 0
      named := 1
      stack := fun _ => 1
      loops := fun _ => Loop.initial }
  step? :=
    step? placement nloop

/-- The printed values. -/
def values (trace : List Event) : List Nat :=
  trace.map fun | .printed _ value => value

/-- The values up to `2 * nloop` have been printed, and the counter has them. -/
def Counted (nloop : Nat) (trace : List Event) (state : State) : Prop :=
  (values trace).Perm (List.range (2 * nloop)) ∧ state.ptr = 2 * nloop

/-- Between a load and a store of the counter. -/
def Loop.pending (loop : Loop) : Nat :=
  match loop.position with
  | .storing _ => 1
  | _ => 0

/-- No process loads the counter between a load and a store of the other one. -/
def Exclusive (state : State) (pid : Process) : Prop :=
  (state.loops pid).position = .loading →
    ∀ other, other ≠ pid → (state.loops other).pending = 0
  deriving Decidable

/-- Neither process can go on. -/
def Stopped
    (placement : Placement)
    (nloop : Nat)
    (state : State) : Prop :=
  ∀ pid, step? placement nloop state pid = none

end CsPrimer.Shm
