import CsPrimer.Library.ThreadPool
import CsPrimer.Library.TransitionSystem

namespace CsPrimer.PxMutex.ProdCons2

open Library

/-!
# `mutex_prodcons1.c` and `mutex_prodcons2.c`: one mutex

Both programs have the same producers.  In `mutex_prodcons1.c` the consumer is
created when all producers have been joined; in `mutex_prodcons2.c` it spins in
`consumer_wait` until its slot has been stored, and compares it without the
mutex.  The mutex is a semaphore with one token; an access outside `buf` has no
successor.
-/

/-- The program that runs. -/
inductive Program where
  | prodCons1
  | prodCons2
  deriving Repr, DecidableEq

/-- `MAXNITEMS`. -/
abbrev maxNItems : Nat := 1000000

/-- The struct `shared`. -/
structure Shared where
  mutex : Nat
  buf : Fin maxNItems → Nat
  nput : Nat
  nval : Nat

/-- The static initialisation. -/
def Shared.initial : Shared where
  mutex := 1
  buf := fun _ => 0
  nput := 0
  nval := 0

/-- `shared.buf[i]`. -/
def Shared.load (shared : Shared) (i : Nat) : Option Nat :=
  if inBounds : i < maxNItems then
    some (shared.buf ⟨i, inBounds⟩)
  else
    none

/-- `shared.buf[i] = value`. -/
def Shared.store (shared : Shared) (i value : Nat) : Option Shared :=
  if inBounds : i < maxNItems then
    some { shared with buf := Function.update shared.buf ⟨i, inBounds⟩ value }
  else
    none

/-- Where a producer is, with the values it has loaded. -/
inductive ProducerPc where
  | lock
  | testNput
  | loadNput
  | loadNval (i : Nat)
  | store (i value : Nat)
  | incrementNput
  | storeNput (nput : Nat)
  | incrementNval
  | storeNval (nval : Nat)
  | unlock
  | count
  | leaveUnlock
  | returned
  deriving Repr, DecidableEq

/-- A producer thread. -/
structure Producer where
  pc : ProducerPc
  count : Nat
  deriving Repr, DecidableEq

def Producer.initial : Producer where
  pc := .lock
  count := 0

/-- Where the consumer is. -/
inductive ConsumerPc where
  | notCreated
  | testItems
  | lock
  | testNput
  | unlockReady
  | unlockAgain
  | compareBuf
  | report
  | increment
  | returned
  deriving Repr, DecidableEq

/-- The consumer thread and its loop variable. -/
structure Consumer where
  pc : ConsumerPc
  i : Nat
  deriving Repr, DecidableEq

def Consumer.initial : Program → Consumer
  | .prodCons1 => { pc := .notCreated, i := 0 }
  | .prodCons2 => { pc := .testItems, i := 0 }

/-- What the consumer finds in `buf`. -/
inductive Event where
  | found (i value : Nat)
  | error (i value : Nat)
  deriving Repr, DecidableEq

/-- One step of `producer`. -/
def producer
    (nitems : Int)
    (shared : Shared)
    (thread : Producer) : Option (Shared × Producer) :=
  match thread.pc with
  | .lock =>
      (semWait shared.mutex).map fun free =>
        ({ shared with mutex := free }, { thread with pc := .testNput })
  | .testNput =>
      if nitems ≤ shared.nput then
        some (shared, { thread with pc := .leaveUnlock })
      else
        some (shared, { thread with pc := .loadNput })
  | .loadNput =>
      some (shared, { thread with pc := .loadNval shared.nput })
  | .loadNval i =>
      some (shared, { thread with pc := .store i shared.nval })
  | .store i value =>
      (shared.store i value).map fun shared =>
        (shared, { thread with pc := .incrementNput })
  | .incrementNput =>
      some (shared, { thread with pc := .storeNput shared.nput })
  | .storeNput nput =>
      some ({ shared with nput := nput + 1 },
        { thread with pc := .incrementNval })
  | .incrementNval =>
      some (shared, { thread with pc := .storeNval shared.nval })
  | .storeNval nval =>
      some ({ shared with nval := nval + 1 },
        { thread with pc := .unlock })
  | .unlock =>
      some ({ shared with mutex := semPost shared.mutex },
        { thread with pc := .count })
  | .count =>
      some (shared, { pc := .lock, count := thread.count + 1 })
  | .leaveUnlock =>
      some ({ shared with mutex := semPost shared.mutex },
        { thread with pc := .returned })
  | .returned =>
      none

/-- One step of `consumer`, with `consumer_wait` in `mutex_prodcons2.c`. -/
def consumer
    (program : Program)
    (nitems : Int)
    (shared : Shared)
    (thread : Consumer) : Option (Shared × Consumer × List Event) :=
  match thread.pc with
  | .notCreated =>
      none
  | .testItems =>
      if thread.i < nitems then
        match program with
        | .prodCons1 => some (shared, { thread with pc := .compareBuf }, [])
        | .prodCons2 => some (shared, { thread with pc := .lock }, [])
      else
        some (shared, { thread with pc := .returned }, [])
  | .lock =>
      (semWait shared.mutex).map fun free =>
        ({ shared with mutex := free }, { thread with pc := .testNput }, [])
  | .testNput =>
      if thread.i < shared.nput then
        some (shared, { thread with pc := .unlockReady }, [])
      else
        some (shared, { thread with pc := .unlockAgain }, [])
  | .unlockReady =>
      some ({ shared with mutex := semPost shared.mutex },
        { thread with pc := .compareBuf }, [])
  | .unlockAgain =>
      some ({ shared with mutex := semPost shared.mutex },
        { thread with pc := .lock }, [])
  | .compareBuf =>
      (shared.load thread.i).map fun value =>
        if value ≠ thread.i then
          (shared, { thread with pc := .report },
            [.found thread.i value])
        else
          (shared, { thread with pc := .increment },
            [.found thread.i value])
  | .report =>
      (shared.load thread.i).map fun value =>
        (shared, { thread with pc := .increment }, [.error thread.i value])
  | .increment =>
      some (shared, { pc := .testItems, i := thread.i + 1 }, [])
  | .returned =>
      none

/-- All threads of one run of a program. -/
structure State (nthreads : Nat) where
  shared : Shared
  producers : Fin nthreads → Producer
  consumer : Consumer

/-- The choices of the scheduler; `main` may create the consumer. -/
inductive Action (nthreads : Nat) where
  | producer (thread : Fin nthreads)
  | consumer
  | create
  deriving Repr, DecidableEq

/-- `pthread_join` returns for all producers. -/
def ProducersReturned {nthreads : Nat} (state : State nthreads) : Prop :=
  ∀ thread, (state.producers thread).pc = .returned

instance {nthreads : Nat} (state : State nthreads) :
    Decidable (ProducersReturned state) :=
  inferInstanceAs (Decidable (∀ _, _))

/-- The interleavings of the threads `main` creates, and of `main`. -/
def system (program : Program) (nitems : Int) (nthreads : Nat) :
    System (State nthreads) (Action nthreads) Event where
  initial :=
    { shared := Shared.initial
      producers := fun _ => Producer.initial
      consumer := Consumer.initial program }
  step? state action :=
    match action with
    | .producer thread =>
        (producer nitems state.shared (state.producers thread)).map
          fun (shared, next) =>
            ({ state with
              shared := shared
              producers := Function.update state.producers thread next },
              [])
    | .consumer =>
        (consumer program nitems state.shared state.consumer).map
          fun (shared, next, events) =>
            ({ state with shared := shared, consumer := next }, events)
    | .create =>
        if state.consumer.pc = .notCreated ∧ ProducersReturned state then
          some ({ state with
            consumer := { state.consumer with pc := .testItems } }, [])
        else
          none

/-- Every thread has returned. -/
def AllReturned {nthreads : Nat} (state : State nthreads) : Prop :=
  ProducersReturned state ∧ state.consumer.pc = .returned

instance {nthreads : Nat} (state : State nthreads) :
    Decidable (AllReturned state) :=
  inferInstanceAs (Decidable (_ ∧ _))

end CsPrimer.PxMutex.ProdCons2
