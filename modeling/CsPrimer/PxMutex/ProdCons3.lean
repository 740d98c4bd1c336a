import CsPrimer.Library.ThreadPool
import CsPrimer.Library.TransitionSystem

namespace CsPrimer.PxMutex.ProdCons3

open Library

/-!
# `mutex_prodcons3.c`: two mutexes and a condition variable

A mutex is a semaphore with one token.  Only the consumer ever waits on
`nready.cond`; `sleeping` says that it is blocked there and has not been
signalled.  `pthread_cond_wait` releases the mutex and blocks in one step, and
takes the mutex again before it returns; a spurious wake-up ends the blocking
without a signal.  An access outside `buf` has no successor.
-/

/-- `MAXNITEMS`. -/
abbrev maxNItems : Nat := 1000000

/-- `buf`, `put` and `nready`. -/
structure Shared where
  buf : Fin maxNItems → Nat
  putMutex : Nat
  nput : Nat
  nval : Nat
  nreadyMutex : Nat
  sleeping : Bool
  nready : Int

/-- The static initialisation. -/
def Shared.initial : Shared where
  buf := fun _ => 0
  putMutex := 1
  nput := 0
  nval := 0
  nreadyMutex := 1
  sleeping := false
  nready := 0

/-- `buf[i]`. -/
def Shared.load (shared : Shared) (i : Nat) : Option Nat :=
  if inBounds : i < maxNItems then
    some (shared.buf ⟨i, inBounds⟩)
  else
    none

/-- `buf[i] = value`. -/
def Shared.store (shared : Shared) (i value : Nat) : Option Shared :=
  if inBounds : i < maxNItems then
    some { shared with buf := Function.update shared.buf ⟨i, inBounds⟩ value }
  else
    none

/-- Where a producer is, with the values it has loaded. -/
inductive ProducerPc where
  | lockPut
  | testNput
  | loadIndex
  | loadValue (i : Nat)
  | store (i value : Nat)
  | loadNput
  | storeNput (nput : Nat)
  | loadNval
  | storeNval (nval : Nat)
  | unlockPut
  | lockNready
  | testNready
  | signal
  | loadNready
  | storeNready (nready : Int)
  | unlockNready
  | count
  | leaveUnlock
  | returned
  deriving Repr, DecidableEq

/-- A producer thread. -/
structure Producer where
  pc : ProducerPc
  count : Nat
  deriving Repr, DecidableEq

def Producer.initial : Producer where
  pc := .lockPut
  count := 0

/-- Where the consumer is, with the value it has loaded. -/
inductive ConsumerPc where
  | testItems
  | lockNready
  | testNready
  | beginWait
  | waiting
  | loadNready
  | storeNready (nready : Int)
  | unlockNready
  | compareBuf
  | report
  | increment
  | returned
  deriving Repr, DecidableEq

/-- The consumer thread and its loop variable. -/
structure Consumer where
  pc : ConsumerPc
  i : Nat
  deriving Repr, DecidableEq

def Consumer.initial : Consumer where
  pc := .testItems
  i := 0

/-- What the consumer finds in `buf`. -/
inductive Event where
  | found (i value : Nat)
  | error (i value : Nat)
  deriving Repr, DecidableEq

/-- One step of `producer`. -/
def producer
    (nitems : Int)
    (shared : Shared)
    (thread : Producer) : Option (Shared × Producer) :=
  match thread.pc with
  | .lockPut =>
      (semWait shared.putMutex).map fun free =>
        ({ shared with putMutex := free }, { thread with pc := .testNput })
  | .testNput =>
      if nitems ≤ shared.nput then
        some (shared, { thread with pc := .leaveUnlock })
      else
        some (shared, { thread with pc := .loadIndex })
  | .loadIndex =>
      some (shared, { thread with pc := .loadValue shared.nput })
  | .loadValue i =>
      some (shared, { thread with pc := .store i shared.nput })
  | .store i value =>
      (shared.store i value).map fun shared =>
        (shared, { thread with pc := .loadNput })
  | .loadNput =>
      some (shared, { thread with pc := .storeNput shared.nput })
  | .storeNput nput =>
      some ({ shared with nput := nput + 1 },
        { thread with pc := .loadNval })
  | .loadNval =>
      some (shared, { thread with pc := .storeNval shared.nval })
  | .storeNval nval =>
      some ({ shared with nval := nval + 1 },
        { thread with pc := .unlockPut })
  | .unlockPut =>
      some ({ shared with putMutex := semPost shared.putMutex },
        { thread with pc := .lockNready })
  | .lockNready =>
      (semWait shared.nreadyMutex).map fun free =>
        ({ shared with nreadyMutex := free },
          { thread with pc := .testNready })
  | .testNready =>
      if shared.nready = 0 then
        some (shared, { thread with pc := .signal })
      else
        some (shared, { thread with pc := .loadNready })
  | .signal =>
      some ({ shared with sleeping := false },
        { thread with pc := .loadNready })
  | .loadNready =>
      some (shared, { thread with pc := .storeNready shared.nready })
  | .storeNready nready =>
      some ({ shared with nready := nready + 1 },
        { thread with pc := .unlockNready })
  | .unlockNready =>
      some ({ shared with nreadyMutex := semPost shared.nreadyMutex },
        { thread with pc := .count })
  | .count =>
      some (shared, { pc := .lockPut, count := thread.count + 1 })
  | .leaveUnlock =>
      some ({ shared with putMutex := semPost shared.putMutex },
        { thread with pc := .returned })
  | .returned =>
      none

/-- One step of `consumer`. -/
def consumer
    (nitems : Int)
    (shared : Shared)
    (thread : Consumer) : Option (Shared × Consumer × List Event) :=
  match thread.pc with
  | .testItems =>
      if thread.i < nitems then
        some (shared, { thread with pc := .lockNready }, [])
      else
        some (shared, { thread with pc := .returned }, [])
  | .lockNready =>
      (semWait shared.nreadyMutex).map fun free =>
        ({ shared with nreadyMutex := free },
          { thread with pc := .testNready }, [])
  | .testNready =>
      if shared.nready = 0 then
        some (shared, { thread with pc := .beginWait }, [])
      else
        some (shared, { thread with pc := .loadNready }, [])
  | .beginWait =>
      some ({ shared with
          nreadyMutex := semPost shared.nreadyMutex
          sleeping := true },
        { thread with pc := .waiting }, [])
  | .waiting =>
      if shared.sleeping then
        none
      else
        (semWait shared.nreadyMutex).map fun free =>
          ({ shared with nreadyMutex := free },
            { thread with pc := .testNready }, [])
  | .loadNready =>
      some (shared, { thread with pc := .storeNready shared.nready }, [])
  | .storeNready nready =>
      some ({ shared with nready := nready - 1 },
        { thread with pc := .unlockNready }, [])
  | .unlockNready =>
      some ({ shared with nreadyMutex := semPost shared.nreadyMutex },
        { thread with pc := .compareBuf }, [])
  | .compareBuf =>
      (shared.load thread.i).map fun value =>
        if value ≠ thread.i then
          (shared, { thread with pc := .report },
            [.found thread.i value])
        else
          (shared, { thread with pc := .increment },
            [.found thread.i value])
  | .report =>
      (shared.load thread.i).map fun value =>
        (shared, { thread with pc := .increment }, [.error thread.i value])
  | .increment =>
      some (shared, { pc := .testItems, i := thread.i + 1 }, [])
  | .returned =>
      none

/-- All threads of one run of the program. -/
structure State (nthreads : Nat) where
  shared : Shared
  producers : Fin nthreads → Producer
  consumer : Consumer

/-- The choices of the scheduler, and a spurious wake-up of the consumer. -/
inductive Action (nthreads : Nat) where
  | producer (thread : Fin nthreads)
  | consumer
  | spurious
  deriving Repr, DecidableEq

/-- The interleavings of the threads `main` creates. -/
def system (nitems : Int) (nthreads : Nat) :
    System (State nthreads) (Action nthreads) Event where
  initial :=
    { shared := Shared.initial
      producers := fun _ => Producer.initial
      consumer := Consumer.initial }
  step? state action :=
    match action with
    | .producer thread =>
        (producer nitems state.shared (state.producers thread)).map
          fun (shared, next) =>
            ({ state with
              shared := shared
              producers := Function.update state.producers thread next },
              [])
    | .consumer =>
        (consumer nitems state.shared state.consumer).map
          fun (shared, next, events) =>
            ({ state with shared := shared, consumer := next }, events)
    | .spurious =>
        if state.shared.sleeping then
          some ({ state with
            shared := { state.shared with sleeping := false } }, [])
        else
          none

/-- Every thread has returned. -/
def AllReturned {nthreads : Nat} (state : State nthreads) : Prop :=
  (∀ thread, (state.producers thread).pc = .returned) ∧
    state.consumer.pc = .returned

instance {nthreads : Nat} (state : State nthreads) :
    Decidable (AllReturned state) :=
  inferInstanceAs (Decidable (_ ∧ _))

namespace Producer

/-- Holds `put.mutex`. -/
def putCrit (thread : Producer) : Nat :=
  match thread.pc with
  | .testNput | .loadIndex | .loadValue _ | .store _ _ | .loadNput
  | .storeNput _ | .loadNval | .storeNval _ | .unlockPut
  | .leaveUnlock => 1
  | _ => 0

/-- Holds `nready.mutex`. -/
def nreadyCrit (thread : Producer) : Nat :=
  match thread.pc with
  | .testNready | .signal | .loadNready | .storeNready _
  | .unlockNready => 1
  | _ => 0

/-- Has filled a slot it has not announced in `nready`. -/
def unannounced (thread : Producer) : Nat :=
  match thread.pc with
  | .loadNval | .storeNval _ | .unlockPut | .lockNready | .testNready
  | .signal | .loadNready | .storeNready _ => 1
  | _ => 0

/-- Has incremented `nput` but not its own count. -/
def uncounted (thread : Producer) : Nat :=
  match thread.pc with
  | .loadNval | .storeNval _ | .unlockPut | .lockNready | .testNready
  | .signal | .loadNready | .storeNready _ | .unlockNready | .count => 1
  | _ => 0

/-- What a producer knows about the shared data from its own steps. -/
def Ok (nitems : Int) (shared : Shared) (thread : Producer) : Prop :=
  match thread.pc with
  | .loadIndex => shared.nput < nitems
  | .loadValue i => shared.nput < nitems ∧ i = shared.nput
  | .store i value =>
      shared.nput < nitems ∧ i = shared.nput ∧ value = shared.nput
  | .loadNput =>
      shared.nput < nitems ∧ shared.load shared.nput = some shared.nput
  | .storeNput nput =>
      shared.nput < nitems ∧ shared.load shared.nput = some shared.nput ∧
        nput = shared.nput
  | .loadNready => shared.sleeping = false
  | .storeNready nready =>
      shared.sleeping = false ∧ nready = shared.nready
  | .leaveUnlock | .returned => nitems ≤ shared.nput
  | _ => True

end Producer

namespace Consumer

/-- Holds `nready.mutex`. -/
def crit (thread : Consumer) : Nat :=
  match thread.pc with
  | .testNready | .beginWait | .loadNready | .storeNready _
  | .unlockNready => 1
  | _ => 0

/-- The number of announcements it has taken. -/
def got (thread : Consumer) : Nat :=
  match thread.pc with
  | .unlockNready | .compareBuf | .report | .increment => thread.i + 1
  | _ => thread.i

/-- The number of slots it has read. -/
def seen (thread : Consumer) : Nat :=
  match thread.pc with
  | .report | .increment => thread.i + 1
  | _ => thread.i

/-- What the consumer knows about the shared data from its own steps. -/
def Ok (nitems : Int) (shared : Shared) (thread : Consumer) : Prop :=
  match thread.pc with
  | .testItems => True
  | .beginWait => thread.i < nitems ∧ shared.nready = 0
  | .loadNready => thread.i < nitems ∧ shared.nready ≠ 0
  | .storeNready nready =>
      thread.i < nitems ∧ shared.nready ≠ 0 ∧ nready = shared.nready
  | .report => False
  | .returned => nitems ≤ thread.i
  | _ => thread.i < nitems

end Consumer

/-- The slots below `bound` hold their own index. -/
def Filled (shared : Shared) (bound : Nat) : Prop :=
  ∀ i, i < bound → shared.load i = some i

end CsPrimer.PxMutex.ProdCons3
