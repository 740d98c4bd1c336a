import CsPrimer.Library.RingBuffer
import CsPrimer.Library.ThreadPool
import CsPrimer.Library.TransitionSystem

namespace CsPrimer.PxShm

open Library

/-!
# `client2.c` and `server2.c`: a message log in shared memory

Any number of client processes reserve slots of `msgdata` under `mutex`, copy
their messages outside it and announce them with `nstroed`; the server prints
the slots in turn.  One step is one semaphore operation or one access to the
shared memory; `strcpy` is split in two steps that copy the first part and the
rest of a message.  The clients attach after the server has initialised the
shared memory.  A read outside `msgoff` has no successor.
-/

/-- `MSG_SIZE`. -/
abbrev msgSize : Nat := 256

/-- `NMSG`. -/
abbrev nmsg : Nat := 16

/-- The message a client prepares in one iteration, `pid %ld: message %d`. -/
abbrev Message (nclients : Nat) := Fin nclients × Nat

/-- The string at an offset: the messages its two parts stem from. -/
structure Text (nclients : Nat) where
  first : Option (Message nclients)
  rest : Option (Message nclients)
  deriving DecidableEq

/-- A message that has been copied completely. -/
def Text.whole {nclients : Nat} (message : Message nclients) :
    Text nclients where
  first := some message
  rest := some message

/-- `struct shmstruct`; `msgdata` maps an offset to the string found there. -/
structure Shared (nclients : Nat) where
  mutex : Nat
  nempty : Nat
  nstroed : Nat
  nput : Nat
  noverflow : Int
  noverflowmutex : Nat
  msgoff : Fin nmsg → Nat
  msgdata : Nat → Text nclients

/-- The shared memory as `server2.c` initialises it. -/
def Shared.initial (nclients : Nat) : Shared nclients where
  mutex := 1
  nempty := nmsg
  nstroed := 0
  nput := 0
  noverflow := 0
  noverflowmutex := 1
  msgoff := fun index => index.val * msgSize
  msgdata := fun _ => { first := none, rest := none }

/-- `ptr->msgoff[i]`. -/
def Shared.offsetAt {nclients : Nat} (shared : Shared nclients) (i : Nat) :
    Option Nat :=
  if inBounds : i < nmsg then
    some (shared.msgoff ⟨i, inBounds⟩)
  else
    none

/-- Where a client is, with the values it has loaded. -/
inductive ClientPc where
  | testLoop
  | tryWait
  | waitOverflow
  | loadOverflow
  | storeOverflow (noverflow : Int)
  | postOverflow
  | waitMutex
  | loadSlot
  | loadOffset (slot : Nat)
  | loadNput (offset : Nat)
  | storeNput (offset nput : Nat)
  | resetNput (offset : Nat)
  | postMutex (offset : Nat)
  | copyFirst (offset : Nat)
  | copyRest (offset : Nat)
  | postNstroed
  | increment
  | returned
  deriving Repr, DecidableEq

/-- A client process and its loop variable. -/
structure Client where
  pc : ClientPc
  index : Nat
  deriving Repr, DecidableEq

def Client.initial : Client where
  pc := .testLoop
  index := 0

/-- Where the server is. -/
inductive ServerPc where
  | waitNstroed
  | waitMutex
  | loadOffset
  | print
  | advance
  | postMutex
  | postNempty
  | waitOverflow
  | loadOverflow
  | postOverflow
  | testOverflow
  deriving Repr, DecidableEq

/-- The server process and its local variables. -/
structure Server where
  pc : ServerPc
  index : Nat
  offset : Nat
  lastnoverflow : Int
  temp : Int
  deriving Repr, DecidableEq

def Server.initial : Server where
  pc := .waitNstroed
  index := 0
  offset := 0
  lastnoverflow := 0
  temp := 0

/-- What an observer of the log sees. -/
inductive Event (nclients : Nat) where
  /-- `sem_trywait` on `nempty` succeeds. -/
  | accepted (message : Message nclients)
  /-- `nput` moves on behind the slot taken for the message. -/
  | reserved (message : Message nclients)
  /-- `strcpy` of the message to the offset ends. -/
  | copied (offset : Nat) (message : Message nclients)
  /-- The server prints the string at the offset. -/
  | printed (offset : Nat) (text : Text nclients)
  /-- The server posts `nempty` for the slot at the offset. -/
  | released (offset : Nat)
  /-- The server prints the overflow counter. -/
  | overflow (noverflow : Int)
  deriving DecidableEq

/-- One step of the enqueue loop of client `sender`. -/
def client
    {nclients : Nat}
    (nloop : Int)
    (sender : Fin nclients)
    (shared : Shared nclients)
    (process : Client) :
    Option (Shared nclients × Client × List (Event nclients)) :=
  match process.pc with
  | .testLoop =>
      if process.index < nloop then
        some (shared, { process with pc := .tryWait }, [])
      else
        some (shared, { process with pc := .returned }, [])
  | .tryWait =>
      match semWait shared.nempty with
      | none =>
          some (shared, { process with pc := .waitOverflow }, [])
      | some tokens =>
          some ({ shared with nempty := tokens },
            { process with pc := .waitMutex },
            [.accepted (sender, process.index)])
  | .waitOverflow =>
      (semWait shared.noverflowmutex).map fun tokens =>
        ({ shared with noverflowmutex := tokens },
          { process with pc := .loadOverflow }, [])
  | .loadOverflow =>
      some (shared,
        { process with pc := .storeOverflow shared.noverflow }, [])
  | .storeOverflow noverflow =>
      some ({ shared with noverflow := noverflow + 1 },
        { process with pc := .postOverflow }, [])
  | .postOverflow =>
      some ({ shared with noverflowmutex := semPost shared.noverflowmutex },
        { process with pc := .increment }, [])
  | .waitMutex =>
      (semWait shared.mutex).map fun tokens =>
        ({ shared with mutex := tokens },
          { process with pc := .loadSlot }, [])
  | .loadSlot =>
      some (shared, { process with pc := .loadOffset shared.nput }, [])
  | .loadOffset slot =>
      (shared.offsetAt slot).map fun offset =>
        (shared, { process with pc := .loadNput offset }, [])
  | .loadNput offset =>
      some (shared,
        { process with pc := .storeNput offset shared.nput }, [])
  | .storeNput offset nput =>
      if nmsg ≤ nput + 1 then
        some ({ shared with nput := nput + 1 },
          { process with pc := .resetNput offset },
          [.reserved (sender, process.index)])
      else
        some ({ shared with nput := nput + 1 },
          { process with pc := .postMutex offset },
          [.reserved (sender, process.index)])
  | .resetNput offset =>
      some ({ shared with nput := 0 },
        { process with pc := .postMutex offset }, [])
  | .postMutex offset =>
      some ({ shared with mutex := semPost shared.mutex },
        { process with pc := .copyFirst offset }, [])
  | .copyFirst offset =>
      some ({ shared with
          msgdata := Function.update shared.msgdata offset
            { shared.msgdata offset with
              first := some (sender, process.index) } },
        { process with pc := .copyRest offset }, [])
  | .copyRest offset =>
      some ({ shared with
          msgdata := Function.update shared.msgdata offset
            { shared.msgdata offset with
              rest := some (sender, process.index) } },
        { process with pc := .postNstroed },
        [.copied offset (sender, process.index)])
  | .postNstroed =>
      some ({ shared with nstroed := semPost shared.nstroed },
        { process with pc := .increment }, [])
  | .increment =>
      some (shared, { pc := .testLoop, index := process.index + 1 }, [])
  | .returned =>
      none

/-- One step of the consumer loop of the server. -/
def server
    {nclients : Nat}
    (shared : Shared nclients)
    (process : Server) :
    Option (Shared nclients × Server × List (Event nclients)) :=
  match process.pc with
  | .waitNstroed =>
      (semWait shared.nstroed).map fun tokens =>
        ({ shared with nstroed := tokens },
          { process with pc := .waitMutex }, [])
  | .waitMutex =>
      (semWait shared.mutex).map fun tokens =>
        ({ shared with mutex := tokens },
          { process with pc := .loadOffset }, [])
  | .loadOffset =>
      (shared.offsetAt process.index).map fun offset =>
        (shared, { process with pc := .print, offset := offset }, [])
  | .print =>
      some (shared, { process with pc := .advance },
        [.printed process.offset (shared.msgdata process.offset)])
  | .advance =>
      some (shared,
        { process with
          pc := .postMutex
          index := (process.index + 1) % nmsg }, [])
  | .postMutex =>
      some ({ shared with mutex := semPost shared.mutex },
        { process with pc := .postNempty }, [])
  | .postNempty =>
      some ({ shared with nempty := semPost shared.nempty },
        { process with pc := .waitOverflow },
        [.released process.offset])
  | .waitOverflow =>
      (semWait shared.noverflowmutex).map fun tokens =>
        ({ shared with noverflowmutex := tokens },
          { process with pc := .loadOverflow }, [])
  | .loadOverflow =>
      some (shared,
        { process with pc := .postOverflow, temp := shared.noverflow }, [])
  | .postOverflow =>
      some ({ shared with noverflowmutex := semPost shared.noverflowmutex },
        { process with pc := .testOverflow }, [])
  | .testOverflow =>
      if process.temp ≠ process.lastnoverflow then
        some (shared,
          { process with
            pc := .waitNstroed
            lastnoverflow := process.temp },
          [.overflow process.temp])
      else
        some (shared, { process with pc := .waitNstroed }, [])

/-- The clients and the server. -/
structure State (nclients : Nat) where
  shared : Shared nclients
  clients : Fin nclients → Client
  server : Server

/-- The scheduler picks the process that takes the next step. -/
inductive Action (nclients : Nat) where
  | client (process : Fin nclients)
  | server
  deriving Repr, DecidableEq

/-- The interleavings of clients with loop counts `nloop` and the server. -/
def system {nclients : Nat} (nloop : Fin nclients → Int) :
    System (State nclients) (Action nclients) (Event nclients) where
  initial :=
    { shared := Shared.initial nclients
      clients := fun _ => Client.initial
      server := Server.initial }
  step? state action :=
    match action with
    | .client process =>
        (client (nloop process) process state.shared
            (state.clients process)).map
          fun (shared, next, events) =>
            ({ state with
              shared := shared
              clients := Function.update state.clients process next },
              events)
    | .server =>
        (server state.shared state.server).map
          fun (shared, next, events) =>
            ({ state with shared := shared, server := next }, events)

end CsPrimer.PxShm
