import CsPrimer.Library.TransitionSystem

namespace CsPrimer.Lock.TicketLock

open Library

/-!
# `arch_spin_lock`, `arch_spin_trylock` and `arch_spin_unlock`

Any number of processors lock, try to lock and unlock one spinlock.  A ticket
has `width` bits, 8 or 16 in the source, and is the lower half of `head_tail`
or the upper one.  Without paravirtual locks `TICKET_LOCK_INC` is 1 and there
is no `TICKET_SLOWPATH_FLAG`; the spinning is not counted.  Accesses to the lock
take effect one after the other.
-/

/-- `struct __raw_tickets`. -/
structure RawTickets (width : Nat) where
  head : BitVec width
  tail : BitVec width
  deriving Repr, DecidableEq

namespace RawTickets

variable {width : Nat}

/-- The other member of the union. -/
def headTail (tickets : RawTickets width) : BitVec (width + width) :=
  tickets.tail ++ tickets.head

def ofHeadTail (headTail : BitVec (width + width)) : RawTickets width where
  head := headTail.extractLsb' 0 width
  tail := headTail.extractLsb' width width

/-- `TICKET_LOCK_INC`, in `tail`. -/
def inc : RawTickets width where
  head := 0
  tail := 1

/-- `xadd`: what was there, and the sum. -/
def xadd (tickets inc : RawTickets width) :
    RawTickets width × RawTickets width :=
  (tickets, ofHeadTail (tickets.headTail + inc.headTail))

/-- `cmpxchg`: what was there, and what is there now. -/
def cmpxchg (headTail old new : BitVec (width + width)) :
    BitVec (width + width) × BitVec (width + width) :=
  if headTail = old then
    (headTail, new)
  else
    (headTail, headTail)

end RawTickets

/-- Where a processor is. -/
inductive Position (width : Nat) where
  | outside
  | spinning (tail : BitVec width)
  | exchanging (old : RawTickets width)
  | holding
  deriving Repr, DecidableEq

/-- The lock and the processors. -/
structure State (Cpu : Type) (width : Nat) where
  tickets : RawTickets width
  cpus : Cpu → Position width

/-- A call, or what a processor does next in its call or behind it. -/
inductive Action (Cpu : Type) where
  | lock (cpu : Cpu)
  | trylock (cpu : Cpu)
  | goOn (cpu : Cpu)
  deriving Repr, DecidableEq

/-- A ticket is drawn, and a call returns. -/
inductive Event (Cpu : Type) where
  | drew (cpu : Cpu)
  | entered (cpu : Cpu)
  | refused (cpu : Cpu)
  | left (cpu : Cpu)
  deriving Repr, DecidableEq

section Steps

variable
  {Cpu : Type} [DecidableEq Cpu]
  {width : Nat}

def State.withCpu
    (state : State Cpu width)
    (cpu : Cpu)
    (position : Position width) : State Cpu width :=
  { state with cpus := Function.update state.cpus cpu position }

/-- `arch_spin_lock`, up to its loop. -/
def archSpinLock (state : State Cpu width) (cpu : Cpu) :
    State Cpu width × List (Event Cpu) :=
  let (inc, tickets) := state.tickets.xadd .inc
  if inc.head = inc.tail then
    ({ state.withCpu cpu .holding with tickets := tickets },
      [.drew cpu, .entered cpu])
  else
    ({ state.withCpu cpu (.spinning inc.tail) with tickets := tickets },
      [.drew cpu])

/-- A turn of the loop of `arch_spin_lock`. -/
def spin (state : State Cpu width) (cpu : Cpu) (tail : BitVec width) :
    State Cpu width × List (Event Cpu) :=
  if state.tickets.head = tail then
    (state.withCpu cpu .holding, [.entered cpu])
  else
    (state, [])

/-- `arch_spin_trylock`, up to its `cmpxchg`. -/
def archSpinTrylock (state : State Cpu width) (cpu : Cpu) :
    State Cpu width × List (Event Cpu) :=
  let old := state.tickets
  if old.head ≠ old.tail then
    (state, [.refused cpu])
  else
    (state.withCpu cpu (.exchanging old), [])

/-- The `cmpxchg` of `arch_spin_trylock`; `TICKET_SHIFT` is `width`. -/
def exchange (state : State Cpu width) (cpu : Cpu) (old : RawTickets width) :
    State Cpu width × List (Event Cpu) :=
  let new := old.headTail + BitVec.ofNat (width + width) 1 <<< width
  let (headTail, after) :=
    RawTickets.cmpxchg state.tickets.headTail old.headTail new
  let tickets := RawTickets.ofHeadTail after
  if headTail = old.headTail then
    ({ state.withCpu cpu .holding with tickets := tickets },
      [.drew cpu, .entered cpu])
  else
    ({ state.withCpu cpu .outside with tickets := tickets }, [.refused cpu])

/-- `arch_spin_unlock`, which adds to `head` alone. -/
def archSpinUnlock (state : State Cpu width) (cpu : Cpu) :
    State Cpu width × List (Event Cpu) :=
  ({ state.withCpu cpu .outside with
     tickets :=
       { state.tickets with head := state.tickets.head + 1 } },
    [.left cpu])

def step? (state : State Cpu width) :
    Action Cpu → Option (State Cpu width × List (Event Cpu))
  | .lock cpu =>
      match state.cpus cpu with
      | .outside => some (archSpinLock state cpu)
      | _ => none
  | .trylock cpu =>
      match state.cpus cpu with
      | .outside => some (archSpinTrylock state cpu)
      | _ => none
  | .goOn cpu =>
      match state.cpus cpu with
      | .outside => none
      | .spinning tail => some (spin state cpu tail)
      | .exchanging old => some (exchange state cpu old)
      | .holding => some (archSpinUnlock state cpu)

variable (Cpu width) in
/-- The interleavings of the processors, from `__ARCH_SPIN_LOCK_UNLOCKED` on. -/
def system : System (State Cpu width) (Action Cpu) (Event Cpu) where
  initial :=
    { tickets := ⟨0, 0⟩
      cpus := fun _ => .outside }
  step? :=
    step?

end Steps

/-- The processors in the order in which they draw their tickets. -/
def draws {Cpu : Type} (trace : List (Event Cpu)) : List Cpu :=
  trace.filterMap fun
    | .drew cpu => some cpu
    | _ => none

/-- The processors in the order in which they get the lock. -/
def entries {Cpu : Type} (trace : List (Event Cpu)) : List Cpu :=
  trace.filterMap fun
    | .entered cpu => some cpu
    | _ => none

/-- A processor that has the lock, or waits for it with a ticket. -/
def Position.HasTicket {width : Nat} : Position width → Prop
  | .outside => False
  | .spinning _ => True
  | .exchanging _ => False
  | .holding => True

/-- No two processors have the lock. -/
def Exclusive {Cpu : Type} {width : Nat} (state : State Cpu width) : Prop :=
  ∀ first second, state.cpus first = .holding → state.cpus second = .holding →
    first = second

end CsPrimer.Lock.TicketLock
