import CsPrimer.Library.TransitionSystem
import Mathlib.Data.List.Sort

namespace CsPrimer.PxMsg

open Library

/-!
# `mqnotifysig2.c` and `mqnotifysig3.c`: signals from a message queue

Any number of senders put messages on a queue; the program registers for one
notification at a time and sleeps in `sigsuspend` until `SIGUSR1` has set
`mqflag`.  The two programs have the same loop: after registering again,
`mqnotifysig3` drains the queue without blocking and `mqnotifysig2` receives
one message.  Runs start when the first `mq_notify` returns, with the messages
the queue holds at that moment.
-/

/-- What `mq_send` puts on the queue: `msg_prio` and `msg_len`. -/
structure Message where
  priority : Nat
  length : Nat
  deriving Repr, DecidableEq

/-- Where the program is in the loop. -/
inductive Pc where
  | testLoop
  | block
  | testFlag
  | suspend
  /-- In `sigsuspend(&zeromask)`: no signal is blocked. -/
  | suspended
  | resetFlag
  | notify
  | receive
  /-- In a blocking `mq_receive` on an empty queue. -/
  | receiving
  | unblock
  | increment
  | returned
  /-- `error_handler` has ended the process. -/
  | exited
  deriving Repr, DecidableEq

/-- The queue and its registration, the pending signal and the process. -/
structure State where
  queue : List Message
  registered : Bool
  pending : Bool
  blocked : Bool
  mqflag : Nat
  i : Nat
  pc : Pc
  deriving Repr, DecidableEq

/-- What can be observed of the queue and the program. -/
inductive Event where
  | sent (message : Message)
  /-- The kernel raises `SIGUSR1` and removes the registration. -/
  | notified
  /-- `sig_usr1` has run. -/
  | handled
  | read (n : Nat)
  deriving Repr, DecidableEq

/-- A message is queued behind those of at least its priority. -/
def enqueue (message : Message) (queue : List Message) : List Message :=
  queue.orderedInsert (fun new old => old.priority < new.priority) message

/--
`mq_send`.  A process that waits in `mq_receive` gets the message; otherwise
its arrival on an empty queue uses up the registration.
-/
def mqSend
    (maxmsg : Nat)
    (message : Message)
    (state : State) :
    Option (State × List Event) :=
  if state.pc = .receiving then
    some ({ state with pc := .unblock },
      [.sent message, .read message.length])
  else if maxmsg ≤ state.queue.length then
    none
  else if state.queue = [] ∧ state.registered then
    some ({ state with
        queue := enqueue message state.queue
        registered := false
        pending := true },
      [.sent message, .notified])
  else
    some ({ state with queue := enqueue message state.queue },
      [.sent message])

/-- `sig_usr1`, run for the pending signal. -/
def sigUsr1 (state : State) : State :=
  { state with pending := false, mqflag := 1 }

/-- The kernel delivers the signal; `sigsuspend` then returns. -/
def deliver (state : State) : Option (State × List Event) :=
  if state.pending then
    if state.pc = .suspended then
      some ({ sigUsr1 state with pc := .testFlag }, [.handled])
    else if state.blocked then
      none
    else
      some (sigUsr1 state, [.handled])
  else
    none

/-- `sigprocmask(SIG_UNBLOCK, &newmask, NULL)`: delivers a pending signal. -/
def unblock (state : State) : State × List Event :=
  if state.pending then
    ({ sigUsr1 state with blocked := false, pc := .increment }, [.handled])
  else
    ({ state with blocked := false, pc := .increment }, [])

/-- `mq_notify` fails when a process is registered. -/
def mqNotify (state : State) : Option State :=
  if state.registered then
    none
  else
    some { state with registered := true, pc := .receive }

/-- The steps of the loop; the programs differ in two of them. -/
def loop
    (notify receive : State → State × List Event)
    (state : State) :
    Option (State × List Event) :=
  match state.pc with
  | .testLoop =>
      if state.i < 3 then
        some ({ state with pc := .block }, [])
      else
        some ({ state with pc := .returned }, [])
  | .block =>
      some ({ state with blocked := true, pc := .testFlag }, [])
  | .testFlag =>
      if state.mqflag = 0 then
        some ({ state with pc := .suspend }, [])
      else
        some ({ state with pc := .resetFlag }, [])
  | .suspend =>
      some ({ state with pc := .suspended }, [])
  | .resetFlag =>
      some ({ state with mqflag := 0, pc := .notify }, [])
  | .notify =>
      some (notify state)
  | .receive =>
      some (receive state)
  | .unblock =>
      some (unblock state)
  | .increment =>
      some ({ state with i := state.i + 1, pc := .testLoop }, [])
  | .suspended | .receiving | .returned | .exited =>
      none

/-- Who takes the next step. -/
inductive Action where
  | send (message : Message)
  | signal
  | program
  deriving Repr, DecidableEq

/-- The first `mq_notify` returns while the queue holds some messages. -/
def State.initial (queue : List Message) : State where
  queue := queue
  registered := true
  pending := false
  blocked := false
  mqflag := 0
  i := 0
  pc := .testLoop

/-- The interleavings of the senders, the signal and the program. -/
def system
    (notify receive : State → State × List Event)
    (maxmsg : Nat)
    (queue : List Message) :
    System State Action Event where
  initial :=
    State.initial queue
  step? state action :=
    match action with
    | .send message => mqSend maxmsg message state
    | .signal => deliver state
    | .program => loop notify receive state

/-- The program sleeps, and no signal is on its way. -/
def State.Asleep (state : State) : Prop :=
  state.pc = .suspended ∧ state.mqflag = 0 ∧ state.pending = false
  deriving Decidable

namespace MqNotifySig3

/-- `mq_notify(mqd, &sigev)`, whose result is not tested. -/
def notify (state : State) : State × List Event :=
  ((mqNotify state).getD { state with pc := .receive }, [])

/-- One `mq_receive` of the drain loop; `EAGAIN` ends the loop. -/
def receive (state : State) : State × List Event :=
  match state.queue with
  | [] => ({ state with pc := .unblock }, [])
  | message :: queue =>
      ({ state with queue := queue }, [.read message.length])

/-- `mqnotifysig3` and its senders. -/
def program (maxmsg : Nat) (queue : List Message) :
    System State Action Event :=
  system notify receive maxmsg queue

end MqNotifySig3

namespace MqNotifySig2

/-- `mq_notify(mqd, &sigev)`, an error of which ends the process. -/
def notify (state : State) : State × List Event :=
  ((mqNotify state).getD { state with pc := .exited }, [])

/-- The blocking `mq_receive`. -/
def receive (state : State) : State × List Event :=
  match state.queue with
  | [] => ({ state with pc := .receiving }, [])
  | message :: queue =>
      ({ state with queue := queue, pc := .unblock },
        [.read message.length])

/-- `mqnotifysig2` and its senders. -/
def program (maxmsg : Nat) (queue : List Message) :
    System State Action Event :=
  system notify receive maxmsg queue

end MqNotifySig2

end CsPrimer.PxMsg
