import CsPrimer.PxMsg.Notify
import CsPrimer.Library.OneShot
import Mathlib.Data.List.Count

namespace CsPrimer.PxMsg

open Library

/-!
# `mqnotifysig4.c`, `mqnotifysig5.c` and `mqnotifythread.c`

The three programs drain the queue without blocking after each notification:
the first one waits for a blocked signal in `sigwait`, the second one for a
byte that the handler writes to a pipe, and in the third one every notification
starts a thread.  Runs start when the first `mq_notify` returns, and end with
the process.
-/

/-- What can be observed of the queue and a program. -/
inductive DrainEvent where
  | sent (message : Message)
  /-- The arrival has used up the registration. -/
  | notified
  /-- A message has been received, and its line shows this `n`. -/
  | read (message : Message) (n : Nat)
  deriving Repr, DecidableEq

/-- `mq_send`: the queue afterwards, and whether a notification is raised. -/
def arrive
    (maxmsg : Nat)
    (message : Message)
    (queue : List Message)
    (registered : Bool) : Option (List Message × Bool) :=
  if maxmsg ≤ queue.length then
    none
  else
    some (enqueue message queue, queue.isEmpty && registered)

/-- The events of an arrival. -/
def arrivalEvents (message : Message) (raised : Bool) : List DrainEvent :=
  if raised then
    [.sent message, .notified]
  else
    [.sent message]

namespace MqNotifySig4

/-- Where the program is in the loop. -/
inductive Pc where
  | testLoop
  | sigwait
  | notify
  | receive
  | increment
  | returned
  /-- `error_handler` has ended the process. -/
  | exited
  deriving Repr, DecidableEq

/-- The queue, the pending signal, which is always blocked, and the process. -/
structure State where
  queue : List Message
  registered : Bool
  pending : Bool
  i : Nat
  pc : Pc
  deriving Repr, DecidableEq

/-- Who takes the next step. -/
inductive Action where
  | send (message : Message)
  | program
  deriving Repr, DecidableEq

/-- The steps of the loop. -/
def loop (state : State) : Option (State × List DrainEvent) :=
  match state.pc with
  | .testLoop =>
      if state.i < 3 then
        some ({ state with pc := .sigwait }, [])
      else
        some ({ state with pc := .returned }, [])
  | .sigwait =>
      if state.pending then
        some ({ state with pending := false, pc := .notify }, [])
      else
        none
  | .notify =>
      if state.registered then
        some ({ state with pc := .exited }, [])
      else
        some ({ state with registered := true, pc := .receive }, [])
  | .receive =>
      match state.queue with
      | [] =>
          some ({ state with pc := .increment }, [])
      | message :: queue =>
          some ({ state with queue := queue },
            [.read message message.length])
  | .increment =>
      some ({ state with i := state.i + 1, pc := .testLoop }, [])
  | .returned | .exited =>
      none

/-- `mqnotifysig4` and its senders. -/
def program (maxmsg : Nat) (queue : List Message) :
    System State Action DrainEvent where
  initial :=
    { queue := queue
      registered := true
      pending := false
      i := 0
      pc := .testLoop }
  step? state action :=
    match action with
    | .send message =>
        if state.pc = .returned ∨ state.pc = .exited then
          none
        else
          (arrive maxmsg message state.queue state.registered).map
            fun (queue, raised) =>
              ({ state with
                  queue := queue
                  registered := state.registered && !raised
                  pending := state.pending || raised },
                arrivalEvents message raised)
    | .program => loop state

end MqNotifySig4

namespace MqNotifySig5

/-- Where the program is in the loop. -/
inductive Pc where
  | testLoop
  | select
  | readPipe
  | notify
  | receive
  | increment
  | returned
  deriving Repr, DecidableEq

/-- The queue, the pending signal, the bytes in the pipe and the process. -/
structure State where
  queue : List Message
  registered : Bool
  pending : Bool
  pipe : Nat
  i : Nat
  pc : Pc
  deriving Repr, DecidableEq

/-- Who takes the next step. -/
inductive Action where
  | send (message : Message)
  | signal
  | program
  deriving Repr, DecidableEq

/--
`sig_usr1` runs and writes a byte.  It interrupts `select`, which leaves `rdset`
as it is: the descriptor of the pipe is set in it.
-/
def deliver (state : State) : Option (State × List DrainEvent) :=
  if state.pending then
    some ({ state with
        pending := false
        pipe := state.pipe + 1
        pc := if state.pc = .select then .readPipe else state.pc }, [])
  else
    none

/-- The steps of the loop. -/
def loop (state : State) : Option (State × List DrainEvent) :=
  match state.pc with
  | .testLoop =>
      if state.i < 3 then
        some ({ state with pc := .select }, [])
      else
        some ({ state with pc := .returned }, [])
  | .select =>
      if 0 < state.pipe then
        some ({ state with pc := .readPipe }, [])
      else
        none
  | .readPipe =>
      match state.pipe with
      | 0 => none
      | bytes + 1 => some ({ state with pipe := bytes, pc := .notify }, [])
  | .notify =>
      -- The result is not tested: an error leaves the registration alone.
      some ({ state with registered := true, pc := .receive }, [])
  | .receive =>
      match state.queue with
      | [] =>
          some ({ state with pc := .increment }, [])
      | message :: queue =>
          -- `n = mq_receive(...) >= 0` assigns the comparison.
          some ({ state with queue := queue }, [.read message 1])
  | .increment =>
      some ({ state with i := state.i + 1, pc := .testLoop }, [])
  | .returned =>
      none

/-- `mqnotifysig5` and its senders. -/
def program (maxmsg : Nat) (queue : List Message) :
    System State Action DrainEvent where
  initial :=
    { queue := queue
      registered := true
      pending := false
      pipe := 0
      i := 0
      pc := .testLoop }
  step? state action :=
    match action with
    | .send message =>
        if state.pc = .returned then
          none
        else
          (arrive maxmsg message state.queue state.registered).map
            fun (queue, raised) =>
              ({ state with
                  queue := queue
                  registered := state.registered && !raised
                  pending := state.pending || raised },
                arrivalEvents message raised)
    | .signal => deliver state
    | .program => loop state

end MqNotifySig5

namespace MqNotifyThread

/-- Where a thread is in `notify_thread`. -/
inductive Phase where
  | started
  | receiving
  | exited
  deriving Repr, DecidableEq

/-- The queue and the threads the notifications have started. -/
structure State where
  queue : List Message
  registered : Bool
  threads : List Phase
  deriving Repr, DecidableEq

/-- Who takes the next step. -/
inductive Action where
  | send (message : Message)
  | thread (index : Nat)
  deriving Repr, DecidableEq

/-- A step of `notify_thread`. -/
def notifyThread
    (state : State)
    (index : Nat) : Option (State × List DrainEvent) :=
  match state.threads[index]? with
  | some .started =>
      -- The result of `mq_notify` is not tested.
      some ({ state with
        registered := true
        threads := state.threads.set index .receiving }, [])
  | some .receiving =>
      match state.queue with
      | [] =>
          some ({ state with
            threads := state.threads.set index .exited }, [])
      | message :: queue =>
          some ({ state with queue := queue },
            [.read message message.length])
  | some .exited | none =>
      none

/-- `mqnotifythread` and its senders, while `main` pauses. -/
def program (maxmsg : Nat) (queue : List Message) :
    System State Action DrainEvent where
  initial :=
    { queue := queue
      registered := true
      threads := [] }
  step? state action :=
    match action with
    | .send message =>
        (arrive maxmsg message state.queue state.registered).map
          fun (queue, raised) =>
            ({ state with
                queue := queue
                registered := state.registered && !raised
                threads :=
                  if raised then
                    state.threads ++ [.started]
                  else
                    state.threads },
              arrivalEvents message raised)
    | .thread index => notifyThread state index

end MqNotifyThread

/-- The messages that have been sent. -/
def sentIn (trace : List DrainEvent) : List Message :=
  trace.filterMap fun event =>
    match event with
    | .sent message => some message
    | _ => none

/-- The messages that have been received. -/
def readIn (trace : List DrainEvent) : List Message :=
  trace.filterMap fun event =>
    match event with
    | .read message _ => some message
    | _ => none

/-- Every message is on the queue, or it has been received once. -/
def Conserved
    (initial : List Message)
    (trace : List DrainEvent)
    (queue : List Message) : Prop :=
  (initial ++ sentIn trace).Perm (readIn trace ++ queue)

section Common

variable
  {maxmsg : Nat}
  {message : Message}
  {initial queue after : List Message}
  {trace : List DrainEvent}
  {registered raised : Bool}

/-- What an arrival does to the queue. -/
theorem arrive_spec
    (arrived : arrive maxmsg message queue registered = some (after, raised)) :
    after = enqueue message queue ∧
      (raised = true ↔ queue = [] ∧ registered = true) := by
  simp only [arrive, Option.ite_none_left_eq_some, Option.some.injEq,
    Prod.mk.injEq] at arrived
  obtain ⟨-, rfl, rfl⟩ := arrived
  simp

/-- An arrival is a move of the queue, and of the registration. -/
theorem moves_of_arrive
    (state : OneShot Message)
    (arrived :
      arrive maxmsg message state.queue state.registered =
        some (after, raised)) :
    OneShot.Moves state (state.arrived after raised) := by
  obtain ⟨rfl, raisedIff⟩ := arrive_spec arrived
  refine .arrives ?_ raisedIff
  intro isEmpty
  have lengths := congrArg List.length isEmpty
  rw [enqueue, List.orderedInsert_length] at lengths
  simp at lengths

theorem conserved_arrive
    (arrived : arrive maxmsg message queue registered = some (after, raised))
    (conserved : Conserved initial trace queue) :
    Conserved initial (trace ++ arrivalEvents message raised) after := by
  obtain ⟨rfl, -⟩ := arrive_spec arrived
  have sent :
      sentIn (trace ++ arrivalEvents message raised) =
        sentIn trace ++ [message] := by
    cases raised <;> simp [sentIn, arrivalEvents]
  have read :
      readIn (trace ++ arrivalEvents message raised) = readIn trace := by
    cases raised <;> simp [readIn, arrivalEvents]
  unfold Conserved at conserved ⊢
  rw [sent, read, ← List.append_assoc]
  have inserted : (enqueue message queue).Perm (message :: queue) :=
    List.perm_orderedInsert _ message queue
  have first : (initial ++ sentIn trace ++ [message]).Perm
      (message :: (initial ++ sentIn trace)) :=
    List.perm_append_singleton _ _
  have last : (message :: (readIn trace ++ queue)).Perm
      (readIn trace ++ message :: queue) :=
    List.perm_middle.symm
  exact first.trans ((conserved.cons message).trans
    (last.trans (inserted.symm.append_left _)))

theorem conserved_read
    {n : Nat}
    (conserved : Conserved initial trace (message :: queue)) :
    Conserved initial (trace ++ [.read message n]) queue := by
  unfold Conserved at conserved ⊢
  simpa [sentIn, readIn] using conserved

end Common

end CsPrimer.PxMsg
