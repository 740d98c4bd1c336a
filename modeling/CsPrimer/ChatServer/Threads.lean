import CsPrimer.ChatServer.ClientTable

namespace CsPrimer.ChatServer.Threads

open Library

/-!
# `mthread_server.c`: the accept loop and the threads it creates

Every handler gets the address of the one variable `clnt_sockfd`, which the
loop of `main` overwrites with the result of the next `accept`; a handler reads
it in its first step, whenever that is.  The result -1 of a failed `accept` is
`none`.  `accept` returns a descriptor that is not open.  Every critical
section is one step, and an access outside `clnt_sockfdvec` has no successor.
-/

/-- Where the loop of `main` is, with what `accept` has returned. -/
inductive Position where
  | accepting
  | registering (accepted : Nat)
  | creating (accepted : Nat)
  deriving Repr, DecidableEq

/-- Where a handler is, with the descriptor it has read. -/
inductive Phase where
  | created
  | serving (clntSockfd : Option Nat)
  | closing (clntSockfd : Nat)
  | returned (clntSockfd : Nat)
  deriving Repr, DecidableEq

/-- A handler, and the result of the `accept` it has been created for. -/
structure Handler where
  accepted : Nat
  phase : Phase
  deriving Repr, DecidableEq

/-- The server. -/
structure State where
  position : Position
  /-- The variable `clnt_sockfd` of `main`. -/
  clntSockfd : Option Nat
  table : Table
  /-- The open descriptors of connections. -/
  opened : List Nat
  /-- The connections `main` has finished its turn for, in order. -/
  served : List Nat
  /-- The handlers in the order of their creation. -/
  handlers : List Handler
  deriving Repr, DecidableEq

/-- A step of `main`, or of the handler with a number. -/
inductive Action where
  | accept (result : Option Nat)
  | register
  | create (succeeds : Bool)
  | start (i : Nat)
  | receive (i : Nat) (msg : List UInt8)
  | readFails (i : Nat)
  | disconnect (i : Nat)
  | close (i : Nat)
  deriving Repr, DecidableEq

/-- A handler goes on. -/
def State.goOn
    (state : State)
    (i : Nat)
    (handler : Handler)
    (phase : Phase) : State :=
  { state with
    handlers := state.handlers.set i { handler with phase := phase } }

/-- One step of `main`. -/
def mainStep (state : State) (action : Action) : Option State :=
  match action, state.position with
  | .accept none, .accepting =>
      some { state with clntSockfd := none }
  | .accept (some sockfd), .accepting =>
      if sockfd ∈ state.opened then
        none
      else
        some { state with
          position := .registering sockfd
          clntSockfd := some sockfd
          opened := state.opened ++ [sockfd] }
  | .register, .registering accepted =>
      match state.clntSockfd with
      | none =>
          none
      | some sockfd =>
          (registerClnt state.table sockfd).map fun table =>
            { state with position := .creating accepted, table := table }
  | .create succeeds, .creating accepted =>
      some { state with
        position := .accepting
        served := state.served ++ [accepted]
        handlers :=
          if succeeds then
            state.handlers ++ [{ accepted := accepted, phase := .created }]
          else
            state.handlers }
  | _, _ =>
      none

/-- One step of a handler, whose `read` of a bad descriptor fails. -/
def handlerStep
    (state : State)
    (action : Action)
    (i : Nat)
    (handler : Handler) : Option (State × List Event) :=
  match action, handler.phase with
  | .start _, .created =>
      some (state.goOn i handler (.serving state.clntSockfd), [])
  | .receive _ msg, .serving (some sockfd) =>
      if sockfd ∈ state.opened then
        (sendMsg state.table sockfd 0).map fun sockfds =>
          (state, sockfds.map (.written · msg))
      else
        none
  | .readFails _, .serving _ =>
      some (state, [])
  | .disconnect _, .serving (some sockfd) =>
      if sockfd ∈ state.opened then
        (removeClnt state.table sockfd).map fun table =>
          ({ state.goOn i handler (.closing sockfd) with table := table }, [])
      else
        none
  | .close _, .closing sockfd =>
      some ({ state.goOn i handler (.returned sockfd) with
        opened := state.opened.erase sockfd }, [])
  | _, _ =>
      none

/-- The handler an action is of. -/
def Action.handler? : Action → Option Nat
  | .start i | .receive i _ | .readFails i | .disconnect i | .close i =>
      some i
  | .accept _ | .register | .create _ =>
      none

/-- The interleavings of `main` and the handlers. -/
def system : System State Action Event where
  initial :=
    { position := .accepting
      clntSockfd := none
      table := Table.initial
      opened := []
      served := []
      handlers := [] }
  step? state action :=
    match action.handler? with
    | none =>
        (mainStep state action).map fun next => (next, [])
    | some i =>
        state.handlers[i]?.bind (handlerStep state action i)

/-- What a handler has read, or would read now. -/
def Handler.sockfd (handler : Handler) (clntSockfd : Option Nat) : Option Nat :=
  match handler.phase with
  | .created => clntSockfd
  | .serving sockfd => sockfd
  | .closing sockfd | .returned sockfd => some sockfd

/-- Has not closed its connection. -/
def Handler.Live (handler : Handler) : Prop :=
  match handler.phase with
  | .returned _ => False
  | _ => True

/-- Every accepted connection is served by one handler, its own. -/
structure ServesOwn (state : State) : Prop where
  /-- A handler reads what the `accept` it was created for has returned. -/
  own :
    ∀ handler ∈ state.handlers,
      handler.sockfd state.clntSockfd = some handler.accepted
  /-- For each connection one handler has been created. -/
  one :
    state.handlers.map Handler.accepted = state.served
  /-- No two handlers are on one open connection. -/
  apart :
    ∀ (i j : Nat) (first second : Handler),
      state.handlers[i]? = some first → state.handlers[j]? = some second →
        first.Live → second.Live → first.accepted = second.accepted → i = j

/--
`accept` stores its result when every handler has read the one before, and
`pthread_create` succeeds.
-/
def StartsInTime (state : State) : Action → Prop
  | .accept _ => ∀ handler ∈ state.handlers, handler.phase ≠ .created
  | .create succeeds => succeeds = true
  | _ => True

instance (state : State) : DecidablePred (StartsInTime state)
  | .accept _ =>
      inferInstanceAs
        (Decidable (∀ handler ∈ state.handlers, handler.phase ≠ .created))
  | .create succeeds => inferInstanceAs (Decidable (succeeds = true))
  | .register | .start _ | .receive _ _ | .readFails _ | .disconnect _
  | .close _ => isTrue trivial

end CsPrimer.ChatServer.Threads
