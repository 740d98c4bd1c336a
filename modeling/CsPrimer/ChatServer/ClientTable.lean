import CsPrimer.Library.TransitionSystem

namespace CsPrimer.ChatServer

open Library

/-!
# `mthread_server.c`: the client table of the chat server

The main thread accepts a connection and registers its descriptor, and the
handler of a connection sends what it reads to the others and removes its
descriptor when the peer has left.  Every critical section is one step.
Handlers use the descriptor of their own connection, and `accept` returns a
descriptor that is not open.  An access outside `clnt_sockfdvec` has no
successor.
-/

/-- `MAX_CLNT`. -/
abbrev maxClnt : Nat := 256

/-- `clnt_cnt` and `clnt_sockfdvec`. -/
structure Table where
  clntCnt : Nat
  clntSockfdvec : Vector Nat maxClnt
  deriving Repr, DecidableEq

/-- The static initialisation. -/
def Table.initial : Table where
  clntCnt := 0
  clntSockfdvec := Vector.replicate maxClnt 0

/-- `clnt_sockfdvec[0..clnt_cnt)`. -/
def Table.listed (table : Table) : List Nat :=
  table.clntSockfdvec.toList.take table.clntCnt

/-- `clnt_sockfdvec[i] = sockfd`. -/
def store
    (vec : Vector Nat maxClnt)
    (i sockfd : Nat) : Option (Vector Nat maxClnt) :=
  if inBounds : i < maxClnt then
    some (vec.set i sockfd)
  else
    none

/-- `clnt_sockfdvec[clnt_cnt++] = clnt_sockfd`. -/
def registerClnt (table : Table) (clntSockfd : Nat) : Option Table :=
  (store table.clntSockfdvec table.clntCnt clntSockfd).map fun vec =>
    { clntCnt := table.clntCnt + 1, clntSockfdvec := vec }

/-- `while(i++ < clnt_cnt-1) clnt_sockfdvec[i] = clnt_sockfdvec[i+1]`. -/
def shiftClnts
    (clntCnt : Nat)
    (vec : Vector Nat maxClnt)
    (i : Nat) : Option (Vector Nat maxClnt) :=
  if i < clntCnt - 1 then
    match vec[i + 1 + 1]? with
    | none =>
        none
    | some sockfd =>
        match store vec (i + 1) sockfd with
        | none =>
            none
        | some shifted =>
            shiftClnts clntCnt shifted (i + 1)
  else
    some vec
termination_by clntCnt - i

/-- The loop over `i` in `clnt_handler` that looks for `clnt_sockfd`. -/
def searchClnt
    (clntCnt : Nat)
    (vec : Vector Nat maxClnt)
    (clntSockfd i : Nat) : Option (Vector Nat maxClnt) :=
  if i < clntCnt then
    match vec[i]? with
    | none =>
        none
    | some sockfd =>
        if clntSockfd = sockfd then
          shiftClnts clntCnt vec i
        else
          searchClnt clntCnt vec clntSockfd (i + 1)
  else
    some vec
termination_by clntCnt - i

/-- The critical section of `clnt_handler`. -/
def removeClnt (table : Table) (clntSockfd : Nat) : Option Table :=
  (searchClnt table.clntCnt table.clntSockfdvec clntSockfd 0).map
    fun vec => { clntCnt := table.clntCnt - 1, clntSockfdvec := vec }

/-- The loop of `send_msg`: the descriptors it writes to. -/
def sendMsg
    (table : Table)
    (selfSockfd i : Nat) : Option (List Nat) :=
  if i < table.clntCnt then
    match table.clntSockfdvec[i]? with
    | none =>
        none
    | some sockfd =>
        (sendMsg table selfSockfd (i + 1)).map fun sockfds =>
          if sockfd ≠ selfSockfd then
            sockfd :: sockfds
          else
            sockfds
  else
    some []
termination_by table.clntCnt - i

/-- The table, and the descriptors of the connections by their phase. -/
structure State where
  table : Table
  /-- Returned by `accept`, but not registered. -/
  accepted : Option Nat
  /-- Registered and not removed, in the order of connection. -/
  connected : List Nat
  /-- Removed, but not closed. -/
  closing : List Nat
  deriving Repr, DecidableEq

/-- One step of the main thread or of a handler. -/
inductive Action where
  | accept (sockfd : Nat)
  | register
  | receive (sockfd : Nat) (msg : List UInt8)
  | disconnect (sockfd : Nat)
  | close (sockfd : Nat)
  deriving Repr, DecidableEq

/-- `write` of a message to a descriptor. -/
inductive Event where
  | written (sockfd : Nat) (msg : List UInt8)
  deriving Repr, DecidableEq

/-- The main thread and the handlers of all connections. -/
def system : System State Action Event where
  initial :=
    { table := Table.initial
      accepted := none
      connected := []
      closing := [] }
  step? state action :=
    match action with
    | .accept sockfd =>
        if state.accepted = none ∧ sockfd ∉ state.connected ∧
            sockfd ∉ state.closing then
          some ({ state with accepted := some sockfd }, [])
        else
          none
    | .register =>
        match state.accepted with
        | none =>
            none
        | some sockfd =>
            (registerClnt state.table sockfd).map fun table =>
              ({ state with
                table := table
                accepted := none
                connected := state.connected ++ [sockfd] }, [])
    | .receive sockfd msg =>
        if sockfd ∈ state.connected then
          (sendMsg state.table sockfd 0).map fun sockfds =>
            (state, sockfds.map (.written · msg))
        else
          none
    | .disconnect sockfd =>
        if sockfd ∈ state.connected then
          (removeClnt state.table sockfd).map fun table =>
            ({ state with
              table := table
              connected := state.connected.erase sockfd
              closing := state.closing ++ [sockfd] }, [])
        else
          none
    | .close sockfd =>
        if sockfd ∈ state.closing then
          some ({ state with closing := state.closing.erase sockfd }, [])
        else
          none

end CsPrimer.ChatServer
