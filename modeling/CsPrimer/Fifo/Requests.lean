import CsPrimer.Fifo.Server
import CsPrimer.Library.TransitionSystem

namespace CsPrimer.Fifo

open Library Pipe

/-!
# `fifo_client.c`: requests to the FIFO server

A client writes its pid, a space and the line its user types as one record of
`MAXSIZE` bytes; what stands behind the line in the record is left over in its
buffer.  Records are written and read atomically.
-/

/-- The request in `buf`: `snprintf`, `strlen` and `fgets(ptr, MAXSIZE-len)`. -/
def composeRequest
    (pid : Int)
    (stdin : List UInt8)
    (buf : Buffer maxSize) :
    Option (Buffer maxSize) := do
  let buf ← buf.snprintf? 0 maxSize (decimal pid ++ [space])
  let text ← string? buf.bytes
  let line := (fgets (maxSize - text.length - 1) stdin).1
  if line = [] then
    some buf
  else
    buf.store? text.length (line ++ [0])

/-- Where a client is. -/
inductive ClientPc where
  | makeFifo
  | compose
  | openServer
  | writeRequest
  | openReply
  /-- In the loop that prints the reply. -/
  | readReply (readfd : Nat)
  | closeReply (readfd : Nat)
  | unlink
  | closeServer
  | returned
  deriving Repr, DecidableEq

/-- A client and its buffer. -/
structure Client where
  pc : ClientPc
  buf : Buffer maxSize
  deriving Repr, DecidableEq

/--
One step of a client.  Its loop over the reply may end at any time, and leaves
anything in its buffer.
-/
def client
    (pid : Int)
    (stdin : List UInt8)
    (serverGone : Bool)
    (fifos : Fifos)
    (process : Client)
    (scratch : Buffer maxSize) :
    Option (Fifos × Client) :=
  match process.pc with
  | .makeFifo =>
      match peer serverGone fifos (.makeFifo pid) with
      | none => some (fifos, { process with pc := .compose })
      | some fifos => some (fifos, { process with pc := .compose })
  | .compose =>
      (composeRequest pid stdin process.buf).map fun buf =>
        (fifos, { pc := .openServer, buf := buf })
  | .openServer =>
      (peer serverGone fifos .openServer).map fun fifos =>
        (fifos, { process with pc := .writeRequest })
  | .writeRequest =>
      (peer serverGone fifos (.writeServer process.buf.bytes)).map
        fun fifos => (fifos, { process with pc := .openReply })
  | .openReply =>
      match fifos.names pid with
      | none =>
          -- `error_handler`; the process closes its descriptor as it exits
          (peer serverGone fifos .closeServer).map fun fifos =>
            (fifos, { process with pc := .returned })
      | some readfd =>
          (peer serverGone fifos (.openFifo pid)).map fun fifos =>
            (fifos, { process with pc := .readReply readfd })
  | .readReply readfd =>
      some (fifos, { pc := .closeReply readfd, buf := scratch })
  | .closeReply readfd =>
      (peer serverGone fifos (.closeFifo readfd)).map fun fifos =>
        (fifos, { process with pc := .unlink })
  | .unlink =>
      (peer serverGone fifos (.unlinkFifo pid)).map fun fifos =>
        (fifos, { process with pc := .closeServer })
  | .closeServer =>
      (peer serverGone fifos .closeServer).map fun fifos =>
        (fifos, { process with pc := .returned })
  | .returned =>
      none

/-- What can be observed of the clients and the server. -/
inductive Event (nclients : Nat) where
  | wrote (process : Fin nclients)
  | server (event : ServerEvent)
  deriving Repr, DecidableEq

/-- The clients, the server and the FIFOs between them. -/
structure State (nclients : Nat) where
  fifos : Fifos
  clients : Fin nclients → Client
  server : Server

/-- Who takes the next step. -/
inductive Action (nclients : Nat) where
  | client (process : Fin nclients) (scratch : Buffer maxSize)
  | server (answer : Answer)
  deriving Repr, DecidableEq

/-- Whether the next step of a client writes its request. -/
def writesIn {nclients : Nat}
    (process : Fin nclients)
    (pc : ClientPc) : List (Event nclients) :=
  if pc = .writeRequest then
    [.wrote process]
  else
    []

/-- The interleavings of clients and the server, with what buffers hold. -/
def system
    {nclients : Nat}
    (pid : Fin nclients → Int)
    (stdin : Fin nclients → List UInt8)
    (bufs : Fin nclients → Buffer maxSize)
    (servBuf : Buffer (maxSize + 1)) :
    System (State nclients) (Action nclients) (Event nclients) where
  initial :=
    { fifos := Fifos.initial
      clients := fun process => { pc := .makeFifo, buf := bufs process }
      server := Server.initial servBuf }
  step? state action :=
    match action with
    | .client process scratch =>
        (client (pid process) (stdin process) state.server.pc.gone
            state.fifos (state.clients process) scratch).map
          fun (fifos, next) =>
            ({ state with
              fifos := fifos
              clients := Function.update state.clients process next },
              writesIn process (state.clients process).pc)
    | .server answer =>
        (server state.fifos state.server answer).map
          fun (fifos, next, events) =>
            ({ state with fifos := fifos, server := next },
              events.map .server)

end CsPrimer.Fifo
