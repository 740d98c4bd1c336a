import CsPrimer.SvMsg.Clients

namespace CsPrimer.SvMsg

open Library

/-!
# `msgserver1q.c` and `msgclient1q.c`

Requests and replies share one queue: a request has type 1, and the messages
of a reply have the pid of the client as their type.  There is a client for
each pid that is not 1.
-/

namespace SingleQueue

/-- The pids of clients. -/
def IsClient (pid : Int) : Prop :=
  0 < pid ∧ pid < 2 ^ 31 ∧ pid ≠ 1

instance (pid : Int) : Decidable (IsClient pid) :=
  inferInstanceAs (Decidable (_ ∧ _ ∧ _))

/-- The server, the clients and the queue between them. -/
structure State where
  queue : List Message
  server : Server
  clients : Int → Client

/-- Who takes the next step. -/
inductive Action where
  | client (pid : Int)
  | server
  deriving Repr, DecidableEq

/-- The answer to the next call of the server. -/
def serverCall
    (qbytes : Nat)
    (behind : Buffer 7)
    (files : List UInt8 → File)
    (queue : List Message)
    (process : Server) :
    Option (Answer × List Message) :=
  match process.pc with
  | .receive =>
      msgrcv 1 queue
  | .reply pc =>
      replyCall qbytes process.mtype files queue
        { pc := pc, mtext := process.mtext }
  | .sendEnd =>
      msgsnd qbytes (endType behind) [] queue
  | .returned | .exited | .faulted =>
      none

/-- One step of a client. -/
def clientStep
    (qbytes : Nat)
    (pid : Int)
    (stdin : List UInt8)
    (queue : List Message)
    (process : Client) :
    Option (List Message × Client × List (List UInt8)) :=
  match process.pc with
  | .send =>
      (clientSend qbytes pid stdin queue process).map
        fun (queue, next) => (queue, next, [])
  | .receive =>
      clientReceive pid queue process
  | .returned | .exited | .faulted =>
      none

/-- The interleavings of the clients and the server, with their buffers. -/
def system
    (qbytes : Nat)
    (behind : Buffer 7)
    (files : List UInt8 → File)
    (stdin : Int → List UInt8)
    (mtext : Mtext)
    (mtexts : Int → Mtext) :
    System State Action Event where
  initial :=
    { queue := []
      server := Server.initial mtext
      clients := fun pid => { pc := .send, mtext := mtexts pid } }
  step? state action :=
    match action with
    | .client pid =>
        if IsClient pid then
          (clientStep qbytes pid (stdin pid) state.queue
              (state.clients pid)).map
            fun (queue, next, texts) =>
              ({ state with
                queue := queue
                clients := Function.update state.clients pid next },
                texts.map (.obtained pid))
        else
          none
    | .server =>
        match serverCall qbytes behind files state.queue state.server with
        | none => none
        | some (answer, queue) =>
            (server behind state.server answer).map fun (next, outputs) =>
              ({ state with queue := queue, server := next },
                outputs.map .server)

/-- A request and the messages that have been sent for it. -/
structure Exchange where
  pid : Int
  path : List UInt8
  messages : List Message
  ended : Bool
  deriving Repr, DecidableEq

/-- The newest exchange is changed. -/
def change
    (update : Exchange → Exchange) :
    List Exchange → List Exchange
  | [] => []
  | exchange :: older => update exchange :: older

/-- The exchanges after an event, the newest one first. -/
def note (exchanges : List Exchange) : Event → List Exchange
  | .server (.taken pid path) =>
      { pid := pid
        path := path
        messages := []
        ended := false } :: exchanges
  | .server (.put mtype text) =>
      change
        (fun exchange =>
          { exchange with messages := exchange.messages ++ [(mtype, text)] })
        exchanges
  | .server .ended =>
      change (fun exchange => { exchange with ended := true }) exchanges
  | .obtained _ _ =>
      exchanges

/-- The requests the server has taken, and what it has sent for each. -/
def exchangesIn (trace : List Event) : List Exchange :=
  trace.foldl note []

end SingleQueue

end CsPrimer.SvMsg
