import CsPrimer.SvMsg.Answering
import CsPrimer.SvMsg.Clients

namespace CsPrimer.SvMsg

open Library

/-!
# `msgservernq.c` and `msgclientnq.c`

Requests go to the well-known queue of the server and name the private queue
of their client.  Each request is answered by a child of its own, on that
queue.  All messages have type 1, so nothing but the content of a private
queue tells its client that the reply is complete.
-/

namespace PrivateQueues

/-- The identifiers of private queues; each is that of one client. -/
def IsClient (wellKnown qid : Int) : Prop :=
  IsId qid ∧ qid ≠ wellKnown

instance (wellKnown qid : Int) : Decidable (IsClient wellKnown qid) :=
  inferInstanceAs (Decidable (_ ∧ _))

/-- The server with its children, the clients and all queues. -/
structure State where
  queues : Int → List Message
  family : Family
  clients : Int → Client

/-- Who takes the next step. -/
inductive Action where
  | client (qid : Int)
  /-- The call of the parent may fail: `SIGCHLD` interrupts `msgrcv`. -/
  | parent (fails : Bool)
  | child (index : Nat)
  deriving Repr, DecidableEq

/-- The answer to the next call of the parent. -/
def parentCall
    (fails : Bool)
    (queue : List Message)
    (process : Parent) :
    Option (Answer × List Message) :=
  match process.pc with
  | .receive =>
      if fails then
        some (.failed, queue)
      else
        msgrcv 1 queue
  | .fork _ _ _ =>
      some (if fails then .notForked else .forked, queue)
  | .returned | .faulted =>
      none

/-- The answer to the next call of a child, with the queue it writes to. -/
def childCall
    (qbytes : Nat)
    (files : List UInt8 → File)
    (queue : List Message)
    (process : Child) :
    Option (Answer × List Message) :=
  if process.reply.pc.sends ∧ ¬ IsId process.writefd then
    some (.notSent, queue)
  else
    replyCall qbytes 1 files queue process.reply

/-- The interleavings of the clients, the server and its children. -/
def system
    (qbytes : Nat)
    (wellKnown : Int)
    (files : List UInt8 → File)
    (stdin : Int → List UInt8)
    (mtext : Mtext)
    (mtexts : Int → Mtext) :
    System State Action Event where
  initial :=
    { queues := fun _ => []
      family := { parent := Parent.initial mtext, children := [] }
      clients := fun qid => { pc := .send, mtext := mtexts qid } }
  step? state action :=
    match action with
    | .client qid =>
        if IsClient wellKnown qid then
          match (state.clients qid).pc with
          | .send =>
              (clientSend qbytes qid (stdin qid) (state.queues wellKnown)
                  (state.clients qid)).map
                fun (queue, next) =>
                  ({ state with
                    queues := Function.update state.queues wellKnown queue
                    clients := Function.update state.clients qid next }, [])
          | .receive =>
              (clientReceive 1 (state.queues qid) (state.clients qid)).map
                fun (queue, next, texts) =>
                  ({ state with
                    queues := Function.update state.queues qid queue
                    clients := Function.update state.clients qid next },
                    texts.map (.obtained qid))
          | .returned | .exited | .faulted => none
        else
          none
    | .parent fails =>
        match parentCall fails (state.queues wellKnown)
            state.family.parent with
        | none => none
        | some (answer, queue) =>
            (family state.family (.parent answer)).map
              fun (next, outputs) =>
                ({ state with
                  queues := Function.update state.queues wellKnown queue
                  family := next },
                  outputs.map .server)
    | .child index =>
        match state.family.children[index]? with
        | none => none
        | some process =>
            match childCall qbytes files (state.queues process.writefd)
                process with
            | none => none
            | some (answer, queue) =>
                (family state.family (.child index answer)).map
                  fun (next, outputs) =>
                    ({ state with
                      queues :=
                        Function.update state.queues process.writefd queue
                      family := next },
                      outputs.map .server)

/-- The text an event puts on a queue. -/
def put? (qid : Int) : Event → Option (List UInt8)
  | .server (.put id text) => if id = qid then some text else none
  | .server (.taken _ _) | .server .ended | .obtained _ _ => none

/-- What has been put on a private queue, in its order. -/
def putOn (qid : Int) (trace : List Event) : List (List UInt8) :=
  trace.filterMap (put? qid)

/-- The reply a client expects. -/
def expected
    (files : List UInt8 → File)
    (stdin : List UInt8) : List UInt8 :=
  replyText (pathname stdin) (files (pathname stdin))

end PrivateQueues

end CsPrimer.SvMsg
