import CsPrimer.Library.TypedQueue
import CsPrimer.SvMsg.Requests
import CsPrimer.SvMsg.Servers

namespace CsPrimer.SvMsg

open Library

/-!
# Message queues, and the clients of the System V servers

`msgclient1q.c` and `msgclientnq.c` send a request to the server and print
what they receive until `msgrcv` returns 0 or -1.  They differ in the number
they send, the queue they receive from and the type they ask for.
-/

/-- A message on a queue: its type and its text. -/
abbrev Message : Type := Int × List UInt8

section Calls

/-- `msgrcv` with `MAXMSG`; it fails if the message is longer. -/
def msgrcv
    (mtype : Int)
    (queue : List Message) :
    Option (Answer × List Message) :=
  match TypedQueue.receive? mtype queue with
  | none => none
  | some (text, later) =>
      if maxMsg < text.length then
        some (.failed, queue)
      else
        some (.received text, later)

/-- The kernel bounds the bytes and the number of the messages on a queue. -/
def HasRoom
    (qbytes : Nat)
    (text : List UInt8)
    (queue : List Message) : Prop :=
  (queue.map fun message => message.2.length).sum + text.length ≤ qbytes ∧
    queue.length < qbytes

instance
    (qbytes : Nat)
    (text : List UInt8)
    (queue : List Message) : Decidable (HasRoom qbytes text queue) :=
  inferInstanceAs (Decidable (_ ∧ _))

/-- `msgsnd`; a type must be positive, and a full queue blocks. -/
def msgsnd
    (qbytes : Nat)
    (mtype : Int)
    (text : List UInt8)
    (queue : List Message) :
    Option (Answer × List Message) :=
  if mtype < 1 then
    some (.notSent, queue)
  else if HasRoom qbytes text queue then
    some (.sent, queue ++ [(mtype, text)])
  else
    none

/-- The answer to the next call of a reply, with the queue it writes to. -/
def replyCall
    (qbytes : Nat)
    (mtype : Int)
    (files : List UInt8 → File)
    (queue : List Message)
    (reply : Reply) :
    Option (Answer × List Message) :=
  match reply.pc with
  | .openFile path _ _ =>
      some (.found (files path), queue)
  | .sendError n | .sendLine n _ =>
      msgsnd qbytes mtype (reply.mtext.bytes.take n) queue
  | .readLine _ =>
      some (.done, queue)
  | .finished | .faulted =>
      none

end Calls

/-- Where a client is. -/
inductive ClientPc where
  | send
  | receive
  | returned
  /-- `error_handler` has ended the process. -/
  | exited
  | faulted
  deriving Repr, DecidableEq

/-- `client` with its `buf`. -/
structure Client where
  pc : ClientPc
  mtext : Mtext
  deriving Repr, DecidableEq

/-- Up to the `msgsnd` of the request. -/
def clientSend
    (qbytes : Nat)
    (id : Int)
    (stdin : List UInt8)
    (queue : List Message)
    (process : Client) :
    Option (List Message × Client) :=
  match composeRequest id stdin process.mtext with
  | none => some (queue, { process with pc := .faulted })
  | some (mtext, text) =>
      match msgsnd qbytes 1 text queue with
      | none => none
      | some (.sent, queue) => some (queue, { pc := .receive, mtext := mtext })
      | some (_, queue) => some (queue, { pc := .exited, mtext := mtext })

/-- One `msgrcv`, and the text it returns. -/
def clientReceive
    (mtype : Int)
    (queue : List Message)
    (process : Client) :
    Option (List Message × Client × List (List UInt8)) :=
  match msgrcv mtype queue with
  | none => none
  | some (.received text, queue) =>
      match process.mtext.store? 0 text with
      | none => some (queue, { process with pc := .faulted }, [text])
      | some mtext =>
          some (queue,
            { pc := if text = [] then .returned else .receive
              mtext := mtext },
            [text])
  | some (_, queue) =>
      some (queue, { process with pc := .returned }, [])

section Effects

open TypedQueue

variable
  {mtype : Int}
  {queue after : List Message}
  {process next : Client}

/-- A `msgrcv` on a queue of short messages takes the first of its type. -/
theorem msgrcv_received
    {answer : Answer}
    (bounded : ∀ text ∈ channel mtype queue, text.length ≤ textSize)
    (called : msgrcv mtype queue = some (answer, after)) :
    ∃ text, answer = .received text ∧ Received mtype queue text after := by
  have room : maxMsg = textSize + 8 := rfl
  unfold msgrcv at called
  split at called
  · simp at called
  case h_2 text later taken =>
    have received := receive?_received taken
    have isShort : text.length ≤ textSize :=
      bounded text (received.own ▸ List.mem_cons_self)
    rw [if_neg (by omega), Option.some.injEq, Prod.mk.injEq] at called
    obtain ⟨rfl, rfl⟩ := called
    exact ⟨text, rfl, received⟩

/-- A client sends its request, or the line is too long for its `mtext`. -/
theorem clientSend_cases
    {qbytes : Nat}
    {id : Int}
    {stdin : List UInt8}
    (isId : IsId id)
    (taken :
      clientSend qbytes id stdin queue process = some (after, next)) :
    (next.pc = .faulted ∧ after = queue) ∨
      (next.pc = .receive ∧
        after = queue ++ [(1, request id stdin)] ∧
        (request id stdin).length < textSize) := by
  unfold clientSend at taken
  split at taken
  case h_1 =>
    obtain ⟨rfl, rfl⟩ := Prod.mk.inj (Option.some.inj taken)
    exact .inl ⟨rfl, rfl⟩
  case h_2 mtext text composed =>
    obtain ⟨rfl, isShort⟩ := composeRequest_eq isId composed
    rw [msgsnd, if_neg (by decide)] at taken
    split at taken
    · simp at taken
    case h_2 later sends =>
      split at sends
      · obtain ⟨-, rfl⟩ := Prod.mk.inj (Option.some.inj sends)
        obtain ⟨rfl, rfl⟩ := Prod.mk.inj (Option.some.inj taken)
        exact .inr ⟨rfl, rfl, isShort⟩
      · simp at sends
    case h_3 other later notSent sends =>
      split at sends
      · obtain ⟨rfl, -⟩ := Prod.mk.inj (Option.some.inj sends)
        simp at notSent
      · simp at sends

/-- A client receives the next text of its channel. -/
theorem clientReceive_cases
    {texts : List (List UInt8)}
    (bounded : ∀ text ∈ channel mtype queue, text.length ≤ textSize)
    (taken :
      clientReceive mtype queue process = some (after, next, texts)) :
    ∃ text,
      texts = [text] ∧ Received mtype queue text after ∧
        next.pc = if text = [] then .returned else .receive := by
  unfold clientReceive at taken
  split at taken
  · simp at taken
  case h_2 text later called =>
    obtain ⟨other, isOther, received⟩ := msgrcv_received bounded called
    obtain rfl := Answer.received.inj isOther
    have isShort : text.length ≤ textSize :=
      bounded text (received.own ▸ List.mem_cons_self)
    obtain ⟨mtext, stored, -⟩ :=
      (Buffer.Holds.nil process.mtext).store List.length_nil text (by omega)
    simp only [stored, Option.some.injEq, Prod.mk.injEq] at taken
    obtain ⟨rfl, rfl, rfl⟩ := taken
    exact ⟨text, rfl, received, rfl⟩
  case h_3 other later notReceived called =>
    obtain ⟨text, rfl, -⟩ := msgrcv_received bounded called
    simp at notReceived

/-- A client can receive unless its channel is empty. -/
theorem clientReceive_isSome
    (waiting : channel mtype queue ≠ []) :
    (clientReceive mtype queue process).isSome := by
  unfold clientReceive
  split
  case h_1 blocked =>
    unfold msgrcv at blocked
    split at blocked
    case h_1 isEmpty =>
      exact absurd (receive?_eq_none_iff.mp isEmpty) waiting
    case h_2 =>
      split at blocked <;> simp at blocked
  · split <;> rfl
  · rfl

end Effects

section Events

/-- What can be observed of the clients and the server. -/
inductive Event where
  | server (output : Output)
  | obtained (id : Int) (text : List UInt8)
  deriving Repr, DecidableEq

/-- The text an event hands to a client. -/
def Event.obtained? (id : Int) : Event → Option (List UInt8)
  | .server _ => none
  | .obtained other text => if other = id then some text else none

/-- The texts a client has received, in their order. -/
def obtainedIn (id : Int) (trace : List Event) : List (List UInt8) :=
  trace.filterMap (Event.obtained? id)

/-- An observation of the trace is added to what has been received. -/
theorem obtainedIn_append (id : Int) (trace events : List Event) :
    obtainedIn id (trace ++ events) =
      obtainedIn id trace ++ obtainedIn id events :=
  List.filterMap_append

/-- Only the client that has received a text has received it. -/
theorem obtainedIn_obtained
    (id other : Int)
    (texts : List (List UInt8)) :
    obtainedIn id (texts.map (.obtained other)) =
      if other = id then texts else [] := by
  induction texts with
  | nil =>
      simp [obtainedIn]
  | cons text texts inductionHypothesis =>
      by_cases same : other = id <;>
        simp_all [obtainedIn, Event.obtained?]

/-- The server hands nothing to a client. -/
theorem obtainedIn_server (id : Int) (outputs : List Output) :
    obtainedIn id (outputs.map .server) = [] := by
  induction outputs with
  | nil =>
      rfl
  | cons output outputs inductionHypothesis =>
      exact inductionHypothesis

end Events

end CsPrimer.SvMsg
