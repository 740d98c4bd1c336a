import CsPrimer.Library.LittleEndian
import CsPrimer.Library.TransitionSystem
import CsPrimer.SvMsg.Reply

namespace CsPrimer.SvMsg

open Library

/-!
# `msgserver1q.c` and `msgservernq.c`

`msgserver1q` replies to one request after the other on the queue it reads
from.  `msgservernq` forks a child for each request, which replies on the
queue the request names and works on a copy of the buffer.  Both leave their
loop after five results of `msgrcv`.
-/

/-- What a server does that can be observed. -/
inductive Output where
  /-- A request has been split. -/
  | taken (id : Int) (path : List UInt8)
  /-- A message has been put on a queue. -/
  | put (id : Int) (text : List UInt8)
  /-- The message that signifies the end has been sent, or `msgsnd` failed. -/
  | ended
  deriving Repr, DecidableEq

section SingleQueue

/--
The type of the message `msgsnd(writefd, "", 0, 0)` sends: the `long` at the
literal, which has a NUL and whatever seven bytes follow it.
-/
def endType (behind : Buffer 7) : Int :=
  (LittleEndian.decode (0 :: behind.bytes) : Int).bmod (2 ^ 64)

/-- Where `server` of `msgserver1q.c` is. -/
inductive ServerPc where
  | receive
  | reply (pc : ReplyPc)
  | sendEnd
  | returned
  /-- `error_handler` has ended the process. -/
  | exited
  | faulted
  deriving Repr, DecidableEq

/-- `server` of `msgserver1q.c` with its `buf`. -/
structure Server where
  pc : ServerPc
  i : Nat
  mtype : Int
  mtext : Mtext
  deriving Repr, DecidableEq

/-- The server before its first `msgrcv`, with whatever `malloc` returned. -/
def Server.initial (mtext : Mtext) : Server where
  pc := .receive
  i := 0
  mtype := 1
  mtext := mtext

/-- The end of one iteration of the loop. -/
def Server.again (process : Server) (mtext : Mtext) : Server :=
  { process with
    pc := if process.i + 1 < 5 then .receive else .returned
    i := process.i + 1
    mtext := mtext }

/-- The server after a step of its reply. -/
def Server.resume (process : Server) (reply : Reply) : Server :=
  { process with
    pc :=
      match reply.pc with
      | .finished => .sendEnd
      | .faulted => .faulted
      | pc => .reply pc
    mtext := reply.mtext }

/-- One step of `server`. -/
def server
    (behind : Buffer 7)
    (process : Server)
    (answer : Answer) :
    Option (Server × List Output) :=
  match process.pc with
  | .receive =>
      (obtain process.mtext answer).map fun
        | .fault =>
            ({ process with pc := .faulted }, [])
        | .skipped mtext =>
            (process.again mtext, [])
        | .request number path ptr n mtext =>
            ({ process with
              pc := .reply (.openFile path ptr n)
              mtype := atol number
              mtext := mtext },
              [.taken (atol number) path])
  | .reply pc =>
      if pc.sends ∧ answer = .notSent then
        some ({ process with pc := .exited }, [])
      else
        (respond { pc := pc, mtext := process.mtext } answer).map
          fun (reply, texts) =>
            (process.resume reply, texts.map (.put process.mtype))
  | .sendEnd =>
      match answer with
      | .sent =>
          some (process.again process.mtext,
            [.put (endType behind) [], .ended])
      | .notSent =>
          some (process.again process.mtext, [.ended])
      | _ =>
          none
  | .returned | .exited | .faulted =>
      none

end SingleQueue

section PrivateQueues

/-- `writefd = atol(buf->mtext)`. -/
def writefdOf (number : List UInt8) : Int :=
  (atol number).bmod (2 ^ 32)

/-- Where `main` of `msgservernq.c` is. -/
inductive ParentPc where
  | receive
  | fork (path : List UInt8) (ptr n : Nat)
  | returned
  | faulted
  deriving Repr, DecidableEq

/-- `main` of `msgservernq.c` with its `buf`. -/
structure Parent where
  pc : ParentPc
  i : Nat
  writefd : Int
  mtext : Mtext
  deriving Repr, DecidableEq

/-- The parent before its first `msgrcv`. -/
def Parent.initial (mtext : Mtext) : Parent where
  pc := .receive
  i := 0
  writefd := 0
  mtext := mtext

/-- The end of one iteration of the loop. -/
def Parent.again (process : Parent) (mtext : Mtext) : Parent :=
  { process with
    pc := if process.i + 1 < 5 then .receive else .returned
    i := process.i + 1
    mtext := mtext }

/-- A forked child; it exits when its reply is finished. -/
structure Child where
  writefd : Int
  reply : Reply
  deriving Repr, DecidableEq

/-- One step of `main`, with the children it forks. -/
def parent
    (process : Parent)
    (answer : Answer) :
    Option (Parent × List Child × List Output) :=
  match process.pc, answer with
  | .receive, _ =>
      (obtain process.mtext answer).map fun
        | .fault =>
            ({ process with pc := .faulted }, [], [])
        | .skipped mtext =>
            (process.again mtext, [], [])
        | .request number path ptr n mtext =>
            ({ process with
              pc := .fork path ptr n
              writefd := writefdOf number
              mtext := mtext },
              [], [.taken (writefdOf number) path])
  | .fork path ptr n, .forked =>
      some (process.again process.mtext,
        [{ writefd := process.writefd
           reply :=
            { pc := .openFile path ptr n
              mtext := process.mtext } }],
        [])
  | .fork _ _ _, .notForked =>
      some (process.again process.mtext, [], [])
  | _, _ =>
      none

/-- One step of a child; it does not look at the results of `msgsnd`. -/
def child
    (process : Child)
    (answer : Answer) :
    Option (Child × List Output) :=
  (respond process.reply answer).map fun (reply, texts) =>
    ({ process with reply := reply }, texts.map (.put process.writefd))

/-- The parent and the children it has forked. -/
structure Family where
  parent : Parent
  children : List Child
  deriving Repr, DecidableEq

/-- Which process of a family takes a step, and the answer to its call. -/
inductive FamilyAction where
  | parent (answer : Answer)
  | child (index : Nat) (answer : Answer)
  deriving Repr, DecidableEq

/-- One step of a process of a family. -/
def family
    (state : Family) :
    FamilyAction → Option (Family × List Output)
  | .parent answer =>
      (parent state.parent answer).map fun (next, forked, outputs) =>
        ({ parent := next, children := state.children ++ forked }, outputs)
  | .child index answer =>
      match state.children[index]? with
      | none => none
      | some process =>
          (child process answer).map fun (next, outputs) =>
            ({ state with children := state.children.set index next },
              outputs)

end PrivateQueues

end CsPrimer.SvMsg
