import CsPrimer.Library.CString

namespace CsPrimer.SvMsg

open Library

/-!
# The message buffer of the System V servers

`msgserver1q.c` and `msgservernq.c` treat a request and the file it names in
the same way: they split the request in place and then reuse `buf->mtext` for
every message of the reply.  `mtext` is modelled without the `long` before it;
an access outside of it is a fault.  The kernel and the file system answer the
calls.
-/

/-- The bytes of `buf` behind its `mtype`. -/
abbrev textSize : Nat := 8192

/-- `MAXMSG`, which is the size of `buf` with its `mtype`. -/
abbrev maxMsg : Nat := textSize + 8

/-- `buf->mtext`. -/
abbrev Mtext : Type := Buffer textSize

/-- What `strerror` returns is a string. -/
structure ErrorText where
  bytes : List UInt8
  free : 0 ∉ bytes
  deriving Repr, DecidableEq

/-- What `fopen` finds at a path. -/
inductive File where
  | content (bytes : List UInt8)
  | missing (strerror : ErrorText)
  deriving Repr, DecidableEq

/-- How a call of a server returns. -/
inductive Answer where
  /-- `msgrcv` has stored a text. -/
  | received (text : List UInt8)
  /-- `msgrcv` has returned -1. -/
  | failed
  /-- `fopen` has opened a file or not. -/
  | found (file : File)
  /-- `msgsnd` has put the message on the queue. -/
  | sent
  /-- `msgsnd` has returned -1. -/
  | notSent
  /-- `fork` has made a child. -/
  | forked
  /-- `fork` has returned -1. -/
  | notForked
  /-- `fgets`, whose result the stream determines. -/
  | done
  deriving Repr, DecidableEq

section Requests

/-- What a server makes of the result of `msgrcv`. -/
inductive Obtained where
  | fault
  /-- `continue`: the pathname is missing or the request is bogus. -/
  | skipped (mtext : Mtext)
  /-- The strings before and from `ptr` on; `n` is what `msgrcv` returned. -/
  | request (number path : List UInt8) (ptr n : Nat) (mtext : Mtext)
  deriving Repr, DecidableEq

/-- From `(buf->mtext)[n] = 0` to `atol(buf->mtext)`. -/
def splitRequest (mtext : Mtext) (n : Nat) : Obtained :=
  match mtext.store? n [0] with
  | none => .fault
  | some mtext =>
      match string? mtext.bytes with
      | none => .fault
      | some text =>
          match text.idxOf? space with
          | none => .skipped mtext
          | some index =>
              match mtext.store? index [0] with
              | none => .fault
              | some mtext =>
                  match string? mtext.bytes,
                      string? (mtext.bytes.drop (index + 1)) with
                  | some number, some path =>
                      .request number path (index + 1) n mtext
                  | _, _ => .fault

/--
`msgrcv(readfd, buf, MAXMSG, 1, 0)` and the splitting of the request.  A
result of -1 is not tested for: the NUL is stored before `mtext`.
-/
def obtain (mtext : Mtext) : Answer → Option Obtained
  | .received text =>
      if maxMsg < text.length then
        none
      else
        match mtext.store? 0 text with
        | none => some .fault
        | some mtext =>
            if text = [] then
              some (.skipped mtext)
            else
              some (splitRequest mtext text.length)
  | .failed =>
      some .fault
  | _ =>
      none

end Requests

section Replies

/-- Where a reply is; `ptr` and `n` are offsets in `mtext`. -/
inductive ReplyPc where
  | openFile (path : List UInt8) (ptr n : Nat)
  | sendError (n : Nat)
  | readLine (stream : List UInt8)
  | sendLine (n : Nat) (stream : List UInt8)
  | finished
  | faulted
  deriving Repr, DecidableEq

/-- A reply and the buffer it uses. -/
structure Reply where
  pc : ReplyPc
  mtext : Mtext
  deriving Repr, DecidableEq

/-- What the format `": can't open, %s\n"` prints. -/
def errorSuffix (strerror : ErrorText) : List UInt8 :=
  ascii ": can't open, " ++ strerror.bytes ++ ascii "\n"

/--
`snprintf(buf->mtext+n, MAXMSG-n, ...)`, then the string from `ptr` on is
moved to the start.
-/
def cannotOpen
    (ptr n : Nat)
    (strerror : ErrorText)
    (mtext : Mtext) : Reply :=
  match mtext.snprintf? n (maxMsg - n) (errorSuffix strerror) with
  | none => { pc := .faulted, mtext := mtext }
  | some mtext =>
      match string? (mtext.bytes.drop ptr) with
      | none => { pc := .faulted, mtext := mtext }
      | some text =>
          match mtext.store? 0 text with
          | none => { pc := .faulted, mtext := mtext }
          | some mtext => { pc := .sendError text.length, mtext := mtext }

/-- `fgets(buf->mtext, MAXMSG, fp)` and `strlen(buf->mtext)`. -/
def readLine (stream : List UInt8) (mtext : Mtext) : Reply :=
  match fgets (maxMsg - 1) stream with
  | ([], _) => { pc := .finished, mtext := mtext }
  | (line, rest) =>
      match mtext.store? 0 (line ++ [0]) with
      | none => { pc := .faulted, mtext := mtext }
      | some mtext =>
          match string? mtext.bytes with
          | none => { pc := .faulted, mtext := mtext }
          | some text => { pc := .sendLine text.length rest, mtext := mtext }

/-- `msgsnd(writefd, buf, n, 0)`, after which the reply is at `next`. -/
def send
    (n : Nat)
    (next : ReplyPc)
    (reply : Reply)
    (answer : Answer) :
    Option (Reply × List (List UInt8)) :=
  match answer with
  | .sent =>
      match reply.mtext.load? 0 n with
      | none => some ({ reply with pc := .faulted }, [])
      | some text => some ({ reply with pc := next }, [text])
  | .notSent =>
      some ({ reply with pc := next }, [])
  | _ =>
      none

/-- One step of a reply, with the text it puts on the queue. -/
def respond
    (reply : Reply)
    (answer : Answer) :
    Option (Reply × List (List UInt8)) :=
  match reply.pc, answer with
  | .openFile _ ptr n, .found (.missing strerror) =>
      some (cannotOpen ptr n strerror reply.mtext, [])
  | .openFile _ _ _, .found (.content bytes) =>
      some ({ reply with pc := .readLine bytes }, [])
  | .sendError n, _ =>
      send n .finished reply answer
  | .readLine stream, .done =>
      some (readLine stream reply.mtext, [])
  | .sendLine n stream, _ =>
      send n (.readLine stream) reply answer
  | _, _ =>
      none

/-- The next call is a `msgsnd`. -/
def ReplyPc.sends : ReplyPc → Bool
  | .sendError _ | .sendLine _ _ => true
  | _ => false

end Replies

end CsPrimer.SvMsg
