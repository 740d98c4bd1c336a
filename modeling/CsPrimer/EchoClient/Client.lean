import CsPrimer.Library.CString
import CsPrimer.Library.TransitionSystem

namespace CsPrimer.EchoClient

open Library

/-!
# `echo_client.c`: lines that are handled in pieces

The client reads what the user types in pieces of at most `BUF_SIZE` bytes and
compares each piece that does not fill `msg` with the lines that end the
program.  It sends the pieces up to the first that does not fill `msg`, and then
prints as many bytes of the echo as it has sent.  A piece never goes on behind a
newline.  The server returns every byte it is sent; a read returns as many of
those that are on the way as it likes.
-/

/-- `BUF_SIZE`. -/
abbrev bufSize : Nat := 30

/-- `INT_MAX`. -/
abbrev intMax : Nat := 2147483647

/-- A line, or a piece, that `strcmp` takes for the end. -/
def IsQuit (text : List UInt8) : Prop :=
  text = ascii "q\n" ∨ text = ascii "Q\n"
  deriving Decidable

/-- What `read(0, ...)` can return. -/
def Deliverable (piece : List UInt8) : Prop :=
  piece.length ≤ bufSize ∧ newline ∉ piece.dropLast
  deriving Decidable

/-- Where the client is. -/
inductive Pc where
  | prompting
  | sending
  | receiving
  | stopped
  deriving Repr, DecidableEq

/--
The client, the bytes on their way to the server and back, and what has been
delivered of the line that is being typed.
-/
structure State where
  pc : Pc
  msg : Buffer bufSize
  msgLen : Nat
  recvLen : Nat
  echo : List UInt8
  line : List UInt8
  deriving Repr, DecidableEq

/-- A turn of a loop, with what its `read` returns, or a step between loops. -/
inductive Action where
  | prompt
  | input (piece : List UInt8)
  | receive (recvCnt : Nat)
  | leave
  deriving Repr, DecidableEq

/-- What the user, the server and the terminal can see. -/
inductive Event where
  | prompted
  | typed (piece : List UInt8)
  | sent (bytes : List UInt8)
  | answering
  | printed (text : List UInt8)
  | closed
  deriving Repr, DecidableEq

/-- `msg_len += recv_len` and `write`; an overflow has no outcome. -/
def send
    (recvLen : Nat)
    (state : State) : Option (State × List UInt8) :=
  if state.msgLen + recvLen ≤ intMax then do
    let bytes ← state.msg.load? 0 recvLen
    return ({ state with
      msgLen := state.msgLen + recvLen
      echo := state.echo ++ bytes }, bytes)
  else
    none

/-- A turn of the loop that reads and sends. -/
def input
    (piece : List UInt8)
    (state : State) : Option (State × List Event) :=
  if state.pc = .sending ∧ Deliverable piece then do
    let msg ← state.msg.store? 0 piece
    let line :=
      if piece.getLast? = some newline then [] else state.line ++ piece
    if piece.length ≠ bufSize then
      let msg ← msg.store? piece.length [0]
      let text ← string? msg.bytes
      if IsQuit text then
        return ({ state with pc := .stopped, msg := msg, line := line },
          [.typed piece, .closed])
      else
        let (next, bytes) ←
          send piece.length { state with msg := msg, line := line }
        return ({ next with pc := .receiving, recvLen := 0 },
          [.typed piece, .sent bytes, .answering])
    else
      let (next, bytes) ←
        send piece.length { state with msg := msg, line := line }
      return (next, [.typed piece, .sent bytes])
  else
    none

/-- A turn of the loop that receives and prints. -/
def receive
    (recvCnt : Nat)
    (state : State) : Option (State × List Event) :=
  if state.pc = .receiving ∧ state.recvLen < state.msgLen ∧
      0 < recvCnt ∧ recvCnt ≤ bufSize - 1 ∧
      recvCnt ≤ state.echo.length then do
    let msg ← state.msg.store? 0 (state.echo.take recvCnt)
    let msg ← msg.store? recvCnt [0]
    let text ← string? msg.bytes
    return ({ state with
      msg := msg
      recvLen := state.recvLen + recvCnt
      echo := state.echo.drop recvCnt }, [.printed text])
  else
    none

def step? (state : State) : Action → Option (State × List Event)
  | .prompt =>
      if state.pc = .prompting then
        some ({ state with pc := .sending, msgLen := 0 }, [.prompted])
      else
        none
  | .input piece =>
      input piece state
  | .receive recvCnt =>
      receive recvCnt state
  | .leave =>
      if state.pc = .receiving ∧ ¬ state.recvLen < state.msgLen then
        some ({ state with pc := .prompting }, [])
      else
        none

/-- The client and a user and a server of any kind that is described above. -/
def system (msg : Buffer bufSize) : System State Action Event where
  initial :=
    { pc := .prompting
      msg := msg
      msgLen := 0
      recvLen := 0
      echo := []
      line := [] }
  step? :=
    step?

namespace Event

def typedBytes : Event → List UInt8
  | typed piece => piece
  | _ => []

def sentBytes : Event → List UInt8
  | sent bytes => bytes
  | _ => []

def printedBytes : Event → List UInt8
  | printed text => text
  | _ => []

end Event

/-- Some bytes of the events since the last prompt. -/
def inRound
    (bytesOf : Event → List UInt8)
    (trace : List Event) : List UInt8 :=
  trace.foldl
    (fun sofar event =>
      if event = .prompted then [] else sofar ++ bytesOf event) []

/-- A round that ends, by a prompt or by the end, has printed what it sent. -/
def PrintsSent (before : List Event) (event : Event) : Prop :=
  event = .prompted ∨ event = .closed → 0 ∉ inRound Event.sentBytes before →
    inRound Event.printedBytes before = inRound Event.sentBytes before

/-- What the user has typed is handled by lines, and its echo is printed. -/
structure Faithful
    (trace : List Event)
    (state : State) : Prop where
  /-- The client stops if and only if a whole line says so. -/
  stops :
    state.pc = .stopped ↔
      ∃ line ∈ linesOf (trace.flatMap Event.typedBytes), IsQuit line
  closes : .closed ∈ trace ↔ state.pc = .stopped
  /-- Until then everything is sent. -/
  sends :
    state.pc ≠ .stopped →
      trace.flatMap Event.sentBytes = trace.flatMap Event.typedBytes
  /-- In the end everything but the last line has been sent. -/
  sendsOthers :
    state.pc = .stopped →
      ∃ line, IsQuit line ∧
        trace.flatMap Event.typedBytes =
          trace.flatMap Event.sentBytes ++ line
  /-- Every round prints what has been sent in it, also the last one. -/
  prints : AtEvery PrintsSent trace

/--
A piece says what the whole line says that it continues, and a quit line does
not leave an echo behind.
-/
def AgreesWithLine (state : State) (piece : List UInt8) : Prop :=
  (IsQuit piece ↔ IsQuit (state.line ++ piece)) ∧
    (IsQuit piece → state.echo = [] ∨ 0 ∈ state.echo)
  deriving Decidable

/--
A piece agrees with its line, and `msg_len` has room for what is sent.
-/
def QuitsByLine (state : State) : Action → Prop
  | .input piece =>
      AgreesWithLine state piece ∧
        (IsQuit piece ∨ state.msgLen + piece.length ≤ intMax)
  | .prompt | .receive _ | .leave =>
      True

instance
    (state : State)
    (action : Action) :
    Decidable (QuitsByLine state action) :=
  match action with
  | .input piece =>
      inferInstanceAs (Decidable
        (AgreesWithLine state piece ∧
          (IsQuit piece ∨ state.msgLen + piece.length ≤ intMax)))
  | .prompt | .receive _ | .leave =>
      .isTrue trivial

end CsPrimer.EchoClient
