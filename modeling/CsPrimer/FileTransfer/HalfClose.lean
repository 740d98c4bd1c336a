import CsPrimer.Library.Buffer
import CsPrimer.Library.TransitionSystem

namespace CsPrimer.FileTransfer

open Library

/-!
# `file_server.c` and `file_client.c`: a file and a half-close

The server sends a file in chunks of `BUF_SIZE` bytes, of which the first short
one is the last, and shuts its side of the connection down.  The client stores
whatever its reads return in `receive.dat` until one returns 0.  A read returns
as many bytes as it likes of those that are on the way, and 0 only at the end of
the stream.  Calls do not fail, and `write` takes all its bytes.
-/

/-- `BUF_SIZE` of both programs. -/
abbrev bufSize : Nat := 30

/-- Where the server is. -/
inductive ServerPc where
  | reading
  | testing (readCnt : Nat)
  | writing (count : Nat) (last : Bool)
  | shuttingDown
  | shut
  deriving Repr, DecidableEq

/-- The server with its buffer and what `fread` has not read of the file. -/
structure Server where
  pc : ServerPc
  buf : Buffer bufSize
  unread : List UInt8
  deriving Repr, DecidableEq

/-- Where the client is. -/
inductive ClientPc where
  | reading
  | writing (readCnt : Nat)
  | ended
  deriving Repr, DecidableEq

/-- The client with its buffer and what it has written to `receive.dat`. -/
structure Client where
  pc : ClientPc
  buf : Buffer bufSize
  file : List UInt8
  deriving Repr, DecidableEq

/-- The two programs and what the server has sent and the client not read. -/
structure State where
  server : Server
  stream : List UInt8
  client : Client
  deriving Repr, DecidableEq

/-- A step of a program; the connection chooses what `read` returns. -/
inductive Action where
  | server
  | read (readCnt : Nat)
  | fwrite
  deriving Repr, DecidableEq

/-- What the server does to the connection. -/
inductive Event where
  | sent (bytes : List UInt8)
  | shutDown
  deriving Repr, DecidableEq

/-- A step of the server: its loop, and `shutdown` behind it. -/
def serverStep (state : State) : Option (State × List Event) :=
  let server := state.server
  match server.pc with
  | .reading => do
      let chunk := server.unread.take bufSize
      let buf ← server.buf.store? 0 chunk
      return ({ state with
        server :=
          { pc := .testing chunk.length
            buf := buf
            unread := server.unread.drop bufSize } }, [])
  | .testing readCnt =>
      if readCnt < bufSize then
        some ({ state with
          server := { server with pc := .writing readCnt true } }, [])
      else
        some ({ state with
          server := { server with pc := .writing bufSize false } }, [])
  | .writing count last => do
      let bytes ← server.buf.load? 0 count
      return ({ state with
        server :=
          { server with pc := if last then .shuttingDown else .reading }
        stream := state.stream ++ bytes }, [.sent bytes])
  | .shuttingDown =>
      some ({ state with server := { server with pc := .shut } }, [.shutDown])
  | .shut =>
      none

/-- The `read` of the client, when it returns `readCnt`. -/
def clientRead
    (readCnt : Nat)
    (state : State) : Option (State × List Event) :=
  let client := state.client
  match client.pc with
  | .reading =>
      if readCnt = 0 then
        if state.stream = [] ∧ state.server.pc = .shut then
          some ({ state with client := { client with pc := .ended } }, [])
        else
          none
      else if readCnt ≤ bufSize ∧ readCnt ≤ state.stream.length then do
        let buf ← client.buf.store? 0 (state.stream.take readCnt)
        return ({ state with
          client := { client with pc := .writing readCnt, buf := buf }
          stream := state.stream.drop readCnt }, [])
      else
        none
  | .writing _ | .ended =>
      none

/-- The `fwrite` of the client; what `fp` buffers is in the file for it. -/
def clientWrite (state : State) : Option (State × List Event) :=
  let client := state.client
  match client.pc with
  | .writing readCnt => do
      let bytes ← client.buf.load? 0 readCnt
      return ({ state with
        client :=
          { client with pc := .reading, file := client.file ++ bytes } }, [])
  | .reading | .ended =>
      none

def step? (state : State) : Action → Option (State × List Event)
  | .server => serverStep state
  | .read readCnt => clientRead readCnt state
  | .fwrite => clientWrite state

/-- The transfer of a file, with whatever the two buffers hold. -/
def system
    (content : List UInt8)
    (serverBuf clientBuf : Buffer bufSize) : System State Action Event where
  initial :=
    { server := { pc := .reading, buf := serverBuf, unread := content }
      stream := []
      client := { pc := .reading, buf := clientBuf, file := [] } }
  step? :=
    step?

/-- The bytes that have been sent. -/
def sentBytes (trace : List Event) : List UInt8 :=
  trace.flatMap fun
    | .sent bytes => bytes
    | .shutDown => []

/-- What the transfer of a file has to be at every moment. -/
structure Exact
    (content : List UInt8)
    (trace : List Event)
    (state : State) : Prop where
  inOrder : sentBytes trace <+: content
  thenShut :
    .shutDown ∈ trace →
      ∃ before,
        trace = before ++ [.shutDown] ∧ .shutDown ∉ before ∧
          sentBytes before = content
  receiving : state.client.file <+: content
  received : state.client.pc = .ended → state.client.file = content
  goesOn :
    (∀ action, step? state action = none) →
      state.server.pc = .shut ∧ state.client.pc = .ended

/-- What a step can be. -/
inductive Taken (state : State) : State → List Event → Prop where
  | freads
      {buf : Buffer bufSize}
      (isReading : state.server.pc = .reading)
      (holds :
        buf.bytes.take (state.server.unread.take bufSize).length =
          state.server.unread.take bufSize) :
      Taken state
        { state with
          server :=
            { pc := .testing (state.server.unread.take bufSize).length
              buf := buf
              unread := state.server.unread.drop bufSize } } []
  | endsShort
      {readCnt : Nat}
      (isTesting : state.server.pc = .testing readCnt)
      (short : readCnt < bufSize) :
      Taken state
        { state with
          server := { state.server with pc := .writing readCnt true } } []
  | endsFull
      {readCnt : Nat}
      (isTesting : state.server.pc = .testing readCnt)
      (full : ¬ readCnt < bufSize) :
      Taken state
        { state with
          server := { state.server with pc := .writing bufSize false } } []
  | writes
      {count : Nat}
      {last : Bool}
      (isWriting : state.server.pc = .writing count last) :
      Taken state
        { state with
          server :=
            { state.server with
              pc := if last then .shuttingDown else .reading }
          stream := state.stream ++ state.server.buf.bytes.take count }
        [.sent (state.server.buf.bytes.take count)]
  | shuts
      (isShutting : state.server.pc = .shuttingDown) :
      Taken state
        { state with server := { state.server with pc := .shut } }
        [.shutDown]
  | reads
      {readCnt : Nat}
      {buf : Buffer bufSize}
      (isReading : state.client.pc = .reading)
      (positive : 0 < readCnt)
      (fits : readCnt ≤ bufSize)
      (holds : buf.bytes.take readCnt = state.stream.take readCnt)
      (available : readCnt ≤ state.stream.length) :
      Taken state
        { state with
          client :=
            { state.client with pc := .writing readCnt, buf := buf }
          stream := state.stream.drop readCnt } []
  | ends
      (isReading : state.client.pc = .reading)
      (isEmpty : state.stream = [])
      (isShut : state.server.pc = .shut) :
      Taken state
        { state with client := { state.client with pc := .ended } } []
  | fwrites
      {readCnt : Nat}
      (isWriting : state.client.pc = .writing readCnt) :
      Taken state
        { state with
          client :=
            { state.client with
              pc := .reading
              file :=
                state.client.file ++ state.client.buf.bytes.take readCnt } }
        []

section Steps

variable
  {state next : State}
  {events : List Event}

theorem taken_of_serverStep
    (taken : serverStep state = some (next, events)) :
    Taken state next events := by
  cases isPc : state.server.pc with
  | reading =>
      obtain ⟨buf, stored, holds⟩ :=
        state.server.buf.store?_front (state.server.unread.take bufSize)
          (List.length_take_le bufSize state.server.unread)
      simp only [serverStep, isPc, stored, Option.bind_eq_bind,
        Option.bind_some] at taken
      obtain ⟨rfl, rfl⟩ := Prod.mk.inj (Option.some.inj taken)
      exact .freads isPc holds
  | testing readCnt =>
      simp only [serverStep, isPc] at taken
      split at taken
      case isTrue short =>
        obtain ⟨rfl, rfl⟩ := Prod.mk.inj (Option.some.inj taken)
        exact .endsShort isPc short
      case isFalse full =>
        obtain ⟨rfl, rfl⟩ := Prod.mk.inj (Option.some.inj taken)
        exact .endsFull isPc full
  | writing count last =>
      simp only [serverStep, isPc, Option.bind_eq_bind,
        Option.bind_eq_some_iff] at taken
      obtain ⟨bytes, loaded, isNext⟩ := taken
      obtain rfl := Buffer.eq_take_of_load? loaded
      obtain ⟨rfl, rfl⟩ := Prod.mk.inj (Option.some.inj isNext)
      exact .writes isPc
  | shuttingDown =>
      simp only [serverStep, isPc] at taken
      obtain ⟨rfl, rfl⟩ := Prod.mk.inj (Option.some.inj taken)
      exact .shuts isPc
  | shut =>
      simp only [serverStep, isPc] at taken
      contradiction

theorem taken_of_clientRead
    {readCnt : Nat}
    (taken : clientRead readCnt state = some (next, events)) :
    Taken state next events := by
  cases isPc : state.client.pc with
  | reading =>
      simp only [clientRead, isPc] at taken
      split at taken
      case isTrue =>
        split at taken
        case isTrue isEnd =>
          obtain ⟨rfl, rfl⟩ := Prod.mk.inj (Option.some.inj taken)
          exact .ends isPc isEnd.1 isEnd.2
        case isFalse =>
          contradiction
      case isFalse notZero =>
        split at taken
        case isTrue bounds =>
          have length : (state.stream.take readCnt).length = readCnt :=
            List.length_take_of_le bounds.2
          obtain ⟨buf, stored, holds⟩ :=
            state.client.buf.store?_front (state.stream.take readCnt)
              (Nat.le_trans (Nat.le_of_eq length) bounds.1)
          rw [length] at holds
          simp only [stored, Option.bind_eq_bind, Option.bind_some] at taken
          obtain ⟨rfl, rfl⟩ := Prod.mk.inj (Option.some.inj taken)
          exact .reads isPc (Nat.pos_of_ne_zero notZero) bounds.1 holds
            bounds.2
        case isFalse =>
          contradiction
  | writing readCnt | ended =>
      simp only [clientRead, isPc] at taken
      contradiction

theorem taken_of_clientWrite
    (taken : clientWrite state = some (next, events)) :
    Taken state next events := by
  cases isPc : state.client.pc with
  | writing readCnt =>
      simp only [clientWrite, isPc, Option.bind_eq_bind,
        Option.bind_eq_some_iff] at taken
      obtain ⟨bytes, loaded, isNext⟩ := taken
      obtain rfl := Buffer.eq_take_of_load? loaded
      obtain ⟨rfl, rfl⟩ := Prod.mk.inj (Option.some.inj isNext)
      exact .fwrites isPc
  | reading | ended =>
      simp only [clientWrite, isPc] at taken
      contradiction

theorem taken_of_step?
    {action : Action}
    (taken : step? state action = some (next, events)) :
    Taken state next events := by
  cases action with
  | server =>
      exact taken_of_serverStep taken
  | read readCnt =>
      exact taken_of_clientRead taken
  | fwrite =>
      exact taken_of_clientWrite taken

end Steps

/-- What the server has read of the file and not sent. -/
def Server.pending (server : Server) : List UInt8 :=
  match server.pc with
  | .testing count | .writing count _ => server.buf.bytes.take count
  | .reading | .shuttingDown | .shut => []

/-- A short chunk is the last one. -/
def Server.Ok (server : Server) : Prop :=
  match server.pc with
  | .reading => True
  | .testing readCnt =>
      readCnt ≤ bufSize ∧ (readCnt < bufSize → server.unread = [])
  | .writing count last =>
      count ≤ bufSize ∧ (last = true → server.unread = [])
  | .shuttingDown | .shut => server.unread = []

/-- What the client has read of the stream and not written. -/
def Client.pending (client : Client) : List UInt8 :=
  match client.pc with
  | .writing readCnt => client.buf.bytes.take readCnt
  | .reading | .ended => []

def Client.Ok (client : Client) : Prop :=
  match client.pc with
  | .writing readCnt => readCnt ≤ bufSize
  | .reading | .ended => True

/-- What the server has done by the end of a trace. -/
structure ServerInvariant
    (content : List UInt8)
    (trace : List Event)
    (server : Server) : Prop where
  ok : server.Ok
  offered : sentBytes trace ++ (server.pending ++ server.unread) = content
  isOpen : server.pc ≠ .shut → .shutDown ∉ trace
  isShut :
    server.pc = .shut →
      ∃ before,
        trace = before ++ [.shutDown] ∧ .shutDown ∉ before ∧
          sentBytes before = content

/-- What the client has got by the end of a trace. -/
structure ClientInvariant
    (trace : List Event)
    (state : State) : Prop where
  ok : state.client.Ok
  carried :
    state.client.file ++ (state.client.pending ++ state.stream) =
      sentBytes trace
  ended :
    state.client.pc = .ended →
      state.stream = [] ∧ state.server.pc = .shut

section Invariants

variable
  {content : List UInt8}
  {trace events : List Event}
  {state next : State}

theorem sentBytes_append (later : List Event) :
    sentBytes (trace ++ later) = sentBytes trace ++ sentBytes later :=
  List.flatMap_append

theorem ServerInvariant.preserved
    (invariant : ServerInvariant content trace state.server)
    (taken : Taken state next events) :
    ServerInvariant content (trace ++ events) next.server := by
  obtain ⟨ok, offered, isOpen, isShut⟩ := invariant
  cases taken with
  | @freads buf isReading holds =>
      rw [List.append_nil]
      refine ⟨⟨List.length_take_le _ _, ?_⟩, ?_, fun _ => ?_, nofun⟩
      · intro short
        rw [List.length_take] at short
        exact List.drop_eq_nil_of_le (by omega)
      · simp only [Server.pending, isReading, List.nil_append] at offered
        simp only [Server.pending]
        rw [holds, List.take_append_drop, offered]
      · exact isOpen (by simp [isReading])
  | endsShort isTesting short =>
      rw [List.append_nil]
      simp only [Server.Ok, isTesting] at ok
      refine ⟨⟨ok.1, fun _ => ok.2 short⟩, ?_, fun _ => ?_, nofun⟩
      · simpa only [Server.pending, isTesting] using offered
      · exact isOpen (by simp [isTesting])
  | @endsFull readCnt isTesting full =>
      rw [List.append_nil]
      simp only [Server.Ok, isTesting] at ok
      obtain rfl : readCnt = bufSize :=
        Nat.le_antisymm ok.1 (Nat.le_of_not_lt full)
      refine ⟨⟨Nat.le_refl bufSize, nofun⟩, ?_, fun _ => ?_, nofun⟩
      · simpa only [Server.pending, isTesting] using offered
      · exact isOpen (by simp [isTesting])
  | @writes count last isWriting =>
      simp only [Server.Ok, isWriting] at ok
      simp only [Server.pending, isWriting] at offered
      have stillOpen : .shutDown ∉ trace := isOpen (by simp [isWriting])
      have sent :
          sentBytes (trace ++ [.sent (state.server.buf.bytes.take count)]) =
            sentBytes trace ++ state.server.buf.bytes.take count := by
        rw [sentBytes_append]
        simp [sentBytes]
      cases last with
      | false =>
          refine ⟨trivial, ?_, fun _ => ?_, nofun⟩
          · rw [sent, List.append_assoc]
            exact offered
          · simp [stillOpen]
      | true =>
          refine ⟨ok.2 rfl, ?_, fun _ => ?_, nofun⟩
          · rw [sent, List.append_assoc]
            exact offered
          · simp [stillOpen]
  | shuts isShutting =>
      simp only [Server.Ok, isShutting] at ok
      simp only [Server.pending, isShutting, ok, List.append_nil] at offered
      have sent : sentBytes (trace ++ [.shutDown]) = sentBytes trace := by
        rw [sentBytes_append]
        exact List.append_nil _
      refine ⟨ok, ?_, fun isOther => absurd rfl isOther, fun _ => ?_⟩
      · simp only [sent, offered, Server.pending, ok, List.append_nil]
      · exact ⟨trace, rfl, isOpen (by simp [isShutting]), offered⟩
  | reads | ends | fwrites =>
      rw [List.append_nil]
      exact ⟨ok, offered, isOpen, isShut⟩

/-- The whole file has been sent when the connection is shut down. -/
theorem ServerInvariant.sent_of_shut
    (invariant : ServerInvariant content trace state.server)
    (isShut : state.server.pc = .shut) :
    sentBytes trace = content := by
  have ok := invariant.ok
  have offered := invariant.offered
  simp only [Server.Ok, isShut] at ok
  simpa only [Server.pending, isShut, ok, List.append_nil] using offered

theorem ClientInvariant.preserved
    (invariant : ClientInvariant trace state)
    (taken : Taken state next events) :
    ClientInvariant (trace ++ events) next := by
  obtain ⟨ok, carried, ended⟩ := invariant
  cases taken with
  | freads isPc | endsShort isPc | endsFull isPc =>
      rw [List.append_nil]
      refine ⟨ok, carried, fun isEnded => ?_⟩
      have isShut := (ended isEnded).2
      rw [isPc] at isShut
      contradiction
  | @writes count last isWriting =>
      refine ⟨ok, ?_, fun isEnded => ?_⟩
      · rw [sentBytes_append, ← carried]
        simp [sentBytes, List.append_assoc]
      · have isShut := (ended isEnded).2
        rw [isWriting] at isShut
        contradiction
  | shuts =>
      refine ⟨ok, ?_, fun isEnded => ⟨(ended isEnded).1, rfl⟩⟩
      rw [sentBytes_append, ← carried]
      simp [sentBytes]
  | reads isReading _ fits holds =>
      rw [List.append_nil]
      refine ⟨fits, ?_, nofun⟩
      simp only [Client.pending, isReading, List.nil_append] at carried
      simp only [Client.pending]
      rw [holds, List.take_append_drop, carried]
  | ends isReading isEmpty isShut =>
      rw [List.append_nil]
      refine ⟨trivial, ?_, fun _ => ⟨isEmpty, isShut⟩⟩
      simpa only [Client.pending, isReading] using carried
  | fwrites isWriting =>
      rw [List.append_nil]
      refine ⟨trivial, ?_, nofun⟩
      simpa only [Client.pending, isWriting, List.nil_append,
        List.append_assoc] using carried

theorem invariants
    {serverBuf clientBuf : Buffer bufSize}
    (reaches : (system content serverBuf clientBuf).Reaches trace state) :
    ServerInvariant content trace state.server ∧
      ClientInvariant trace state := by
  induction reaches with
  | initial =>
      exact ⟨⟨trivial, rfl, fun _ => List.not_mem_nil, nofun⟩,
        ⟨trivial, rfl, nofun⟩⟩
  | step _ taken inductionHypothesis =>
      obtain ⟨serverInvariant, clientInvariant⟩ := inductionHypothesis
      have step := taken_of_step? taken
      exact ⟨serverInvariant.preserved step, clientInvariant.preserved step⟩

end Invariants

section Progress

variable {state : State}

/-- The server goes on until it has shut the connection down. -/
theorem pc_eq_of_serverStep
    (ok : state.server.Ok)
    (stuck : serverStep state = none) :
    state.server.pc = .shut := by
  cases isPc : state.server.pc with
  | reading =>
      obtain ⟨buf, stored, -⟩ :=
        state.server.buf.store?_front (state.server.unread.take bufSize)
          (List.length_take_le bufSize state.server.unread)
      simp only [serverStep, isPc, stored] at stuck
      contradiction
  | testing readCnt =>
      simp only [serverStep, isPc] at stuck
      split at stuck <;> contradiction
  | writing count last =>
      simp only [Server.Ok, isPc] at ok
      simp only [serverStep, isPc, Buffer.load?_front ok.1] at stuck
      contradiction
  | shuttingDown =>
      simp only [serverStep, isPc] at stuck
      contradiction
  | shut =>
      rfl

/-- Then the client goes on until it has ended. -/
theorem pc_eq_of_clientSteps
    (ok : state.client.Ok)
    (isShut : state.server.pc = .shut)
    (noRead : ∀ readCnt, clientRead readCnt state = none)
    (noWrite : clientWrite state = none) :
    state.client.pc = .ended := by
  cases isPc : state.client.pc with
  | reading =>
      exfalso
      by_cases isEmpty : state.stream = []
      · have stuck := noRead 0
        simp only [clientRead, isPc, isEmpty, isShut] at stuck
        contradiction
      · have positive := List.length_pos_iff.mpr isEmpty
        have length : (state.stream.take 1).length = 1 :=
          List.length_take_of_le positive
        obtain ⟨buf, stored, -⟩ :=
          state.client.buf.store?_front (state.stream.take 1)
            (by rw [length]; decide)
        have bounds : 1 ≤ bufSize ∧ 1 ≤ state.stream.length :=
          ⟨by decide, positive⟩
        have stuck := noRead 1
        simp only [clientRead, isPc, if_neg Nat.one_ne_zero, if_pos bounds,
          stored] at stuck
        contradiction
  | writing readCnt =>
      simp only [Client.Ok, isPc] at ok
      simp only [clientWrite, isPc, Buffer.load?_front ok] at noWrite
      contradiction
  | ended =>
      rfl

end Progress

section Length

/-- A bound on the steps the server has left. -/
def Server.left (server : Server) : Nat :=
  match server.pc with
  | .reading => 3 * (server.unread.length / bufSize) + 4
  | .testing readCnt =>
      if readCnt < bufSize then 3
      else 3 * (server.unread.length / bufSize) + 6
  | .writing _ true => 2
  | .writing _ false => 3 * (server.unread.length / bufSize) + 5
  | .shuttingDown => 1
  | .shut => 0

/-- The bytes that the client has not read, wherever they are. -/
def State.ahead (state : State) : Nat :=
  (state.server.pending ++ state.server.unread).length + state.stream.length

/-- A bound on the steps the client has left. -/
def State.clientLeft (state : State) : Nat :=
  match state.client.pc with
  | .reading => 2 * state.ahead + 1
  | .writing _ => 2 * state.ahead + 2
  | .ended => 0

/-- A bound on the steps that are left. -/
def measure (state : State) : Nat :=
  state.server.left + state.clientLeft

variable
  {state next : State}
  {events : List Event}

/-- A chunk less is left, if it is a whole one. -/
theorem left_of_fread
    (unread : List UInt8)
    (buf : Buffer bufSize) :
    Server.left
        { pc := .testing (unread.take bufSize).length
          buf := buf
          unread := unread.drop bufSize } <
      3 * (unread.length / bufSize) + 4 := by
  simp only [Server.left, List.length_take, List.length_drop, bufSize]
  split
  · omega
  · omega

/-- A step of the server moves bytes, and does not change what is ahead. -/
theorem measure_lt_of_server
    (sameClient : next.client = state.client)
    (sameAhead : next.ahead = state.ahead)
    (less : next.server.left < state.server.left) :
    measure next < measure state := by
  have sameLeft : next.clientLeft = state.clientLeft := by
    rw [State.clientLeft, State.clientLeft, sameClient, sameAhead]
  rw [measure, measure, sameLeft]
  omega

theorem measure_lt
    (taken : Taken state next events) :
    measure next < measure state := by
  cases taken with
  | @freads buf isReading holds =>
      refine measure_lt_of_server rfl ?_ ?_
      · simp only [State.ahead, Server.pending, isReading, holds,
          List.take_append_drop, List.nil_append]
      · refine Nat.lt_of_lt_of_eq (left_of_fread state.server.unread buf) ?_
        simp only [Server.left, isReading]
  | endsShort isTesting short =>
      refine measure_lt_of_server rfl ?_ ?_
      · simp only [State.ahead, Server.pending, isTesting]
      · simp only [Server.left, isTesting, if_pos short]
        omega
  | endsFull isTesting full =>
      have whole := state.server.buf.length_eq
      refine measure_lt_of_server rfl ?_ ?_
      · simp only [State.ahead, Server.pending, isTesting]
        rw [List.take_of_length_le (Nat.le_of_eq whole),
          List.take_of_length_le (by omega)]
      · simp only [Server.left, isTesting, if_neg full]
        omega
  | @writes count last isWriting =>
      refine measure_lt_of_server rfl ?_ ?_
      · cases last <;>
          simp [State.ahead, Server.pending, isWriting] <;> omega
      · cases last with
        | false =>
            simp [Server.left, isWriting]
        | true =>
            simp [Server.left, isWriting]
  | shuts isShutting =>
      refine measure_lt_of_server rfl ?_ ?_
      · simp only [State.ahead, Server.pending, isShutting]
      · simp only [Server.left, isShutting]
        omega
  | reads isReading positive fits holds available =>
      simp only [measure, State.clientLeft, State.ahead, isReading,
        List.length_drop]
      omega
  | ends isReading =>
      simp only [measure, State.clientLeft, isReading]
      omega
  | fwrites isWriting =>
      simp only [measure, State.clientLeft, State.ahead, isWriting]
      omega

end Length

/--
The server sends the file once and in order and then shuts the connection down,
and the client has exactly the file when its loop has ended.  Every transfer
ends, and with the end of both programs.
-/
theorem transfer_exact
    (content : List UInt8)
    (serverBuf clientBuf : Buffer bufSize) :
    (∀ trace state,
        (system content serverBuf clientBuf).Reaches trace state →
          Exact content trace state) ∧
      ∀ actions state trace,
        (system content serverBuf clientBuf).run?
            (system content serverBuf clientBuf).initial actions =
            some (state, trace) →
          actions.length ≤
            3 * (content.length / bufSize) + 2 * content.length + 5 := by
  constructor
  · intro trace state reaches
    obtain ⟨server, client⟩ := invariants reaches
    have sent : sentBytes trace <+: content :=
      ⟨_, server.offered⟩
    refine
      { inOrder := sent
        thenShut := fun member => ?_
        receiving := ?_
        received := fun isEnded => ?_
        goesOn := fun stuck => ?_ }
    · by_cases isShut : state.server.pc = .shut
      · exact server.isShut isShut
      · exact absurd member (server.isOpen isShut)
    · exact List.IsPrefix.trans ⟨_, client.carried⟩ sent
    · obtain ⟨isEmpty, isShut⟩ := client.ended isEnded
      have carried := client.carried
      simp only [Client.pending, isEnded, isEmpty, List.append_nil] at carried
      rw [carried, server.sent_of_shut isShut]
    · have isShut := pc_eq_of_serverStep server.ok (stuck .server)
      exact ⟨isShut,
        pc_eq_of_clientSteps client.ok isShut (fun n => stuck (.read n))
          (stuck .fwrite)⟩
  · intro actions state trace ran
    have bound :=
      System.length_le_of_run? measure
        (fun taken => measure_lt (taken_of_step? taken)) ran
    have start :
        measure (system content serverBuf clientBuf).initial =
          3 * (content.length / bufSize) + 2 * content.length + 5 := by
      simp only [system, measure, Server.left, State.clientLeft, State.ahead,
        Server.pending, List.nil_append, List.length_nil]
      omega
    omega

end CsPrimer.FileTransfer
