import CsPrimer.Pipe.FileReply

namespace CsPrimer.Fifo

open Library Pipe

/-!
# `fifo_server.c`: requests and replies over named pipes

The server reads requests from one FIFO and replies on the FIFO of the client
a request names.  The file system and other processes answer its calls; a
write to a FIFO without a reader kills it.  An access outside `buf` is a
fault.
-/

/-- The FIFOs of the server and of its clients. -/
structure Fifos where
  /-- The bytes in the server's FIFO. -/
  served : List UInt8
  /-- The server's FIFO has been opened for writing at some time. -/
  wasOpened : Bool
  /-- The descriptors that are open for writing to the server's FIFO. -/
  writers : Nat
  /-- The FIFO that `/tmp/fifo.<pid>` names. -/
  names : Int → Option Nat
  /-- The descriptors that are open for reading from a client's FIFO. -/
  readers : Nat → Nat
  /-- The next FIFO that is made. -/
  fresh : Nat

/-- No process has made or opened a FIFO but the server its own. -/
def Fifos.initial : Fifos where
  served := []
  wasOpened := false
  writers := 0
  names := fun _ => none
  readers := fun _ => 0
  fresh := 0

/-- A request that has been split; `ptr` and `n` are offsets in `buf`. -/
structure Request where
  pid : Int
  ptr : Nat
  n : Nat
  deriving Repr, DecidableEq

/-- Where the server is; `writefd` is the client's FIFO. -/
inductive ServerPc where
  | openServer
  | read
  | openClient (request : Request)
  | openFile (request : Request) (writefd : Nat)
  | writeError (request : Request) (writefd : Nat)
  | writeHeader (writefd : Nat)
  | readFile (writefd : Nat)
  | writeFile (n writefd : Nat)
  /-- `main` has returned because `read` has returned 0. -/
  | returned
  /-- `error_handler` has ended the process. -/
  | exited
  /-- `SIGPIPE` has ended the process. -/
  | killed
  | faulted
  deriving Repr, DecidableEq

/-- The server and its buffer. -/
structure Server where
  pc : ServerPc
  buf : Buffer (maxSize + 1)
  deriving Repr, DecidableEq

/-- The server before its first step, with whatever `buf` holds. -/
def Server.initial (buf : Buffer (maxSize + 1)) : Server where
  pc := .openServer
  buf := buf

/-- A write of the server to a client's FIFO. -/
structure Reply where
  writefd : Nat
  bytes : List UInt8
  deriving Repr, DecidableEq

/-- What can be observed of the server. -/
inductive ServerEvent where
  | bogus (text : List UInt8)
  | obtained (pid : Int) (path : List UInt8)
  | replied (reply : Reply)
  deriving Repr, DecidableEq

/-- What the file system answers to the server. -/
inductive Answer where
  | done
  | opened
  | notOpened (strerror : List UInt8)
  | chunk (result : ReadResult)
  deriving Repr, DecidableEq

/-- What the server makes of the bytes it has read. -/
inductive Decoded where
  | fault
  | bogus (text : List UInt8) (buf : Buffer (maxSize + 1))
  | request
      (request : Request)
      (path : List UInt8)
      (buf : Buffer (maxSize + 1))
  deriving Repr, DecidableEq

/-- `pid = atol(buf)`. -/
def pidOf (text : List UInt8) : Int :=
  (atol text).bmod (2 ^ 32)

/-- From `strchr(buf, ' ')` to `atol(buf)`. -/
def splitRequest (buf : Buffer (maxSize + 1)) (n : Nat) : Decoded :=
  match string? buf.bytes with
  | none => .fault
  | some text =>
      match text.idxOf? space with
      | none => .bogus text buf
      | some index =>
          match buf.store? index [0] with
          | none => .fault
          | some buf =>
              match string? buf.bytes,
                  string? (buf.bytes.drop (index + 1)) with
              | some number, some path =>
                  .request ⟨pidOf number, index + 1, n⟩ path buf
              | _, _ => .fault

/-- From `n = strlen(buf)` on: a newline at the end is removed first. -/
def decode (buf : Buffer (maxSize + 1)) : Decoded :=
  match string? buf.bytes with
  | none => .fault
  | some text =>
      match text.getLast? with
      | none => .fault
      | some last =>
          if last = newline then
            match buf.store? (text.length - 1) [0] with
            | none => .fault
            | some buf => splitRequest buf (text.length - 1)
          else
            splitRequest buf text.length

/-- A request that does not end with a newline is split as it is. -/
theorem decode_of_other
    {buf : Buffer (maxSize + 1)}
    {text : List UInt8}
    {last : UInt8}
    (isText : string? buf.bytes = some text)
    (isLast : text.getLast? = some last)
    (notNewline : last ≠ newline) :
    decode buf = splitRequest buf text.length := by
  simp only [decode, isText, isLast, if_neg notNewline]

/-- A newline at the end is overwritten before the request is split. -/
theorem decode_of_newline
    {buf next : Buffer (maxSize + 1)}
    {text : List UInt8}
    (isText : string? buf.bytes = some (text ++ [newline]))
    (stored : buf.store? text.length [0] = some next) :
    decode buf = splitRequest next text.length := by
  simp only [decode, isText, List.getLast?_concat, if_true,
    List.length_append, List.length_singleton, Nat.add_sub_cancel, stored]

/-- `while(read(readfd, buf, MAXSIZE) > 0)`, and the decoding. -/
def receive
    (fifos : Fifos)
    (process : Server) :
    Option (Fifos × Server × List ServerEvent) :=
  if fifos.served = [] then
    if fifos.writers = 0 then
      some (fifos, { process with pc := .returned }, [])
    else
      none
  else
    let after := { fifos with served := fifos.served.drop maxSize }
    match process.buf.store? 0 (fifos.served.take maxSize) with
    | none => some (after, { process with pc := .faulted }, [])
    | some buf =>
        match decode buf with
        | .fault => some (after, { pc := .faulted, buf := buf }, [])
        | .bogus text buf =>
            some (after, { pc := .read, buf := buf }, [.bogus text])
        | .request request path buf =>
            some (after, { pc := .openClient request, buf := buf },
              [.obtained request.pid path])

/-- `write(writefd, bytes, n)`, after which the server is at `next`. -/
def write
    (fifos : Fifos)
    (writefd : Nat)
    (bytes : List UInt8)
    (next : ServerPc)
    (process : Server) :
    Server × List Reply :=
  if bytes ≠ [] ∧ fifos.readers writefd = 0 then
    ({ process with pc := .killed }, [])
  else
    ({ process with pc := next }, [⟨writefd, bytes⟩])

/-- `snprintf(buf+n, MAXSIZE-n, ": cannot open, %s\n", strerror(errno))`. -/
def appendError
    (request : Request)
    (writefd : Nat)
    (strerror : List UInt8)
    (process : Server) : Server :=
  match process.buf.snprintf? request.n (maxSize - request.n)
      (ascii ": cannot open, " ++ strerror ++ ascii "\n") with
  | none => { process with pc := .faulted }
  | some buf => { pc := .writeError request writefd, buf := buf }

/-- The other steps of the server: they take nothing from its FIFO. -/
def respond
    (fifos : Fifos)
    (process : Server)
    (answer : Answer) :
    Option (Server × List Reply) :=
  match process.pc, answer with
  | .openServer, .done =>
      if fifos.wasOpened then
        some ({ process with pc := .read }, [])
      else
        none
  | .openClient request, .done =>
      match fifos.names request.pid with
      | none => some ({ process with pc := .exited }, [])
      | some writefd =>
          if fifos.readers writefd = 0 then
            none
          else
            some ({ process with pc := .openFile request writefd }, [])
  | .openFile request writefd, .notOpened strerror =>
      some (appendError request writefd strerror process, [])
  | .openFile _ writefd, .opened =>
      some ({ process with pc := .writeHeader writefd }, [])
  | .writeError request writefd, .done =>
      match string? (process.buf.bytes.drop request.ptr) with
      | none => some ({ process with pc := .faulted }, [])
      | some text => some (write fifos writefd text .read process)
  | .writeHeader writefd, .done =>
      some (write fifos writefd (Program.fifo.header ++ [0])
        (.readFile writefd) process)
  | .readFile writefd, .chunk (.data bytes) =>
      if bytes = [] ∨ maxSize < bytes.length then
        none
      else
        match process.buf.store? 0 bytes with
        | none => some ({ process with pc := .faulted }, [])
        | some buf =>
            some ({ pc := .writeFile bytes.length writefd, buf := buf }, [])
  | .readFile _, .chunk _ =>
      some ({ process with pc := .read }, [])
  | .writeFile n writefd, .done =>
      match process.buf.load? 0 n with
      | none => some ({ process with pc := .faulted }, [])
      | some bytes =>
          some (write fifos writefd bytes (.readFile writefd) process)
  | _, _ =>
      none

/-- One step of the server. -/
def server
    (fifos : Fifos)
    (process : Server)
    (answer : Answer) :
    Option (Fifos × Server × List ServerEvent) :=
  if process.pc = .read then
    if answer = .done then
      receive fifos process
    else
      none
  else
    (respond fifos process answer).map fun (next, replies) =>
      (fifos, next, replies.map .replied)

/-- The server has left its loop. -/
def ServerPc.gone : ServerPc → Bool
  | .returned | .exited | .killed | .faulted => true
  | _ => false

/-- What other processes do to the FIFOs. -/
inductive Peer where
  /-- `open("/tmp/fifo.serv", O_WRONLY)`. -/
  | openServer
  /-- `write` to the server's FIFO. -/
  | writeServer (bytes : List UInt8)
  /-- `close` of a descriptor for it. -/
  | closeServer
  /-- `mkfifo` of a client's FIFO. -/
  | makeFifo (pid : Int)
  | unlinkFifo (pid : Int)
  /-- `open` of a client's FIFO with `O_RDONLY`. -/
  | openFifo (pid : Int)
  /-- `close` of a descriptor for reading. -/
  | closeFifo (fifo : Nat)
  deriving Repr, DecidableEq

/-- A call of another process; one that blocks or fails is no step. -/
def peer (serverGone : Bool) (fifos : Fifos) : Peer → Option Fifos
  | .openServer =>
      if serverGone then
        none
      else
        some { fifos with
          wasOpened := true
          writers := fifos.writers + 1 }
  | .writeServer bytes =>
      if serverGone ∨ fifos.writers = 0 then
        none
      else
        some { fifos with served := fifos.served ++ bytes }
  | .closeServer =>
      if fifos.writers = 0 then
        none
      else
        some { fifos with writers := fifos.writers - 1 }
  | .makeFifo pid =>
      if (fifos.names pid).isSome then
        none
      else
        some { fifos with
          names := Function.update fifos.names pid (some fifos.fresh)
          fresh := fifos.fresh + 1 }
  | .unlinkFifo pid =>
      some { fifos with names := Function.update fifos.names pid none }
  | .openFifo pid =>
      (fifos.names pid).map fun fifo =>
        { fifos with
          readers := Function.update fifos.readers fifo
            (fifos.readers fifo + 1) }
  | .closeFifo fifo =>
      if fifos.readers fifo = 0 then
        none
      else
        some { fifos with
          readers := Function.update fifos.readers fifo
            (fifos.readers fifo - 1) }

end CsPrimer.Fifo
