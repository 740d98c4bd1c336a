import CsPrimer.Library.Buffer
import CsPrimer.Library.ByteStream
import CsPrimer.Library.CString

namespace CsPrimer.Pipe

open Library

/-!
# `pipe.c`, `fifo_server.c` and `fifo_client.c`: the reply with a file

A server writes a header and the chunks it reads from a file; a client prints
the pieces it reads as strings.  An access outside a buffer is a fault.
-/

/-- `MAXSIZE`. -/
abbrev maxSize : Nat := 256

/--
`while((n = read(fd, buf, MAXSIZE)) > 0) write(writefd, buf, n);`, the bytes
of each write.
-/
def copyFile
    (buf : Buffer (maxSize + 1)) :
    List ReadResult → Option (List (List UInt8))
  | .data bytes :: results =>
      (buf.store? 0 bytes).bind fun buf =>
        (buf.load? 0 bytes.length).bind fun written =>
          (copyFile buf results).map (written :: ·)
  | _ =>
      some []

/-- The two programs whose servers send a header with its NUL. -/
inductive Program where
  | pipe
  | fifo
  deriving Repr, DecidableEq

namespace Program

/-- The text of `msg` in `pipe.c` and of `tmp` in `fifo_server.c`. -/
def header : Program → List UInt8
  | pipe => ascii "context of file: \n"
  | fifo => ascii "the context of file: \n"

/-- What follows the file. -/
def trailer : Program → List UInt8
  | pipe => ascii "\n"
  | fifo => []

/-- The writes of `server` in `pipe.c` for a file that can be opened. -/
def pipeServer
    (buf : Buffer (maxSize + 1))
    (results : List ReadResult) :
    Option (List (List UInt8)) :=
  (copyFile buf results).map fun chunks =>
    (pipe.header ++ [0]) :: chunks ++ [pipe.trailer]

/-- The writes of `fifo_server.c` for a file that can be opened. -/
def fifoServer
    (buf : Buffer (maxSize + 1))
    (results : List ReadResult) :
    Option (List (List UInt8)) :=
  (copyFile buf results).map fun chunks =>
    (fifo.header ++ [0]) :: chunks

/-- The writes of the server of each program. -/
def server : Program →
    Buffer (maxSize + 1) → List ReadResult → Option (List (List UInt8))
  | pipe => pipeServer
  | fifo => fifoServer

end Program

/--
`while((n = read(readfd, buf, MAXSIZE)) > 0) { buf[n] = 0; fputs(buf,
stdout); }`, the characters printed.
-/
def printReply
    (buf : Buffer maxSize) :
    List ReadResult → Option (List UInt8)
  | .data bytes :: results =>
      (buf.store? 0 bytes).bind fun buf =>
        (buf.store? bytes.length [0]).bind fun buf =>
          (string? buf.bytes).bind fun text =>
            (printReply buf results).map (text ++ ·)
  | _ =>
      some []

end CsPrimer.Pipe
