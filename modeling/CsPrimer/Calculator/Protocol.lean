import CsPrimer.Library.Buffer
import CsPrimer.Library.ByteStream
import CsPrimer.Library.CInt
import CsPrimer.Library.LittleEndian

namespace CsPrimer.Calculator

open Library

/-!
# `op_client.c` and `op_server.c`: a calculator over TCP

The client sends the number of operands in one byte, the operands as they lie
in memory, and the operator; the server sends back the result.  Machines are
little-endian.  An access outside a buffer is a fault.
-/

/-- `BUF_SIZE`. -/
abbrev bufSize : Nat := 1024

/-- `OPSZ`. -/
abbrev opsz : Nat := 4

/-- The loop that scans operands into `opmsg`, from operand `i` on. -/
def scanOperands :
    Buffer bufSize → Nat → List Int32 → Option (Buffer bufSize)
  | opmsg, _, [] =>
      some opmsg
  | opmsg, i, operand :: rest =>
      (opmsg.store? (i * opsz + 1) (intBytes operand)).bind fun opmsg =>
        scanOperands opmsg (i + 1) rest

/-- The bytes `op_client` writes for the numbers and the character typed. -/
def opClient
    (opmsg : Buffer bufSize)
    (operands : List Int32)
    (operator : UInt8) :
    Option (List UInt8) := do
  let opndCnt := operands.length
  let opmsg ← opmsg.store? 0 [UInt8.ofNat opndCnt]
  let opmsg ← scanOperands opmsg 0 operands
  let opmsg ← opmsg.store? (opndCnt * opsz + 1) [operator]
  opmsg.load? 0 (opndCnt * opsz + 2)

/-- The arithmetic of the cases of `switch(op)`. -/
def operation? (op : UInt8) : Option (Int → Int → Int) :=
  if op = '+'.toUInt8 then
    some (· + ·)
  else if op = '-'.toUInt8 then
    some (· - ·)
  else if op = '*'.toUInt8 then
    some (· * ·)
  else
    none

/-- `calculate`; a partial result that overflows has no outcome. -/
def calculate
    (opnum : Int)
    (opnds : Nat → Option Int32)
    (op : UInt8) :
    Option Int32 := do
  let result ← opnds 0
  match operation? op with
  | some operation =>
      (List.range' 1 (opnum.toNat - 1)).foldlM
        (fun result i => do
          let operand ← opnds i
          int? (operation result.toInt operand.toInt))
        result
  | none =>
      some result

/-- `read(clnt_sockfd, &opnd_cnt, 1)` into an `int` that is zero. -/
def readOpndCnt : ReadResult → Int
  | .data (byte :: _) => byte.toNat
  | _ => 0

/-- `read(clnt_sockfd, &opinfo[recv_len], BUF_SIZE-1)` and the addition. -/
def readOpinfo
    (opinfo : Buffer bufSize)
    (recvLen : Int) :
    ReadResult → Option (Buffer bufSize × Int)
  | .data bytes =>
      if 0 ≤ recvLen then
        (opinfo.store? recvLen.toNat bytes).map fun opinfo =>
          (opinfo, recvLen + bytes.length)
      else
        none
  | .endOfFile =>
      some (opinfo, recvLen)
  | .error =>
      if Fits (recvLen - 1) then
        some (opinfo, recvLen - 1)
      else
        none

/-- How far the receive loop gets with the results of some reads. -/
inductive Receive where
  /-- The loop calls `read` again. -/
  | waiting (opinfo : Buffer bufSize) (recvLen : Int)
  | fault
  | received (opinfo : Buffer bufSize) (recvLen : Int)
  deriving Repr, DecidableEq

/-- `while(recv_len < bound)`. -/
def receive (bound : Int) :
    Buffer bufSize → Int → List ReadResult → Receive
  | opinfo, recvLen, [] =>
      if recvLen < bound then
        .waiting opinfo recvLen
      else
        .received opinfo recvLen
  | opinfo, recvLen, result :: rest =>
      if recvLen < bound then
        match readOpinfo opinfo recvLen result with
        | none => .fault
        | some (opinfo, recvLen) => receive bound opinfo recvLen rest
      else
        .received opinfo recvLen

/-- `opinfo[i]`. -/
def charAt (opinfo : Buffer bufSize) (i : Int) : Option UInt8 :=
  if 0 ≤ i then
    opinfo.bytes[i.toNat]?
  else
    none

/-- `((int *)opinfo)[i]`. -/
def opndAt (opinfo : Buffer bufSize) (i : Nat) : Option Int32 :=
  (opinfo.load? (i * opsz) opsz).map intOfBytes

/-- How far `op_server` gets with one client. -/
inductive Served where
  | waiting
  | fault
  /-- The reply, with the length and the operator it was computed from. -/
  | replied
      (opinfo : Buffer bufSize)
      (recvLen : Int)
      (op : UInt8)
      (reply : List UInt8)
  deriving Repr, DecidableEq

/-- The calculation and the reply after the receive loop. -/
def reply
    (opndCnt : Int)
    (opinfo : Buffer bufSize)
    (recvLen : Int) :
    Served :=
  match charAt opinfo (recvLen - 1) with
  | none => .fault
  | some op =>
      match calculate opndCnt (opndAt opinfo) op with
      | none => .fault
      | some result => .replied opinfo recvLen op (intBytes result)

/-- One iteration of the accept loop of `op_server`. -/
def opServer (opinfo : Buffer bufSize) : List ReadResult → Served
  | [] =>
      .waiting
  | count :: results =>
      let opndCnt := readOpndCnt count
      match receive (opndCnt * opsz + 1) opinfo 0 results with
      | .waiting _ _ => .waiting
      | .fault => .fault
      | .received opinfo recvLen => reply opndCnt opinfo recvLen

end CsPrimer.Calculator
