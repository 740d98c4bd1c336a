import CsPrimer.Library.CString
import CsPrimer.Library.ThreadPool
import CsPrimer.Library.TransitionSystem

namespace CsPrimer.Lock

open Library

/-!
# `lockfcntl.c`: a sequence number in a locked file

Any number of processes take the number in the file, print it and write the
next one over it, each twenty times.  Every process has an offset of its own;
a write in place keeps the bytes behind it.  The calls on the file succeed.  A
number that leaves `long`, an access outside `buf` and a string without an end
have no successor.
-/

/-- `MAXSIZE`. -/
abbrev maxSize : Nat := 256

/-- The number of turns of the loop in `main`. -/
abbrev turns : Nat := 20

/-- Where a process is in the loop. -/
inductive Position where
  | locking
  | rewindingToRead
  | reading
  | terminating (n : Nat)
  | scanning
  | printing
  | incrementing
  | formatting
  | rewindingToWrite
  | writing
  | unlocking
  | returned
  deriving Repr, DecidableEq

/-- The variables of `main` and the offset of `fd`. -/
structure Main where
  position : Position
  i : Nat
  seqno : Int
  buf : Buffer maxSize
  offset : Nat
  deriving Repr, DecidableEq

/-- `main` in front of its loop, with whatever is on its stack. -/
def Main.initial (seqno : Int) (buf : Buffer maxSize) : Main where
  position := .locking
  i := 0
  seqno := seqno
  buf := buf
  offset := 0

/-- The value `seqno` has behind `sscanf(buf, "%ld\n", &seqno)`. -/
def sscanf (text : List UInt8) (seqno : Int) : Int :=
  (scanLong? text).getD seqno

/-- `write` at an offset: a gap is filled with NULs and what follows stays. -/
def writeAt
    (contents : List UInt8)
    (offset : Nat)
    (bytes : List UInt8) : List UInt8 :=
  contents.take offset ++ List.replicate (offset - contents.length) 0 ++
    bytes ++ contents.drop (offset + bytes.length)

/-- The file, the process that has the lock, and the processes. -/
structure State (Process : Type) where
  contents : List UInt8
  holder : Option Process
  mains : Process → Main

/-- The line a process prints. -/
inductive Event (Process : Type) where
  | printed (pid : Process) (seqno : Int)
  deriving Repr, DecidableEq

section Steps

variable {Process : Type} [DecidableEq Process]

/-- A step that changes nothing but the variables of one process. -/
def State.withMain
    (state : State Process)
    (pid : Process)
    (next : Main) : State Process :=
  { state with mains := Function.update state.mains pid next }

/-- The next step of a process. -/
def step?
    (state : State Process)
    (pid : Process) :
    Option (State Process × List (Event Process)) :=
  let main := state.mains pid
  match main.position with
  | .locking =>
      match state.holder with
      | some _ =>
          none
      | none =>
          some ({ state.withMain pid
                    { main with position := .rewindingToRead } with
                  holder := some pid }, [])
  | .rewindingToRead =>
      some (state.withMain pid
        { main with position := .reading, offset := 0 }, [])
  | .reading =>
      let bytes := (state.contents.drop main.offset).take maxSize
      (main.buf.store? 0 bytes).map fun buf =>
        (state.withMain pid
          { main with
            position := .terminating bytes.length
            buf := buf
            offset := main.offset + bytes.length }, [])
  | .terminating n =>
      (main.buf.store? n [0]).map fun buf =>
        (state.withMain pid { main with position := .scanning, buf := buf }, [])
  | .scanning =>
      (string? main.buf.bytes).map fun text =>
        (state.withMain pid
          { main with
            position := .printing
            seqno := sscanf text main.seqno }, [])
  | .printing =>
      some (state.withMain pid { main with position := .incrementing },
        [.printed pid main.seqno])
  | .incrementing =>
      if main.seqno + 1 < 2 ^ 63 then
        some (state.withMain pid
          { main with
            position := .formatting
            seqno := main.seqno + 1 }, [])
      else
        none
  | .formatting =>
      (main.buf.snprintf? 0 maxSize (decimal main.seqno ++ [newline])).map
        fun buf =>
          (state.withMain pid
            { main with position := .rewindingToWrite, buf := buf }, [])
  | .rewindingToWrite =>
      some (state.withMain pid
        { main with position := .writing, offset := 0 }, [])
  | .writing =>
      (string? main.buf.bytes).map fun text =>
        ({ state.withMain pid
             { main with
               position := .unlocking
               offset := main.offset + text.length } with
           contents := writeAt state.contents main.offset text }, [])
  | .unlocking =>
      some ({ state.withMain pid
                { main with
                  position :=
                    if main.i + 1 < turns then .locking else .returned
                  i := main.i + 1 } with
              holder :=
                if state.holder = some pid then none else state.holder }, [])
  | .returned =>
      none

/-- The interleavings of the processes; an action is the process it is of. -/
def system
    (contents : List UInt8)
    (stack : Process → Int × Buffer maxSize) :
    System (State Process) Process (Event Process) where
  initial :=
    { contents := contents
      holder := none
      mains := fun pid => Main.initial (stack pid).1 (stack pid).2 }
  step? :=
    step?

end Steps

/-- The numbers of the printed lines. -/
def seqnos {Process : Type} (trace : List (Event Process)) : List Int :=
  trace.map fun | .printed _ seqno => seqno

/-- The file starts with a number, as far as it is a string. -/
def LeadingNumber (contents : List UInt8) (number : Int) : Prop :=
  scanLong? (contents.takeWhile (· ≠ 0)) = some number
  deriving Decidable

/-- The number of completed turns of the loops. -/
def State.completed
    {Process : Type} [Fintype Process]
    (state : State Process) : Nat :=
  total Main.i state.mains

end CsPrimer.Lock
