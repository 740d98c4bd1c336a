import CsPrimer.Lock.LockFcntl

namespace CsPrimer.Lock

open Library

/-!
# The sequence numbers have no gap

The process that has the lock reads the file as it was left, and writes a
number that ends with a newline.  What an old, longer number leaves behind it
is never read, so the file always starts with the next number to print.
-/

section Text

variable
  {contents : List UInt8}
  {buf : Buffer maxSize}
  {number : Int}

/-- The text a process writes. -/
def line (number : Int) : List UInt8 :=
  decimal number ++ [newline]

theorem nul_not_mem_line (number : Int) : 0 ∉ line number := by
  rw [line, List.mem_append, not_or]
  exact ⟨nul_not_mem_decimal number, by decide⟩

theorem length_line_le
    (lower : -2 ^ 63 ≤ number)
    (upper : number < 2 ^ 63) :
    (line number).length ≤ 21 := by
  rw [line, List.length_append]
  exact Nat.succ_le_succ (length_decimal_long lower upper)

/-- A line in front of anything makes it start with its number. -/
theorem leadingNumber_line
    (stale : List UInt8)
    (lower : -2 ^ 63 ≤ number)
    (upper : number < 2 ^ 63) :
    LeadingNumber (line number ++ stale) number := by
  have isText : ∀ char ∈ line number, decide (char ≠ 0) = true := by
    rintro char member
    refine decide_eq_true ?_
    rintro rfl
    exact nul_not_mem_line number member
  rw [LeadingNumber, List.takeWhile_append_of_pos isText, line,
    List.append_assoc]
  exact scanLong?_decimal_append lower upper (by simp; decide)

/-- A file that fits is read as a whole. -/
theorem read_whole (short : contents.length < maxSize) :
    (contents.drop 0).take maxSize = contents :=
  List.take_of_length_le (Nat.le_of_lt short)

/-- What has been read is the string in `buf` up to the first NUL. -/
theorem scan_spec
    {rest : List UInt8}
    (isBuf : buf.bytes = contents ++ 0 :: rest)
    (leading : LeadingNumber contents number)
    (seqno : Int) :
    ∃ text,
      string? buf.bytes = some text ∧ sscanf text seqno = number := by
  refine ⟨_, isBuf ▸ string?_terminated contents rest, ?_⟩
  rw [sscanf, leading]
  rfl

/-- `snprintf` leaves the line in `buf`. -/
theorem snprintf_spec
    (buf : Buffer maxSize)
    (lower : -2 ^ 63 ≤ number)
    (upper : number < 2 ^ 63) :
    ∃ next,
      buf.snprintf? 0 maxSize (decimal number ++ [newline]) = some next ∧
        string? next.bytes = some (line number) := by
  have length := length_line_le lower upper
  have untruncated : (line number).take (maxSize - 1) = line number :=
    List.take_of_length_le (Nat.le_trans length (by decide))
  obtain ⟨next, stored, rest, isBytes⟩ :=
    buf.store?_holds 0 (line number ++ [0])
      (by rw [List.length_append, List.length_singleton]
          exact Nat.le_trans (by omega) (by decide : 22 ≤ maxSize))
  refine ⟨next, ?_, ?_⟩
  · rw [Buffer.snprintf?, if_neg (by decide)]
    exact untruncated.symm ▸ stored
  · rw [← isBytes, List.take_zero, List.nil_append, List.append_assoc]
    exact string?_append_nul (nul_not_mem_line number)

/-- A write at the start of the file keeps only what stands behind it. -/
theorem writeAt_zero (bytes : List UInt8) :
    writeAt contents 0 bytes = bytes ++ contents.drop bytes.length := by
  simp [writeAt]

end Text

/-- The positions between `my_lock` and `my_unlock`. -/
def Position.inside : Position → Bool
  | .locking | .returned => false
  | _ => true

/-- The number of lines of this turn that have been printed. -/
def Position.printed : Position → Nat
  | .incrementing | .formatting | .rewindingToWrite | .writing
  | .unlocking => 1
  | _ => 0

/-- What the process with the lock knows, when `number` is to be printed. -/
def Main.Ok
    (contents : List UInt8)
    (number : Int)
    (main : Main) : Prop :=
  match main.position with
  | .locking | .returned => True
  | .rewindingToRead => LeadingNumber contents number
  | .reading => LeadingNumber contents number ∧ main.offset = 0
  | .terminating n =>
      LeadingNumber contents number ∧ n = contents.length ∧
        main.buf.Holds contents
  | .scanning =>
      LeadingNumber contents number ∧
        ∃ rest, main.buf.bytes = contents ++ 0 :: rest
  | .printing | .incrementing =>
      LeadingNumber contents number ∧ main.seqno = number
  | .formatting =>
      main.seqno = number + 1 ∧ -2 ^ 63 ≤ number + 1 ∧
        number + 1 < 2 ^ 63
  | .rewindingToWrite =>
      string? main.buf.bytes = some (line (number + 1)) ∧
        -2 ^ 63 ≤ number + 1 ∧ number + 1 < 2 ^ 63
  | .writing =>
      string? main.buf.bytes = some (line (number + 1)) ∧
        main.offset = 0 ∧ -2 ^ 63 ≤ number + 1 ∧ number + 1 < 2 ^ 63
  | .unlocking => LeadingNumber contents (number + 1)

variable {Process : Type} [Fintype Process]

/-- The number of lines the process with the lock has printed in this turn. -/
def State.printed (state : State Process) : Nat :=
  match state.holder with
  | none => 0
  | some pid => (state.mains pid).position.printed

/-- The invariant of all runs. -/
structure Invariant
    (first : Int)
    (trace : List (Event Process))
    (state : State Process) : Prop where
  exclusive :
    ∀ pid, (state.mains pid).position.inside = true ↔
      state.holder = some pid
  short :
    state.contents.length < maxSize
  counted :
    trace.length = state.completed + state.printed
  numbered :
    seqnos trace =
      (List.range trace.length).map fun turn => first + (turn : Nat)
  free :
    state.holder = none →
      LeadingNumber state.contents (first + state.completed)
  held :
    ∀ pid, state.holder = some pid →
      (state.mains pid).Ok state.contents (first + state.completed)

/-- A process is outside the critical section of the one that has the lock. -/
theorem Invariant.outside
    {first : Int}
    {trace : List (Event Process)}
    {state : State Process}
    {pid other : Process}
    (invariant : Invariant first trace state)
    (isHolder : state.holder = some pid)
    (different : other ≠ pid) :
    (state.mains other).position.inside = false := by
  rw [Bool.eq_false_iff]
  intro isInside
  have isOther := (invariant.exclusive other).mp isInside
  rw [isHolder, Option.some.injEq] at isOther
  exact different isOther.symm

variable [DecidableEq Process]

/-- At first no turn is completed. -/
theorem completed_initial
    (contents : List UInt8)
    (stack : Process → Int × Buffer maxSize) :
    (system contents stack).initial.completed = 0 :=
  total_eq_zero_iff.mpr fun _ => rfl

/-- The steps of one process do not complete the turns of another. -/
theorem completed_update
    (state : State Process)
    (pid : Process)
    (next : Main) :
    total Main.i (Function.update state.mains pid next) +
        (state.mains pid).i =
      state.completed + next.i :=
  total_update Main.i state.mains pid next

namespace Invariant

variable
  {first : Int}
  {trace : List (Event Process)}
  {state : State Process}
  {pid : Process}

theorem initial
    {contents : List UInt8}
    {stack : Process → Int × Buffer maxSize}
    (leading : LeadingNumber contents first)
    (short : contents.length < maxSize) :
    Invariant first [] (system contents stack).initial where
  exclusive _ := by
    simp [system, Main.initial, Position.inside]
  short :=
    short
  counted := by
    rw [completed_initial]
    rfl
  numbered :=
    rfl
  free _ := by
    rw [completed_initial, Nat.cast_zero, Int.add_zero]
    exact leading
  held _ isHolder := by
    simp [system] at isHolder

/-- A step inside the critical section is one of its process alone. -/
theorem inside
    {events : List (Event Process)}
    {contents : List UInt8}
    {next : Main}
    (invariant : Invariant first trace state)
    (isHolder : state.holder = some pid)
    (stays : next.position.inside = true)
    (sameTurn : next.i = (state.mains pid).i)
    (short : contents.length < maxSize)
    (ok : next.Ok contents (first + state.completed))
    (printed :
      next.position.printed =
        (state.mains pid).position.printed + events.length)
    (numbered :
      seqnos (trace ++ events) =
        (List.range (trace ++ events).length).map
          fun turn => first + (turn : Nat)) :
    Invariant first (trace ++ events)
      { state.withMain pid next with contents := contents } := by
  have completed :
      total Main.i (Function.update state.mains pid next) =
        state.completed := by
    have update := completed_update state pid next
    omega
  constructor
  · intro other
    by_cases isPid : other = pid
    · subst isPid
      simp [State.withMain, stays, isHolder]
    · have isOutside := invariant.outside isHolder isPid
      simp [State.withMain, isPid, isOutside, isHolder, Ne.symm isPid]
  · exact short
  · have counted := invariant.counted
    simp only [State.printed, isHolder] at counted
    simp [State.completed, State.printed, State.withMain, isHolder,
      completed, counted, printed, Nat.add_assoc]
  · exact numbered
  · intro isFree
    simp [State.withMain, isHolder] at isFree
  · intro other isOther
    obtain rfl : other = pid := by
      simpa [State.withMain, isHolder, eq_comm] using isOther
    simpa [State.withMain, State.completed, completed] using ok

/-- The lock is granted in the state the last turn has left. -/
theorem lock
    (invariant : Invariant first trace state)
    (isLocking : (state.mains pid).position = .locking)
    (isFree : state.holder = none) :
    Invariant first trace
      { state.withMain pid
          { state.mains pid with position := .rewindingToRead } with
        holder := some pid } := by
  have completed :
      total Main.i
          (Function.update state.mains pid
            { state.mains pid with position := .rewindingToRead }) =
        state.completed := by
    have update :=
      completed_update state pid
        { state.mains pid with position := .rewindingToRead }
    simpa using update
  constructor
  · intro other
    by_cases isPid : other = pid
    · subst isPid
      simp [State.withMain, Position.inside]
    · have isOutside : (state.mains other).position.inside = false := by
        rw [Bool.eq_false_iff]
        intro isInside
        have isHolder := (invariant.exclusive other).mp isInside
        rw [isFree] at isHolder
        cases isHolder
      simp [State.withMain, isPid, isOutside, Ne.symm isPid]
  · exact invariant.short
  · have counted := invariant.counted
    simp only [State.printed, isFree] at counted
    simp [State.completed, State.printed, State.withMain, completed,
      counted, Position.printed]
  · exact invariant.numbered
  · intro isNone
    simp at isNone
  · intro other isOther
    obtain rfl : pid = other := by simpa using isOther
    have leading := invariant.free isFree
    simpa [State.withMain, State.completed, completed, Main.Ok] using leading

/-- Releasing the lock completes a turn. -/
theorem unlock
    {next : Main}
    (invariant : Invariant first trace state)
    (isUnlocking : (state.mains pid).position = .unlocking)
    (isHolder : state.holder = some pid)
    (leaves : next.position.inside = false)
    (nextTurn : next.i = (state.mains pid).i + 1) :
    Invariant first trace
      { state.withMain pid next with holder := none } := by
  have completed :
      total Main.i (Function.update state.mains pid next) =
        state.completed + 1 := by
    have update := completed_update state pid next
    omega
  constructor
  · intro other
    by_cases isPid : other = pid
    · subst isPid
      simp [State.withMain, leaves]
    · have isOutside := invariant.outside isHolder isPid
      simp [State.withMain, isPid, isOutside]
  · exact invariant.short
  · have counted := invariant.counted
    simp only [State.printed, isHolder, isUnlocking, Position.printed]
      at counted
    simp [State.completed, State.printed, State.withMain, completed,
      counted]
  · exact invariant.numbered
  · intro _
    have ok := invariant.held pid isHolder
    simp only [Main.Ok, isUnlocking] at ok
    simpa [State.withMain, State.completed, completed, Int.add_assoc]
      using ok
  · intro other isOther
    simp at isOther

/-- A process takes a step that keeps the invariant. -/
def Advances
    (first : Int)
    (trace : List (Event Process))
    (state : State Process)
    (pid : Process) : Prop :=
  ∃ next events,
    step? state pid = some (next, events) ∧
      Invariant first (trace ++ events) next

/-- A step inside that prints nothing and leaves the file as it is. -/
theorem stay
    (invariant : Invariant first trace state)
    (isHolder : state.holder = some pid)
    (next : Main)
    (taken : step? state pid = some (state.withMain pid next, []))
    (stays : next.position.inside = true)
    (sameTurn : next.i = (state.mains pid).i)
    (ok : next.Ok state.contents (first + state.completed))
    (samePrinted :
      next.position.printed = (state.mains pid).position.printed) :
    Advances first trace state pid := by
  refine ⟨_, [], taken, ?_⟩
  apply invariant.inside isHolder stays sameTurn invariant.short ok
  · exact samePrinted
  · simpa using invariant.numbered

theorem rewindToRead_step
    (invariant : Invariant first trace state)
    (isHolder : state.holder = some pid)
    (isPosition : (state.mains pid).position = .rewindingToRead) :
    Advances first trace state pid := by
  have leading := invariant.held pid isHolder
  simp only [Main.Ok, isPosition] at leading
  apply invariant.stay isHolder
    { state.mains pid with position := .reading, offset := 0 }
    ?_ rfl rfl ⟨leading, rfl⟩
  · rw [isPosition]
    rfl
  · simp only [step?, isPosition]

theorem read_step
    (invariant : Invariant first trace state)
    (isHolder : state.holder = some pid)
    (isPosition : (state.mains pid).position = .reading) :
    Advances first trace state pid := by
  have ok := invariant.held pid isHolder
  simp only [Main.Ok, isPosition] at ok
  obtain ⟨leading, atStart⟩ := ok
  have short := invariant.short
  obtain ⟨buf, stored, holds⟩ :=
    (state.mains pid).buf.store?_holds 0 state.contents
      (by rw [Nat.zero_add]; exact Nat.le_of_lt short)
  apply invariant.stay isHolder
    { state.mains pid with
      position := .terminating state.contents.length
      buf := buf
      offset := 0 + state.contents.length }
    ?_ rfl rfl ⟨leading, rfl, by simpa using holds⟩
  · rw [isPosition]
    rfl
  · simp only [step?, isPosition, atStart, read_whole short, stored,
      Option.map_some]

theorem terminate_step
    {n : Nat}
    (invariant : Invariant first trace state)
    (isHolder : state.holder = some pid)
    (isPosition : (state.mains pid).position = .terminating n) :
    Advances first trace state pid := by
  have ok := invariant.held pid isHolder
  simp only [Main.Ok, isPosition] at ok
  obtain ⟨leading, rfl, holds⟩ := ok
  obtain ⟨buf, stored, rest, isBytes⟩ :=
    holds.store rfl [0] (Nat.succ_le_of_lt invariant.short)
  apply invariant.stay isHolder
    { state.mains pid with position := .scanning, buf := buf }
    ?_ rfl rfl ⟨leading, rest, by simpa using isBytes.symm⟩
  · rw [isPosition]
    rfl
  · simp only [step?, isPosition, stored, Option.map_some]

theorem scan_step
    (invariant : Invariant first trace state)
    (isHolder : state.holder = some pid)
    (isPosition : (state.mains pid).position = .scanning) :
    Advances first trace state pid := by
  have ok := invariant.held pid isHolder
  simp only [Main.Ok, isPosition] at ok
  obtain ⟨leading, rest, isBytes⟩ := ok
  obtain ⟨text, isText, scanned⟩ :=
    scan_spec isBytes leading (state.mains pid).seqno
  apply invariant.stay isHolder
    { state.mains pid with
      position := .printing
      seqno := sscanf text (state.mains pid).seqno }
    ?_ rfl rfl ⟨leading, scanned⟩
  · rw [isPosition]
    rfl
  · simp only [step?, isPosition, isText, Option.map_some]

/-- The number printed is the next one of the run. -/
theorem print_step
    (invariant : Invariant first trace state)
    (isHolder : state.holder = some pid)
    (isPosition : (state.mains pid).position = .printing) :
    Advances first trace state pid := by
  have ok := invariant.held pid isHolder
  simp only [Main.Ok, isPosition] at ok
  obtain ⟨leading, isSeqno⟩ := ok
  have taken :
      step? state pid =
        some (state.withMain pid
            { state.mains pid with position := .incrementing },
          [.printed pid (state.mains pid).seqno]) := by
    simp only [step?, isPosition]
  refine ⟨_, _, taken,
    invariant.inside isHolder rfl rfl invariant.short
      ⟨leading, isSeqno⟩ ?_ ?_⟩
  · rw [isPosition]
    rfl
  · have counted := invariant.counted
    simp only [State.printed, isHolder, isPosition, Position.printed]
      at counted
    have numbered := invariant.numbered
    rw [List.length_append, List.length_singleton, List.range_succ,
      List.map_append, ← numbered]
    simp [seqnos, isSeqno, counted]

theorem increment_step
    (invariant : Invariant first trace state)
    (isHolder : state.holder = some pid)
    (isPosition : (state.mains pid).position = .incrementing)
    (fits : (state.mains pid).seqno + 1 < 2 ^ 63) :
    Advances first trace state pid := by
  have ok := invariant.held pid isHolder
  simp only [Main.Ok, isPosition] at ok
  obtain ⟨leading, isSeqno⟩ := ok
  have bounds := long_of_scanLong? leading
  apply invariant.stay isHolder
    { state.mains pid with
      position := .formatting
      seqno := (state.mains pid).seqno + 1 }
    ?_ rfl rfl ⟨by rw [isSeqno], by omega, by omega⟩
  · rw [isPosition]
    rfl
  · simp only [step?, isPosition, if_pos fits]

theorem format_step
    (invariant : Invariant first trace state)
    (isHolder : state.holder = some pid)
    (isPosition : (state.mains pid).position = .formatting) :
    Advances first trace state pid := by
  have ok := invariant.held pid isHolder
  simp only [Main.Ok, isPosition] at ok
  obtain ⟨isSeqno, lower, upper⟩ := ok
  rw [← isSeqno] at lower upper
  obtain ⟨buf, stored, isText⟩ :=
    snprintf_spec (state.mains pid).buf lower upper
  rw [isSeqno] at lower upper isText
  apply invariant.stay isHolder
    { state.mains pid with position := .rewindingToWrite, buf := buf }
    ?_ rfl rfl ⟨isText, lower, upper⟩
  · rw [isPosition]
    rfl
  · simp only [step?, isPosition, stored, Option.map_some]

theorem rewindToWrite_step
    (invariant : Invariant first trace state)
    (isHolder : state.holder = some pid)
    (isPosition : (state.mains pid).position = .rewindingToWrite) :
    Advances first trace state pid := by
  have ok := invariant.held pid isHolder
  simp only [Main.Ok, isPosition] at ok
  obtain ⟨isText, lower, upper⟩ := ok
  apply invariant.stay isHolder
    { state.mains pid with position := .writing, offset := 0 }
    ?_ rfl rfl ⟨isText, rfl, lower, upper⟩
  · rw [isPosition]
    rfl
  · simp only [step?, isPosition]

/-- What is written over the number is the next one. -/
theorem write_step
    (invariant : Invariant first trace state)
    (isHolder : state.holder = some pid)
    (isPosition : (state.mains pid).position = .writing) :
    Advances first trace state pid := by
  have ok := invariant.held pid isHolder
  simp only [Main.Ok, isPosition] at ok
  obtain ⟨isText, atStart, lower, upper⟩ := ok
  have length := length_line_le lower upper
  have taken :
      step? state pid =
        some ({ state.withMain pid
                  { state.mains pid with
                    position := .unlocking
                    offset :=
                      0 + (line (first + state.completed + 1)).length } with
                contents :=
                  writeAt state.contents 0
                    (line (first + state.completed + 1)) }, []) := by
    simp only [step?, isPosition, isText, atStart, Option.map_some]
  refine ⟨_, [], taken,
    invariant.inside isHolder rfl rfl ?_ ?_ ?_ ?_⟩
  · rw [writeAt_zero, List.length_append, List.length_drop]
    have isShort : state.contents.length < 256 := invariant.short
    change _ < 256
    omega
  · simp only [Main.Ok, writeAt_zero]
    exact leadingNumber_line _ lower upper
  · rw [isPosition]
    rfl
  · simpa using invariant.numbered

theorem unlock_step
    (invariant : Invariant first trace state)
    (isHolder : state.holder = some pid)
    (isPosition : (state.mains pid).position = .unlocking) :
    Advances first trace state pid := by
  have taken :
      step? state pid =
        some ({ state.withMain pid
                  { state.mains pid with
                    position :=
                      if (state.mains pid).i + 1 < turns then .locking
                      else .returned
                    i := (state.mains pid).i + 1 } with
                holder := none }, []) := by
    simp only [step?, isPosition, isHolder, if_true]
  refine ⟨_, [], taken, ?_⟩
  rw [List.append_nil]
  apply invariant.unlock isPosition isHolder _ rfl
  split <;> rfl

/-- Inside the section only a number that leaves `long` stops a process. -/
theorem critical_step
    (invariant : Invariant first trace state)
    (isHolder : state.holder = some pid)
    (fits :
      (state.mains pid).position = .incrementing →
        (state.mains pid).seqno + 1 < 2 ^ 63) :
    Advances first trace state pid := by
  have isInside := (invariant.exclusive pid).mpr isHolder
  cases isPosition : (state.mains pid).position with
  | locking | returned =>
      simp [isPosition, Position.inside] at isInside
  | rewindingToRead =>
      exact invariant.rewindToRead_step isHolder isPosition
  | reading =>
      exact invariant.read_step isHolder isPosition
  | terminating n =>
      exact invariant.terminate_step isHolder isPosition
  | scanning =>
      exact invariant.scan_step isHolder isPosition
  | printing =>
      exact invariant.print_step isHolder isPosition
  | incrementing =>
      exact invariant.increment_step isHolder isPosition (fits isPosition)
  | formatting =>
      exact invariant.format_step isHolder isPosition
  | rewindingToWrite =>
      exact invariant.rewindToWrite_step isHolder isPosition
  | writing =>
      exact invariant.write_step isHolder isPosition
  | unlocking =>
      exact invariant.unlock_step isHolder isPosition

/-- Every step keeps the invariant. -/
theorem preserved
    {next : State Process}
    {events : List (Event Process)}
    (invariant : Invariant first trace state)
    (taken : step? state pid = some (next, events)) :
    Invariant first (trace ++ events) next := by
  by_cases isInside : (state.mains pid).position.inside = true
  · have isHolder := (invariant.exclusive pid).mp isInside
    obtain ⟨after, later, isAfter, kept⟩ :=
      invariant.critical_step isHolder fun isIncrementing => by
        by_contra overflows
        simp only [step?, isIncrementing, if_neg overflows, reduceCtorEq]
          at taken
    rw [taken] at isAfter
    obtain ⟨rfl, rfl⟩ : next = after ∧ events = later := by
      simpa using isAfter
    exact kept
  · cases isPosition : (state.mains pid).position <;>
      simp only [isPosition, Position.inside, not_true_eq_false] at isInside
    case locking =>
      cases isFree : state.holder with
      | some other =>
          simp [step?, isPosition, isFree] at taken
      | none =>
          obtain ⟨rfl, rfl⟩ :
              { state.withMain pid
                  { state.mains pid with position := .rewindingToRead } with
                holder := some pid } = next ∧ [] = events := by
            simpa [step?, isPosition, isFree] using taken
          simpa using invariant.lock isPosition isFree
    case returned =>
      simp [step?, isPosition] at taken

/-- It holds in every run. -/
theorem of_reaches
    {contents : List UInt8}
    {stack : Process → Int × Buffer maxSize}
    (leading : LeadingNumber contents first)
    (short : contents.length < maxSize)
    (reaches : (system contents stack).Reaches trace state) :
    Invariant first trace state :=
  reaches.invariant (initial leading short) preserved

end Invariant

/-- As long as the numbers fit, a process only waits for the lock. -/
theorem enabled_of_reaches
    {contents : List UInt8}
    {first : Int}
    {stack : Process → Int × Buffer maxSize}
    {trace : List (Event Process)}
    {state : State Process}
    {pid : Process}
    (leading : LeadingNumber contents first)
    (short : contents.length < maxSize)
    (reaches : (system contents stack).Reaches trace state)
    (fits : first + state.completed + 1 < 2 ^ 63)
    (running : (state.mains pid).position ≠ .returned)
    (notWaiting :
      (state.mains pid).position = .locking → state.holder = none) :
    (system contents stack).Enabled state pid := by
  have invariant := Invariant.of_reaches leading short reaches
  change (step? state pid).isSome
  by_cases isInside : (state.mains pid).position.inside = true
  · have isHolder := (invariant.exclusive pid).mp isInside
    have ok := invariant.held pid isHolder
    obtain ⟨next, events, taken, -⟩ :=
      invariant.critical_step isHolder fun isIncrementing => by
        simp only [Main.Ok, isIncrementing] at ok
        rw [ok.2]
        exact fits
    rw [taken]
    rfl
  · cases isPosition : (state.mains pid).position <;>
      simp only [isPosition, Position.inside, not_true_eq_false] at isInside
    case locking =>
      simp [step?, isPosition, notWaiting isPosition]
    case returned =>
      exact absurd isPosition running

/--
Any number of processes on one file of fewer than `MAXSIZE` bytes that starts
with a number: the printed numbers follow one another from that number on, and
whenever the lock is free the file starts with the number that comes next.
-/
theorem seqnos_consecutive
    (contents : List UInt8)
    (first : Int)
    (stack : Process → Int × Buffer maxSize)
    (leading : LeadingNumber contents first)
    (short : contents.length < maxSize)
    (trace : List (Event Process))
    (state : State Process)
    (reaches : (system contents stack).Reaches trace state) :
    seqnos trace =
        (List.range trace.length).map (fun turn => first + (turn : Nat)) ∧
      (state.holder = none →
        LeadingNumber state.contents (first + state.completed)) := by
  have invariant := Invariant.of_reaches leading short reaches
  exact ⟨invariant.numbered, invariant.free⟩

/-- Two processes take turns. -/
def takingTurns
    {Process : Type}
    (first second : Process) : List Process :=
  List.replicate 11 first ++ List.replicate 11 second ++
    List.replicate 11 first

/-- Two processes count up from -10 in a file that gets shorter numbers. -/
theorem seqnos_consecutive_negative :
    ∃ (trace : List (Event (Fin 2))) (state : State (Fin 2)),
      state.contents = ascii "-7\n\n" ∧ trace.length = 3 ∧
        seqnos trace =
          (List.range 3).map (fun turn => (-10 : Int) + (turn : Nat)) ∧
        LeadingNumber state.contents (-10 + state.completed) := by
  obtain ⟨trace, state, reaches, observed⟩ :=
    System.Reaches.exists_of_run?
      (by decide +kernel :
        ((system (ascii "-10\n")
            fun _ => (0, .filled maxSize 255)).run?
          (system (ascii "-10\n")
            fun _ => (0, .filled maxSize 255)).initial
          (takingTurns (0 : Fin 2) 1)).any
          (fun outcome => decide (
            outcome.1.contents = ascii "-7\n\n" ∧
              outcome.2.length = 3 ∧ outcome.1.holder = none)) = true)
  obtain ⟨isContents, isTrace, isFree⟩ := of_decide_eq_true observed
  obtain ⟨numbered, leading⟩ :=
    seqnos_consecutive (ascii "-10\n") (-10)
      (fun _ => (0, .filled maxSize 255)) (by decide +kernel)
      (by decide +kernel) trace state reaches
  exact ⟨trace, state, isContents, isTrace, isTrace ▸ numbered,
    leading isFree⟩

end CsPrimer.Lock
