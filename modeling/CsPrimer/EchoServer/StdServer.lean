import CsPrimer.Library.CString

namespace CsPrimer.EchoServer.Stdio

open Library

/-!
# `echo_stdserver.c`: an echo server on standard input and output

The loop asks whether the end of the stream has been seen before it reads, and
does not look at the result of `fgets`: the call that comes to the end at once
leaves `msg` as it was, and `msg` is echoed again.  `fgets` may store `BUFSIZ`
bytes in `msg`, which has `BUF_SIZE`.
-/

/-- `BUF_SIZE`, the size of `msg`. -/
abbrev bufSize : Nat := 1024

/-- `BUFSIZ` of the standard library, the size that `fgets` is given. -/
abbrev bufsiz : Nat := 8192

/--
`fgets` and `fputs`: what `msg` holds then, and what is written.  An access that
leaves `msg` has no outcome.
-/
def echoLine
    (msg : Buffer bufSize)
    (stream : List UInt8) : Option (Buffer bufSize × List UInt8) := do
  let stored := (fgets (bufsiz - 1) stream).1
  -- `fgets` returns `NULL` if it has read nothing, and leaves `msg` alone.
  let msg ←
    if stored = [] then
      some msg
    else
      msg.store? 0 (stored ++ [0])
  let text ← string? msg.bytes
  return (msg, text)

/--
The loop, when `feof(readfp)` is `eof`, on what is left of the stream.  Its
outcome is what is written back.
-/
def echoLoop
    (eof : Bool)
    (msg : Buffer bufSize)
    (stream : List UInt8) : Option (List UInt8) :=
  if eof then
    some []
  else do
    let (msg, text) ← echoLine msg stream
    let later ←
      echoLoop (fgetsEnds (bufsiz - 1) stream) msg
        (fgets (bufsiz - 1) stream).2
    return text ++ later
  termination_by if eof then 0 else stream.length + 1
  decreasing_by
    rename_i notEnd
    rw [if_neg notEnd]
    split
    · exact Nat.succ_pos _
    case isFalse goesOn =>
      exact Nat.succ_lt_succ (length_fgets_lt (eq_false_of_ne_true goesOn))

/-- What the server writes back; `msg` is on the stack and has any content. -/
def echoServer
    (msg : Buffer bufSize)
    (received : List UInt8) : Option (List UInt8) :=
  echoLoop false msg received

/-- Exactly what has been received is written back, by accesses inside `msg`. -/
def Echoes
    (msg : Buffer bufSize)
    (received : List UInt8) : Prop :=
  echoServer msg received = some received

/-- All lines fit in `msg` with their NUL. -/
def LinesFit (stream : List UInt8) : Prop :=
  ∀ line ∈ linesOf stream, line.length < bufSize
  deriving Decidable

/-- What is written back when the stream has been. -/
def lastEcho
    (msg : Buffer bufSize)
    (stream : List UInt8) : Option (List UInt8) :=
  match (linesOf stream).getLast? with
  | none => string? msg.bytes
  | some line => if line.getLast? = some newline then some line else some []

section Iterations

variable
  {msg : Buffer bufSize}
  {stream line : List UInt8}
  {later : List (List UInt8)}

theorem echoLoop_true : echoLoop true msg stream = some [] := by
  rw [echoLoop, if_pos rfl]

theorem echoLoop_false
    {next : Buffer bufSize}
    {text : List UInt8}
    (echoed : echoLine msg stream = some (next, text)) :
    echoLoop false msg stream =
      (echoLoop (fgetsEnds (bufsiz - 1) stream) next
        (fgets (bufsiz - 1) stream).2).map (text ++ ·) := by
  rw [echoLoop, if_neg Bool.false_ne_true, echoed, Option.map_eq_bind]
  rfl

theorem echoLoop_eq_none (undefinedLine : echoLine msg stream = none) :
    echoLoop false msg stream = none := by
  rw [echoLoop, if_neg Bool.false_ne_true, undefinedLine]
  rfl

/-- At the end of the stream `msg` is written as it is. -/
theorem echoLoop_nil : echoLoop false msg [] = string? msg.bytes := by
  have echoed :
      echoLine msg [] = (string? msg.bytes).map fun text => (msg, text) := by
    cases isText : string? msg.bytes <;>
      simp [echoLine, fgets, isText]
  cases isText : string? msg.bytes with
  | none =>
      rw [isText] at echoed
      exact echoLoop_eq_none echoed
  | some text =>
      have isEnd : fgetsEnds (bufsiz - 1) [] = true := rfl
      rw [isText] at echoed
      rw [echoLoop_false echoed, isEnd, echoLoop_true, Option.map_some,
        List.append_nil]

/-- A line that fits is written back, and `msg` holds it from then on. -/
theorem echoLine_fits
    (msg : Buffer bufSize)
    (isLines : linesOf stream = line :: later)
    (nulFree : 0 ∉ line)
    (fits : line.length < bufSize) :
    ∃ next,
      string? next.bytes = some line ∧
        echoLine msg stream = some (next, line) := by
  have small : bufSize < bufsiz - 1 := by
    decide
  obtain ⟨stored, -⟩ := fgets_of_linesOf (bufsiz - 1) isLines
  rw [List.take_of_length_le (by omega)] at stored
  have notEmpty : line ≠ [] :=
    ne_nil_of_mem_linesOf (isLines ▸ List.mem_cons_self)
  obtain ⟨next, isStored, isBytes⟩ :=
    msg.exists_store? 0 (line ++ [0])
      (by rw [List.length_append, List.length_singleton]; omega)
  have isText : string? next.bytes = some line := by
    rw [isBytes, List.take_zero, List.nil_append, List.append_assoc]
    exact string?_append_nul nulFree
  refine ⟨next, isText, ?_⟩
  simp only [echoLine, stored, if_neg notEmpty, isStored,
    Option.bind_eq_bind, Option.bind_some, isText]
  rfl

/-- A line that does not fit is stored beyond `msg`. -/
theorem echoLine_long
    (isLines : linesOf stream = line :: later)
    (long : bufSize ≤ line.length) :
    echoLine msg stream = none := by
  have small : bufSize < bufsiz - 1 := by
    decide
  obtain ⟨stored, -⟩ := fgets_of_linesOf (bufsiz - 1) isLines
  have length : bufSize ≤ (line.take (bufsiz - 1)).length := by
    rw [List.length_take]
    omega
  have notEmpty : line.take (bufsiz - 1) ≠ [] := by
    intro isEmpty
    rw [isEmpty] at length
    exact absurd length (by decide)
  have outside :
      msg.store? 0 (line.take (bufsiz - 1) ++ [0]) = none := by
    rw [Buffer.store?, dif_neg]
    rw [List.length_append, List.length_singleton]
    omega
  rw [echoLine, stored, if_neg notEmpty, outside]
  rfl

end Iterations

section Server

variable
  {msg : Buffer bufSize}
  {stream line : List UInt8}
  {later : List (List UInt8)}

/-- What comes last does not depend on a line before other lines. -/
theorem lastEcho_of_cons
    {rest : List UInt8}
    {next : Buffer bufSize}
    (msg : Buffer bufSize)
    (isLines : linesOf stream = line :: linesOf rest)
    (holdsLine : string? next.bytes = some line)
    (ends : line.getLast? = some newline) :
    lastEcho msg stream = lastEcho next rest := by
  unfold lastEcho
  rw [isLines]
  cases isRest : linesOf rest with
  | nil =>
      simp [ends, holdsLine]
  | cons second others =>
      rw [List.getLast?_cons_of_ne_nil (List.cons_ne_nil second others),
        List.getLast?_eq_getLast_of_ne_nil (List.cons_ne_nil second others)]

/--
Everything is written back and perhaps something else at the end, if the lines
fit.
-/
theorem echoLoop_eq
    (lines : List (List UInt8))
    (isLines : linesOf stream = lines)
    (nulFree : 0 ∉ stream) :
    echoLoop false msg stream =
      if ∀ line ∈ lines, line.length < bufSize then
        (lastEcho msg stream).map (stream ++ ·)
      else
        none := by
  induction lines generalizing stream msg with
  | nil =>
      obtain rfl := linesOf_eq_nil_iff.mp isLines
      rw [echoLoop_nil, if_pos (List.forall_mem_nil _)]
      simp [lastEcho, linesOf]
  | cons line later inductionHypothesis =>
      by_cases fits : line.length < bufSize
      · have small : line.length < bufsiz - 1 :=
          Nat.lt_trans fits (by decide)
        obtain ⟨stored, follows⟩ := fgets_of_linesOf (bufsiz - 1) isLines
        have isRest := follows (Nat.le_of_lt small)
        obtain ⟨isEnd, lastLine⟩ := fgetsEnds_of_linesOf isLines small
        have whole := fgets_append (bufsiz - 1) stream
        rw [List.take_of_length_le (Nat.le_of_lt small)] at stored
        rw [stored] at whole
        rw [← whole, List.mem_append, not_or] at nulFree
        obtain ⟨lineFree, restFree⟩ := nulFree
        obtain ⟨next, holdsLine, echoed⟩ :=
          echoLine_fits msg isLines lineFree fits
        rw [echoLoop_false echoed, isEnd]
        simp only [List.forall_mem_cons, fits, true_and]
        by_cases ends : line.getLast? = some newline
        · have sameLast :=
            lastEcho_of_cons msg (isRest.symm ▸ isLines) holdsLine ends
          rw [decide_eq_false (not_not_intro ends),
            inductionHypothesis isRest restFree, sameLast]
          split
          · rw [Option.map_map]
            congr 1
            funext last
            rw [Function.comp_apply, ← List.append_assoc, whole]
          · rfl
        · obtain rfl := lastLine ends
          rw [decide_eq_true ends, echoLoop_true,
            if_pos (List.forall_mem_nil _), lastEcho, isLines]
          rw [linesOf_eq_nil_iff.mp isRest] at whole
          simp only [List.getLast?_singleton, if_neg ends, Option.map_some,
            whole, List.append_nil]
      · rw [echoLoop_eq_none (echoLine_long isLines (Nat.le_of_not_lt fits)),
          if_neg]
        exact fun all => fits (all line List.mem_cons_self)

theorem getLast?_linesOf
    (isLast : (linesOf stream).getLast? = some line) :
    stream.getLast? = line.getLast? ∧ line ≠ [] := by
  have notEmpty := ne_nil_of_mem_linesOf (List.mem_of_getLast? isLast)
  obtain ⟨front, isLines⟩ := List.getLast?_eq_some_iff.mp isLast
  refine ⟨?_, notEmpty⟩
  rw [← flatten_linesOf stream, isLines, List.flatten_append,
    List.flatten_singleton, List.getLast?_append_of_ne_nil _ notEmpty]

/-- Nothing else comes at the end of a stream whose last line has no newline. -/
theorem lastEcho_eq_nil_iff :
    lastEcho msg stream = some [] ↔
      (stream = [] → string? msg.bytes = some []) ∧
        stream.getLast? ≠ some newline := by
  unfold lastEcho
  cases isLast : (linesOf stream).getLast? with
  | none =>
      obtain rfl :=
        linesOf_eq_nil_iff.mp (List.getLast?_eq_none_iff.mp isLast)
      simp
  | some line =>
      obtain ⟨sameEnd, notEmpty⟩ := getLast?_linesOf isLast
      have received : stream ≠ [] := by
        rintro rfl
        contradiction
      rw [sameEnd]
      by_cases ends : line.getLast? = some newline
      · simp [ends, notEmpty]
      · simp [ends, received]

/-- An empty string is in `msg` if its first byte is a NUL. -/
theorem string?_eq_nil_iff {memory : List UInt8} :
    string? memory = some [] ↔ memory.head? = some 0 := by
  cases memory with
  | nil =>
      simp [string?]
  | cons char memory =>
      by_cases isNul : char = 0 <;>
        simp [string?, isNul]

end Server

/--
The server echoes exactly the streams whose lines fit in `msg` and whose last
line has no newline, and the empty stream if `msg` happens to start with a NUL.
-/
theorem echoes_iff
    (msg : Buffer bufSize)
    (received : List UInt8)
    (nulFree : 0 ∉ received) :
    Echoes msg received ↔
      LinesFit received ∧
        (received = [] → msg.bytes.head? = some 0) ∧
        received.getLast? ≠ some newline := by
  rw [Echoes, echoServer, echoLoop_eq _ rfl nulFree, ← string?_eq_nil_iff,
    ← lastEcho_eq_nil_iff]
  split
  case isTrue fit =>
    rw [LinesFit, and_iff_right fit, Option.map_eq_some_iff]
    simp
  case isFalse notFit =>
    exact iff_of_false nofun fun both => notFit both.1

/-- A line without a newline is echoed, whatever the stack holds. -/
theorem echoes_iff_partialLine :
    Echoes (.filled bufSize 255) (ascii "hi") := by
  refine (echoes_iff (.filled bufSize 255) (ascii "hi") (by decide)).mpr ?_
  exact ⟨by decide, nofun, by decide⟩

/-- One whole line comes back twice. -/
theorem not_echoes_line :
    ¬ Echoes (.filled bufSize 0) (ascii "hi\n") := by
  intro echoes
  rw [Echoes, echoServer, echoLoop_eq _ rfl (by decide)] at echoes
  exact absurd echoes (by decide)

end CsPrimer.EchoServer.Stdio
