import CsPrimer.SvMsg.ReplyCorrect
import Mathlib.Data.List.TakeWhile

namespace CsPrimer.SvMsg

open Library

/-!
# The requests of `msgclient1q.c` and `msgclientnq.c`

Both clients send a number, a space and the line their user types: the first
its pid, the second the identifier of its private queue.
-/

/-- `fgets(ptr, MAXMSG-len, stdin)`; `ptr` is behind the number. -/
def typeLine
    (len : Nat)
    (stdin : List UInt8)
    (mtext : Mtext) : Option Mtext :=
  let line := (fgets (maxMsg - len - 1) stdin).1
  if line = [] then
    some mtext
  else
    mtext.store? len (line ++ [0])

/--
The request in `buf->mtext` and the text that is sent: a newline at the end
is left out.
-/
def composeRequest
    (id : Int)
    (stdin : List UInt8)
    (mtext : Mtext) :
    Option (Mtext × List UInt8) := do
  let mtext ← mtext.snprintf? 0 maxMsg (decimal id ++ [space])
  let text ← string? mtext.bytes
  let mtext ← typeLine text.length stdin mtext
  let text ← string? mtext.bytes
  let last ← text.getLast?
  some (mtext, if last = newline then text.dropLast else text)

/-- The pathname a user types: up to a newline, or up to a NUL. -/
def pathname (stdin : List UInt8) : List UInt8 :=
  stdin.takeWhile fun char => char ≠ 0 ∧ char ≠ newline

/-- The text of a request. -/
def request (id : Int) (stdin : List UInt8) : List UInt8 :=
  decimal id ++ space :: pathname stdin

/-- What the numbers in the requests are: `int`s that are not negative. -/
def IsId (id : Int) : Prop :=
  0 ≤ id ∧ id < 2 ^ 31

instance (id : Int) : Decidable (IsId id) :=
  inferInstanceAs (Decidable (_ ∧ _))

variable
  {id : Int}
  {stdin text : List UInt8}
  {mtext next : Mtext}

/-- A pathname contains neither a NUL nor a newline. -/
theorem not_mem_pathname (stdin : List UInt8) :
    0 ∉ pathname stdin ∧ newline ∉ pathname stdin := by
  constructor <;> intro member <;>
    simpa using List.all_eq_true.mp List.all_takeWhile _ member

theorem not_mem_request (isId : IsId id) : 0 ∉ request id stdin := by
  simp only [request, List.mem_append, List.mem_cons, not_or]
  exact ⟨(not_mem_decimal isId.1).1, by decide, (not_mem_pathname stdin).1⟩

theorem length_decimal_id (isId : IsId id) : (decimal id).length ≤ 10 := by
  obtain ⟨nonnegative, small⟩ := isId
  exact length_decimal_le (by decide) nonnegative (by omega)

theorem atol_decimal (isId : IsId id) : atol (decimal id) = id := by
  obtain ⟨nonnegative, small⟩ := isId
  have isValue : atol (decimal id ++ []) = id :=
    atol_decimal_append (by omega) (by omega) (by simp)
  rwa [List.append_nil] at isValue

/-- A line that `fgets` has not cut is the pathname, up to its newline. -/
theorem takeWhile_fgets
    {room : Nat}
    (fits : (fgets room stdin).1.length < room) :
    ∃ stop,
      (fgets room stdin).1.takeWhile (· ≠ 0) = pathname stdin ++ stop ∧
        (stop = [] ∨ stop = [newline]) := by
  obtain ⟨stop, isLine, isStop⟩ := fgets_eq room stdin
  have isPathname :
      (stdin.takeWhile (· ≠ newline)).takeWhile (· ≠ 0) =
        pathname stdin := by
    rw [List.takeWhile_takeWhile]
    simp [pathname]
  have whole :
      (stdin.takeWhile (· ≠ newline)).take room =
        stdin.takeWhile (· ≠ newline) := by
    apply List.take_of_length_le
    rw [isLine, List.length_append, List.length_take] at fits
    omega
  rw [isLine, whole, List.takeWhile_append]
  split
  case isTrue isWhole =>
    have free := (List.takeWhile_prefix (· ≠ (0 : UInt8))).eq_of_length isWhole
    refine ⟨stop, ?_, isStop⟩
    rw [← isPathname, free]
    rcases isStop with rfl | rfl <;> rfl
  case isFalse =>
    exact ⟨[], by rw [isPathname, List.append_nil], .inl rfl⟩

/-- What the user types is stored behind the number, with a NUL. -/
theorem typeLine_eq
    {front padding : List UInt8}
    {printed filled : Mtext}
    (isBytes : printed.bytes = front ++ 0 :: padding)
    (typed : typeLine front.length stdin printed = some filled) :
    ∃ rest,
      filled.bytes =
        front ++ (fgets (maxMsg - front.length - 1) stdin).1 ++
          0 :: rest := by
  unfold typeLine at typed
  generalize (fgets (maxMsg - front.length - 1) stdin).1 = line
    at typed ⊢
  by_cases isEmpty : line = []
  · rw [if_pos isEmpty, Option.some.injEq] at typed
    exact ⟨padding, by rw [isEmpty, List.append_nil, ← typed, isBytes]⟩
  · rw [if_neg isEmpty] at typed
    by_cases fits : front.length + (line ++ [0]).length ≤ textSize
    · obtain ⟨next, storedLine, rest, nextBytes⟩ :=
        Buffer.Holds.store (⟨0 :: padding, isBytes.symm⟩ : printed.Holds front)
          rfl (line ++ [0]) fits
      obtain rfl := Option.some.inj (storedLine.symm.trans typed)
      exact ⟨rest, by rw [← nextBytes]; simp⟩
    · rw [Buffer.store?, dif_neg fits] at typed
      simp at typed

/-- A line that was stored inside `mtext` is read as the pathname. -/
theorem string?_typeLine
    {front padding : List UInt8}
    {printed filled : Mtext}
    (free : 0 ∉ front)
    (isBytes : printed.bytes = front ++ 0 :: padding)
    (typed : typeLine front.length stdin printed = some filled) :
    ∃ stop,
      string? filled.bytes = some (front ++ pathname stdin ++ stop) ∧
        (stop = [] ∨ stop = [newline]) := by
  obtain ⟨rest, filledBytes⟩ := typeLine_eq isBytes typed
  have room := maxMsg_eq
  have total := filled.length_eq
  rw [filledBytes, List.length_append, List.length_append,
    List.length_cons] at total
  obtain ⟨stop, isTyped, isStop⟩ :=
    takeWhile_fgets
      (by omega :
        (fgets (maxMsg - front.length - 1) stdin).1.length <
          maxMsg - front.length - 1)
  refine ⟨stop, ?_, isStop⟩
  rw [filledBytes, string?_terminated, List.takeWhile_append_of_pos, isTyped,
    List.append_assoc]
  intro char member
  simpa using fun isNul : char = 0 => free (isNul ▸ member)

/-- A client that stays inside its `mtext` sends its number and pathname. -/
theorem composeRequest_eq
    (isId : IsId id)
    (composed : composeRequest id stdin mtext = some (next, text)) :
    text = request id stdin ∧ text.length < textSize := by
  have size : textSize = 8192 := rfl
  have room := maxMsg_eq
  have isShort := length_decimal_id isId
  have frontLength :
      (decimal id ++ [space]).length = (decimal id).length + 1 :=
    List.length_append
  have frontFree : 0 ∉ decimal id ++ [space] := by
    simp only [List.mem_append, List.mem_singleton, not_or]
    exact ⟨(not_mem_decimal isId.1).1, by decide⟩
  obtain ⟨printed, stored, printedHolds⟩ :=
    (Buffer.Holds.nil mtext).store List.length_nil
      (decimal id ++ [space] ++ [0]) (by
        rw [List.length_append, frontLength, List.length_singleton]
        omega)
  obtain ⟨padding, isBytes⟩ := printedHolds
  have printedBytes :
      printed.bytes = decimal id ++ [space] ++ 0 :: padding := by
    rw [← isBytes]
    simp
  have prints :
      mtext.snprintf? 0 maxMsg (decimal id ++ [space]) = some printed := by
    rw [Buffer.snprintf?, if_neg (by decide),
      List.take_of_length_le (by omega), stored]
  have isFront : string? printed.bytes = some (decimal id ++ [space]) := by
    rw [printedBytes]
    exact string?_append_nul frontFree
  simp only [composeRequest, prints, isFront, Option.bind_eq_bind,
    Option.bind_some] at composed
  obtain ⟨filled, typed, sent⟩ := Option.bind_eq_some_iff.mp composed
  obtain ⟨stop, isText, isStop⟩ :=
    string?_typeLine frontFree printedBytes typed
  rw [List.append_assoc (decimal id), List.singleton_append, ← request]
    at isText
  obtain ⟨-, later, isLater⟩ := string?_eq_some_iff.mp isText
  have bounded := congrArg List.length isLater
  rw [filled.length_eq, List.length_append, List.length_append,
    List.length_cons] at bounded
  simp only [isText, Option.bind_some] at sent
  rcases isStop with rfl | rfl
  · obtain ⟨last, isLast, notNewline⟩ :
        ∃ last, (request id stdin).getLast? = some last ∧ last ≠ newline :=
      getLast?_ne_newline (by decide) (not_mem_pathname stdin).2
    rw [List.append_nil, isLast] at sent
    simp only [Option.bind_some, if_neg notNewline, Option.some.injEq,
      Prod.mk.injEq] at sent
    obtain ⟨-, rfl⟩ := sent
    exact ⟨rfl, by omega⟩
  · rw [List.getLast?_concat] at sent
    simp only [Option.bind_some, if_true, List.dropLast_concat,
      Option.some.injEq, Prod.mk.injEq] at sent
    obtain ⟨-, rfl⟩ := sent
    exact ⟨rfl, by omega⟩

/--
A server splits a request at its first space; the pathname stands from there
to the NUL behind the request.
-/
theorem obtain_request
    (isId : IsId id)
    (mtext : Mtext)
    (fits : (request id stdin).length < textSize) :
    ∃ next rest,
      obtain mtext (.received (request id stdin)) =
          some (.request (decimal id) (pathname stdin)
            ((decimal id).length + 1) (request id stdin).length next) ∧
        next.bytes = decimal id ++ 0 :: (pathname stdin ++ 0 :: rest) := by
  have room := maxMsg_eq
  obtain ⟨filled, stored, padding, filledBytes⟩ :=
    (Buffer.Holds.nil mtext).store List.length_nil (request id stdin)
      (by omega)
  rw [List.nil_append] at filledBytes
  obtain ⟨terminated, ends, rest, terminatedBytes⟩ :=
    Buffer.Holds.store ⟨padding, filledBytes⟩ rfl [0]
      (by rw [List.length_singleton]; omega)
  have isText : string? terminated.bytes = some (request id stdin) := by
    rw [← terminatedBytes, List.append_assoc]
    exact string?_append_nul (not_mem_request isId)
  have isIndex :
      (request id stdin).idxOf? space = some (decimal id).length :=
    idxOf?_append_cons (not_mem_decimal isId.1).2
  obtain ⟨next, rest, splits, nextBytes, isNumber, isPath⟩ :=
    store?_splits isText
  have notEmpty : request id stdin ≠ [] := by
    simp [request]
  have notLonger : ¬ maxMsg < (request id stdin).length := by omega
  refine ⟨next, rest, ?_, nextBytes⟩
  simp only [obtain, if_neg notLonger, stored, if_neg notEmpty,
    splitRequest, ends, isText, isIndex, splits, isNumber, isPath]

end CsPrimer.SvMsg
