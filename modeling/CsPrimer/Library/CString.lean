import CsPrimer.Library.Buffer
import Mathlib.Data.Nat.Digits.Lemmas

namespace CsPrimer.Library

/-!
# C strings and lines

A string in memory is what stands before the first NUL; memory without a NUL
holds no string.  Lines are read with `fgets`, which stops behind a newline or
when the room is used up.  Numbers are written as `%ld` and read as `atol`
does.
-/

/-- The bytes of a string literal without its terminating NUL. -/
def ascii (text : String) : List UInt8 :=
  text.toList.map Char.toUInt8

/-- The newline character. -/
def newline : UInt8 := '\n'.toUInt8

/-- The space character. -/
def space : UInt8 := ' '.toUInt8

section Strings

variable {memory text rest : List UInt8}

/-- The string at the start of some memory. -/
def string? : List UInt8 → Option (List UInt8)
  | [] =>
      none
  | char :: memory =>
      if char = 0 then
        some []
      else
        (string? memory).map (char :: ·)

/-- A string is terminated by the first NUL. -/
theorem string?_eq_some_iff :
    string? memory = some text ↔
      0 ∉ text ∧ ∃ rest, memory = text ++ 0 :: rest := by
  induction memory generalizing text with
  | nil =>
      simp [string?]
  | cons char memory inductionHypothesis =>
      unfold string?
      by_cases isNul : char = 0
      · rw [if_pos isNul, Option.some.injEq]
        constructor
        · rintro rfl
          exact ⟨List.not_mem_nil, memory, by rw [isNul, List.nil_append]⟩
        · rintro ⟨free, rest, split⟩
          cases text with
          | nil =>
              rfl
          | cons other later =>
              have same : char = other := (List.cons.inj split).1
              simp [← same, isNul] at free
      · rw [if_neg isNul, Option.map_eq_some_iff]
        constructor
        · rintro ⟨later, isLater, rfl⟩
          obtain ⟨free, rest, rfl⟩ := inductionHypothesis.mp isLater
          refine ⟨?_, rest, rfl⟩
          simpa [free, eq_comm] using isNul
        · rintro ⟨free, rest, split⟩
          cases text with
          | nil =>
              exact absurd (List.cons.inj split).1 isNul
          | cons other later =>
              obtain ⟨rfl, isMemory⟩ := List.cons.inj split
              refine ⟨later, inductionHypothesis.mpr ⟨?_, rest, isMemory⟩,
                rfl⟩
              exact fun member => free (List.mem_cons_of_mem _ member)

theorem string?_append_nul (free : 0 ∉ text) :
    string? (text ++ 0 :: rest) = some text :=
  string?_eq_some_iff.mpr ⟨free, rest, rfl⟩

/-- A terminating NUL makes a string of everything before the first NUL. -/
theorem string?_terminated (memory rest : List UInt8) :
    string? (memory ++ 0 :: rest) =
      some (memory.takeWhile (· ≠ 0)) := by
  induction memory with
  | nil =>
      rfl
  | cons char memory inductionHypothesis =>
      by_cases isNul : char = 0 <;>
        simp [string?, isNul, inductionHypothesis]

theorem string?_isSome_iff :
    (string? memory).isSome ↔ 0 ∈ memory := by
  induction memory with
  | nil =>
      simp [string?]
  | cons char memory inductionHypothesis =>
      by_cases isNul : char = 0 <;>
        simp [string?, isNul, inductionHypothesis, eq_comm]

/-- A string ends at the latest at a given NUL. -/
theorem length_le_of_string?
    {index : Nat}
    (isText : string? memory = some text)
    (isNul : memory[index]? = some 0) :
    text.length ≤ index := by
  obtain ⟨free, rest, rfl⟩ := string?_eq_some_iff.mp isText
  by_contra inside
  rw [List.getElem?_append_left (Nat.lt_of_not_le inside)] at isNul
  exact free (List.mem_of_getElem? isNul)

/-- What `strchr` finds splits the string. -/
theorem eq_append_of_idxOf?
    {char : UInt8}
    {index : Nat}
    (found : text.idxOf? char = some index) :
    ∃ before after,
      text = before ++ char :: after ∧ before.length = index := by
  obtain ⟨inside, isChar, -⟩ := List.idxOf?_eq_some_iff.mp found
  refine ⟨text.take index, text.drop (index + 1), ?_, ?_⟩
  · rw [← isChar, List.getElem_cons_drop, List.take_append_drop]
  · rw [List.length_take, Nat.min_eq_left (Nat.le_of_lt inside)]

/-- `strchr` finds the first occurrence of a character. -/
theorem idxOf?_append_cons
    {before after : List UInt8}
    {char : UInt8}
    (free : char ∉ before) :
    (before ++ char :: after).idxOf? char = some before.length := by
  induction before with
  | nil =>
      simp [List.idxOf?_cons]
  | cons other before inductionHypothesis =>
      rw [List.mem_cons, not_or] at free
      rw [List.cons_append, List.idxOf?_cons,
        if_neg (by simpa using Ne.symm free.1),
        inductionHypothesis free.2]
      rfl

/-- A character that is overwritten by a NUL splits a string in a buffer. -/
theorem store?_splits
    {size : Nat}
    {buffer : Buffer size}
    {char : UInt8}
    {before after : List UInt8}
    (isText : string? buffer.bytes = some (before ++ char :: after)) :
    ∃ next rest,
      buffer.store? before.length [0] = some next ∧
        next.bytes = before ++ 0 :: (after ++ 0 :: rest) ∧
        string? next.bytes = some before ∧
        string? (next.bytes.drop (before.length + 1)) = some after := by
  obtain ⟨free, rest, isBytes⟩ := string?_eq_some_iff.mp isText
  simp only [List.mem_append, List.mem_cons, not_or] at free
  obtain ⟨next, stored, nextBytes⟩ :=
    Buffer.store?_replace before [char] [0] (after ++ 0 :: rest)
      (by rw [isBytes]; simp) rfl
  have behind :
      next.bytes.drop (before.length + 1) = after ++ 0 :: rest := by
    rw [nextBytes, ← List.append_assoc, List.drop_left' (by simp)]
  refine ⟨next, rest, stored, nextBytes, ?_, ?_⟩
  · rw [nextBytes]
    exact string?_append_nul free.1
  · rw [behind]
    exact string?_append_nul free.2.2

end Strings

section Lines

/--
The characters `fgets` stores when there is room for some, and the rest of the
stream.
-/
def fgets : Nat → List UInt8 → List UInt8 × List UInt8
  | 0, stream =>
      ([], stream)
  | _ + 1, [] =>
      ([], [])
  | room + 1, char :: stream =>
      if char = newline then
        ([char], stream)
      else
        (char :: (fgets room stream).1, (fgets room stream).2)

theorem length_fgets_le (room : Nat) (stream : List UInt8) :
    (fgets room stream).1.length ≤ room := by
  induction room generalizing stream with
  | zero =>
      simp [fgets]
  | succ room inductionHypothesis =>
      cases stream with
      | nil =>
          simp [fgets]
      | cons char stream =>
          unfold fgets
          split
          · simp
          · simpa using inductionHypothesis stream

/-- No byte of the stream is lost. -/
theorem fgets_append (room : Nat) (stream : List UInt8) :
    (fgets room stream).1 ++ (fgets room stream).2 = stream := by
  induction room generalizing stream with
  | zero =>
      rfl
  | succ room inductionHypothesis =>
      cases stream with
      | nil =>
          rfl
      | cons char stream =>
          unfold fgets
          split
          · rfl
          · exact congrArg (char :: ·) (inductionHypothesis stream)

/-- Whether `fgets` comes to the end of the stream, so that `feof` holds. -/
def fgetsEnds : Nat → List UInt8 → Bool
  | 0, _ =>
      false
  | _ + 1, [] =>
      true
  | room + 1, char :: stream =>
      if char = newline then
        false
      else
        fgetsEnds room stream

/-- A call that does not come to the end of the stream stores something. -/
theorem length_fgets_lt
    {room : Nat}
    {stream : List UInt8}
    (goesOn : fgetsEnds (room + 1) stream = false) :
    (fgets (room + 1) stream).2.length < stream.length := by
  cases stream with
  | nil =>
      contradiction
  | cons char stream =>
      have whole := congrArg List.length (fgets_append room stream)
      rw [List.length_append] at whole
      unfold fgets
      split
      · exact Nat.lt_succ_self _
      · simp only [List.length_cons]
        omega

/-- What is stored is the line, cut to the room, and perhaps its newline. -/
theorem fgets_eq (room : Nat) (stream : List UInt8) :
    ∃ stop,
      (fgets room stream).1 =
          (stream.takeWhile (· ≠ newline)).take room ++ stop ∧
        (stop = [] ∨ stop = [newline]) := by
  induction room generalizing stream with
  | zero =>
      exact ⟨[], by simp [fgets], .inl rfl⟩
  | succ room inductionHypothesis =>
      cases stream with
      | nil =>
          exact ⟨[], by simp [fgets], .inl rfl⟩
      | cons char stream =>
          by_cases ends : char = newline
          · exact ⟨[newline], by simp [fgets, ends], .inr rfl⟩
          · obtain ⟨stop, isLine, isStop⟩ := inductionHypothesis stream
            refine ⟨stop, ?_, isStop⟩
            simpa [fgets, ends] using isLine

/-- The lines of a stream, each with its newline. -/
def linesOf : List UInt8 → List (List UInt8)
  | [] =>
      []
  | char :: stream =>
      if char = newline then
        [char] :: linesOf stream
      else
        match linesOf stream with
        | [] => [[char]]
        | line :: later => (char :: line) :: later

@[simp]
theorem linesOf_eq_nil_iff {stream : List UInt8} :
    linesOf stream = [] ↔ stream = [] := by
  cases stream with
  | nil =>
      simp [linesOf]
  | cons char stream =>
      unfold linesOf
      split
      · simp
      · cases linesOf stream <;> simp

/-- The lines are the stream. -/
theorem flatten_linesOf (stream : List UInt8) :
    (linesOf stream).flatten = stream := by
  induction stream with
  | nil =>
      rfl
  | cons char stream inductionHypothesis =>
      unfold linesOf
      split
      · rw [List.flatten_cons, inductionHypothesis, List.singleton_append]
      · cases isLines : linesOf stream with
        | nil =>
            rw [linesOf_eq_nil_iff.mp isLines]
            rfl
        | cons line later =>
            rw [isLines, List.flatten_cons] at inductionHypothesis
            rw [List.flatten_cons, List.cons_append, inductionHypothesis]

theorem ne_nil_of_mem_linesOf
    {stream line : List UInt8}
    (member : line ∈ linesOf stream) :
    line ≠ [] := by
  induction stream generalizing line with
  | nil =>
      simp [linesOf] at member
  | cons char stream inductionHypothesis =>
      unfold linesOf at member
      split at member
      · rcases List.mem_cons.mp member with rfl | inLater
        · simp
        · exact inductionHypothesis inLater
      · cases isLines : linesOf stream with
        | nil =>
            simp_all
        | cons first later =>
            simp only [isLines, List.mem_cons] at member
            rcases member with rfl | inLater
            · simp
            · apply inductionHypothesis
              rw [isLines]
              exact List.mem_cons_of_mem first inLater

theorem linesOf_cons_newline (stream : List UInt8) :
    linesOf (newline :: stream) = [newline] :: linesOf stream := by
  rw [linesOf, if_pos rfl]

/-- Another character goes to the first line. -/
theorem linesOf_cons_of_eq_cons
    {char : UInt8}
    {stream line : List UInt8}
    {later : List (List UInt8)}
    (notNewline : char ≠ newline)
    (isLines : linesOf stream = line :: later) :
    linesOf (char :: stream) = (char :: line) :: later := by
  rw [linesOf, if_neg notNewline, isLines]

/-- Lines that are complete stay what they are. -/
theorem linesOf_append
    {whole : List UInt8}
    (rest : List UInt8)
    (complete : whole = [] ∨ whole.getLast? = some newline) :
    linesOf (whole ++ rest) = linesOf whole ++ linesOf rest := by
  induction whole with
  | nil =>
      rfl
  | cons char whole inductionHypothesis =>
      cases whole with
      | nil =>
          have isNewline : char = newline := by
            simpa using complete
          simp [linesOf, isNewline]
      | cons next whole =>
          have later :=
            inductionHypothesis (.inr (by simpa using complete))
          by_cases ends : char = newline
          · rw [ends, List.cons_append, linesOf_cons_newline, later,
              linesOf_cons_newline, List.cons_append]
          · obtain ⟨line, lines, isLines⟩ :=
              List.exists_cons_of_ne_nil
                (mt linesOf_eq_nil_iff.mp (List.cons_ne_nil next whole))
            rw [isLines] at later
            rw [List.cons_append,
              linesOf_cons_of_eq_cons ends (later.trans List.cons_append),
              linesOf_cons_of_eq_cons ends isLines, List.cons_append]

/-- What has no newline, but perhaps at its end, is one line. -/
theorem linesOf_eq_singleton
    {text : List UInt8}
    (notEmpty : text ≠ [])
    (free : newline ∉ text.dropLast) :
    linesOf text = [text] := by
  induction text with
  | nil =>
      contradiction
  | cons char text inductionHypothesis =>
      cases text with
      | nil =>
          simp [linesOf]
      | cons next text =>
          rw [List.dropLast_cons_cons, List.mem_cons, not_or] at free
          have later :=
            inductionHypothesis (List.cons_ne_nil next text) free.2
          exact linesOf_cons_of_eq_cons (Ne.symm free.1) later

/-- `fgets` stores the first line, cut to the room. -/
theorem fgets_of_linesOf
    {stream line : List UInt8}
    {later : List (List UInt8)}
    (room : Nat)
    (isLines : linesOf stream = line :: later) :
    (fgets room stream).1 = line.take room ∧
      (line.length ≤ room → linesOf (fgets room stream).2 = later) := by
  induction stream generalizing room line later with
  | nil =>
      simp [linesOf] at isLines
  | cons char stream inductionHypothesis =>
      have notEmpty : line ≠ [] :=
        ne_nil_of_mem_linesOf (isLines ▸ List.mem_cons_self)
      cases room with
      | zero =>
          simp [fgets, notEmpty]
      | succ room =>
          unfold linesOf at isLines
          unfold fgets
          split at isLines
          case isTrue ends =>
            obtain ⟨rfl, rfl⟩ := List.cons.inj isLines
            simp [ends]
          case isFalse goesOn =>
            rw [if_neg goesOn]
            cases isRest : linesOf stream with
            | nil =>
                rw [isRest] at isLines
                obtain ⟨rfl, rfl⟩ := List.cons.inj isLines
                rw [linesOf_eq_nil_iff.mp isRest]
                cases room <;> simp [fgets, linesOf]
            | cons first others =>
                rw [isRest] at isLines
                obtain ⟨rfl, rfl⟩ := List.cons.inj isLines
                obtain ⟨stored, rest⟩ := inductionHypothesis room isRest
                simpa [stored] using rest

/-- A line that fits comes to the end of the stream if it lacks a newline. -/
theorem fgetsEnds_of_linesOf
    {stream line : List UInt8}
    {later : List (List UInt8)}
    {room : Nat}
    (isLines : linesOf stream = line :: later)
    (fits : line.length < room) :
    fgetsEnds room stream = decide (line.getLast? ≠ some newline) ∧
      (line.getLast? ≠ some newline → later = []) := by
  induction stream generalizing room line later with
  | nil =>
      simp [linesOf] at isLines
  | cons char stream inductionHypothesis =>
      obtain ⟨less, rfl⟩ : ∃ less, room = less + 1 :=
        Nat.exists_eq_add_one_of_ne_zero (by omega)
      unfold linesOf at isLines
      unfold fgetsEnds
      split at isLines
      case isTrue ends =>
        obtain ⟨rfl, rfl⟩ := List.cons.inj isLines
        simp [ends]
      case isFalse goesOn =>
        rw [if_neg goesOn]
        cases isRest : linesOf stream with
        | nil =>
            rw [isRest] at isLines
            obtain ⟨rfl, rfl⟩ := List.cons.inj isLines
            obtain ⟨room, rfl⟩ : ∃ room, less = room + 1 :=
              Nat.exists_eq_add_one_of_ne_zero (by
                rw [List.length_singleton] at fits
                omega)
            rw [linesOf_eq_nil_iff.mp isRest]
            simp [fgetsEnds, goesOn]
        | cons first others =>
            rw [isRest] at isLines
            obtain ⟨rfl, rfl⟩ := List.cons.inj isLines
            have notEmpty : first ≠ [] :=
              ne_nil_of_mem_linesOf (isRest ▸ List.mem_cons_self)
            rw [List.getLast?_cons_of_ne_nil notEmpty]
            rw [List.length_cons] at fits
            exact inductionHypothesis isRest (Nat.lt_of_succ_lt_succ fits)

/-- What stands last is no newline if there is none from a place on. -/
theorem getLast?_ne_newline
    {front path : List UInt8}
    {char : UInt8}
    (isOther : char ≠ newline)
    (free : newline ∉ path) :
    ∃ last, (front ++ char :: path).getLast? = some last ∧
      last ≠ newline := by
  rw [List.getLast?_append_cons]
  refine ⟨_, List.getLast?_eq_getLast_of_ne_nil (by simp), ?_⟩
  intro isNewline
  have member := isNewline ▸ List.getLast_mem (List.cons_ne_nil char path)
  rcases List.mem_cons.mp member with isChar | inPath
  · exact isOther isChar.symm
  · exact free inPath

end Lines

section Numbers

/-- The decimal digits of a number. -/
def digits (value : Nat) : List UInt8 :=
  if value = 0 then
    ['0'.toUInt8]
  else
    (Nat.digits 10 value).reverse.map fun digit => UInt8.ofNat (48 + digit)

/-- What `%ld` prints. -/
def decimal (value : Int) : List UInt8 :=
  if value < 0 then
    '-'.toUInt8 :: digits value.natAbs
  else
    digits value.natAbs

def isSpace (char : UInt8) : Bool :=
  char = space || (9 ≤ char && char ≤ 13)

def isDigit (char : UInt8) : Bool :=
  48 ≤ char && char ≤ 57

/-- The value of the digits at the start of a string. -/
def leadingNumber (text : List UInt8) : Nat :=
  (text.takeWhile isDigit).foldl
    (fun value digit => value * 10 + (digit.toNat - 48)) 0

/-- The nearest value of a `long`. -/
def clampLong (value : Int) : Int :=
  max (-2 ^ 63) (min value (2 ^ 63 - 1))

/-- `atol`, as `strtol` to base 10: out of range it is the nearest `long`. -/
def atol (text : List UInt8) : Int :=
  match text.dropWhile isSpace with
  | [] => 0
  | char :: rest =>
      if char = '-'.toUInt8 then
        clampLong (-leadingNumber rest)
      else if char = '+'.toUInt8 then
        clampLong (leadingNumber rest)
      else
        clampLong (leadingNumber (char :: rest))

theorem digits_ne_nil (value : Nat) : digits value ≠ [] := by
  unfold digits
  split
  · simp
  case isFalse notZero =>
    simpa using Nat.digits_ne_nil_iff_ne_zero.mpr notZero

theorem length_digits_le
    {value count : Nat}
    (positive : 0 < count)
    (small : value < 10 ^ count) :
    (digits value).length ≤ count := by
  unfold digits
  split
  · exact positive
  · rw [List.length_map, List.length_reverse]
    exact (Nat.digits_length_le_iff (by decide) value).mpr small

/-- The character of a digit is recognised and has the value of the digit. -/
theorem digit_char
    {digit : Nat}
    (isSmall : digit < 10) :
    isDigit (UInt8.ofNat (48 + digit)) = true ∧
      (UInt8.ofNat (48 + digit)).toNat - 48 = digit := by
  have small : 48 + digit < 256 := by omega
  have value : (UInt8.ofNat (48 + digit)).toNat = 48 + digit :=
    UInt8.toNat_ofNat_of_lt' small
  refine ⟨?_, by omega⟩
  simp only [isDigit, Bool.and_eq_true, decide_eq_true_eq,
    UInt8.le_iff_toNat_le, value]
  change 48 ≤ 48 + digit ∧ 48 + digit ≤ 57
  omega

theorem isDigit_of_mem_digits
    {value : Nat}
    {char : UInt8}
    (member : char ∈ digits value) :
    isDigit char = true := by
  unfold digits at member
  split at member
  · rw [List.mem_singleton.mp member]
    decide
  · obtain ⟨digit, isDigit, rfl⟩ := List.mem_map.mp member
    exact (digit_char
      (Nat.digits_lt_base (by decide) (List.mem_reverse.mp isDigit))).1

/-- Reading digits from the most significant one on. -/
theorem foldr_digit_chars
    {numerals : List Nat}
    (small : ∀ digit ∈ numerals, digit < 10) :
    numerals.foldr
        (fun digit value =>
          value * 10 + ((UInt8.ofNat (48 + digit)).toNat - 48)) 0 =
      Nat.ofDigits 10 numerals := by
  induction numerals with
  | nil =>
      rfl
  | cons digit rest inductionHypothesis =>
      have digitSmall := small digit List.mem_cons_self
      have restSmall := fun other member =>
        small other (List.mem_cons_of_mem digit member)
      rw [List.foldr_cons, inductionHypothesis restSmall,
        (digit_char digitSmall).2, Nat.ofDigits_cons, Nat.mul_comm,
        Nat.add_comm]

/-- The digits of a number are read back, up to what follows them. -/
theorem leadingNumber_digits_append
    {rest : List UInt8}
    (value : Nat)
    (stops : ∀ char ∈ rest.head?, isDigit char = false) :
    leadingNumber (digits value ++ rest) = value := by
  have front : (digits value ++ rest).takeWhile isDigit = digits value := by
    rw [List.takeWhile_append_of_pos fun _ => isDigit_of_mem_digits]
    cases rest with
    | nil =>
        simp
    | cons char later =>
        simp [stops char rfl]
  rw [leadingNumber, front]
  unfold digits
  split
  case isTrue isZero =>
    rw [isZero]
    rfl
  case isFalse notZero =>
    have small : ∀ digit ∈ Nat.digits 10 value, digit < 10 :=
      fun _ member => Nat.digits_lt_base (by decide) member
    rw [List.foldl_map, List.foldl_reverse, foldr_digit_chars small,
      Nat.ofDigits_digits]

theorem clampLong_eq
    {value : Int}
    (lower : -2 ^ 63 ≤ value)
    (upper : value < 2 ^ 63) :
    clampLong value = value := by
  unfold clampLong
  omega

theorem atol_cons
    {char : UInt8}
    {rest : List UInt8}
    (notSpace : isSpace char = false) :
    atol (char :: rest) =
      if char = '-'.toUInt8 then
        clampLong (-leadingNumber rest)
      else if char = '+'.toUInt8 then
        clampLong (leadingNumber rest)
      else
        clampLong (leadingNumber (char :: rest)) := by
  rw [atol, List.dropWhile_cons_of_neg (by simp [notSpace])]

/-- A digit is neither a space nor a sign. -/
theorem not_isSpace_of_isDigit
    {char : UInt8}
    (isNumeral : isDigit char = true) :
    isSpace char = false ∧ char ≠ '-'.toUInt8 ∧ char ≠ '+'.toUInt8 := by
  simp only [isDigit, Bool.and_eq_true, decide_eq_true_eq,
    UInt8.le_iff_toNat_le] at isNumeral
  have bounds : 48 ≤ char.toNat ∧ char.toNat ≤ 57 := isNumeral
  refine ⟨?_, ?_, ?_⟩
  · simp only [isSpace, Bool.or_eq_false_iff, Bool.and_eq_false_iff,
      decide_eq_false_iff_not, UInt8.le_iff_toNat_le, ← UInt8.toNat_inj]
    change ¬ char.toNat = 32 ∧ (¬ 9 ≤ char.toNat ∨ ¬ char.toNat ≤ 13)
    omega
  · rw [Ne, ← UInt8.toNat_inj]
    change ¬ char.toNat = 45
    omega
  · rw [Ne, ← UInt8.toNat_inj]
    change ¬ char.toNat = 43
    omega

/-- A number written with `%ld` is read back, up to what follows it. -/
theorem atol_decimal_append
    {value : Int}
    {rest : List UInt8}
    (lower : -2 ^ 63 ≤ value)
    (upper : value < 2 ^ 63)
    (stops : ∀ char ∈ rest.head?, isDigit char = false) :
    atol (decimal value ++ rest) = value := by
  have leading := leadingNumber_digits_append value.natAbs stops
  unfold decimal
  split
  case isTrue negative =>
    have isValue : (-(value.natAbs : Nat) : Int) = value := by omega
    rw [List.cons_append, atol_cons (by decide), if_pos rfl, leading,
      isValue, clampLong_eq lower upper]
  case isFalse notNegative =>
    have isValue : ((value.natAbs : Nat) : Int) = value := by omega
    obtain ⟨char, later, shape⟩ :=
      List.exists_cons_of_ne_nil (digits_ne_nil value.natAbs)
    have isNumeral : isDigit char = true :=
      isDigit_of_mem_digits (shape ▸ List.mem_cons_self)
    obtain ⟨notSpace, notMinus, notPlus⟩ := not_isSpace_of_isDigit isNumeral
    rw [shape, List.cons_append] at leading ⊢
    rw [atol_cons notSpace, if_neg notMinus, if_neg notPlus, leading,
      isValue, clampLong_eq lower upper]

/-- Whether a string starts with a number, behind spaces and a sign. -/
def startsNumber (text : List UInt8) : Bool :=
  match text.dropWhile isSpace with
  | [] => false
  | char :: rest =>
      if char = '-'.toUInt8 ∨ char = '+'.toUInt8 then
        rest.head?.any isDigit
      else
        isDigit char

/-- What `sscanf` with `%ld` converts, if the string starts with a number. -/
def scanLong? (text : List UInt8) : Option Int :=
  if startsNumber text then
    some (atol text)
  else
    none

theorem startsNumber_decimal_append (value : Int) (rest : List UInt8) :
    startsNumber (decimal value ++ rest) = true := by
  obtain ⟨char, later, shape⟩ :=
    List.exists_cons_of_ne_nil (digits_ne_nil value.natAbs)
  have isNumeral : isDigit char = true :=
    isDigit_of_mem_digits (shape ▸ List.mem_cons_self)
  obtain ⟨notSpace, notMinus, notPlus⟩ := not_isSpace_of_isDigit isNumeral
  unfold decimal
  split
  case isTrue negative =>
    rw [shape, startsNumber, List.cons_append,
      List.dropWhile_cons_of_neg (by decide)]
    simp [isNumeral]
  case isFalse notNegative =>
    rw [shape, startsNumber, List.cons_append,
      List.dropWhile_cons_of_neg (by simp [notSpace])]
    simp [notMinus, notPlus, isNumeral]

/-- A number written with `%ld` is converted, up to what follows it. -/
theorem scanLong?_decimal_append
    {value : Int}
    {rest : List UInt8}
    (lower : -2 ^ 63 ≤ value)
    (upper : value < 2 ^ 63)
    (stops : ∀ char ∈ rest.head?, isDigit char = false) :
    scanLong? (decimal value ++ rest) = some value := by
  rw [scanLong?, if_pos (startsNumber_decimal_append value rest),
    atol_decimal_append lower upper stops]

/-- What is converted is a `long`. -/
theorem long_of_scanLong?
    {text : List UInt8}
    {value : Int}
    (converted : scanLong? text = some value) :
    -2 ^ 63 ≤ value ∧ value < 2 ^ 63 := by
  have clamped :
      ∀ exact : Int,
        -2 ^ 63 ≤ clampLong exact ∧ clampLong exact < 2 ^ 63 := by
    intro exact
    unfold clampLong
    omega
  obtain ⟨-, rfl⟩ : startsNumber text = true ∧ atol text = value := by
    simpa [scanLong?] using converted
  unfold atol
  split
  · decide
  · split
    · exact clamped _
    · split
      · exact clamped _
      · exact clamped _

/-- No number is written with a NUL. -/
theorem nul_not_mem_decimal (value : Int) : 0 ∉ decimal value := by
  have noDigit : 0 ∉ digits value.natAbs := fun member =>
    absurd (isDigit_of_mem_digits member) (by decide)
  unfold decimal
  split
  · rw [List.mem_cons, not_or]
    exact ⟨by decide, noDigit⟩
  · exact noDigit

/-- A sign and at most nineteen digits make a `long`. -/
theorem length_decimal_long
    {value : Int}
    (lower : -2 ^ 63 ≤ value)
    (upper : value < 2 ^ 63) :
    (decimal value).length ≤ 20 := by
  have small : value.natAbs < 10 ^ 19 := by omega
  have numerals := length_digits_le (by decide) small
  unfold decimal
  split
  · exact Nat.succ_le_succ numerals
  · exact Nat.le_succ_of_le numerals

/-- A number that is not negative is written with digits only. -/
theorem not_mem_decimal
    {value : Int}
    (nonnegative : 0 ≤ value) :
    0 ∉ decimal value ∧ space ∉ decimal value := by
  rw [decimal, if_neg (by omega)]
  constructor <;> intro member <;>
    exact absurd (isDigit_of_mem_digits member) (by decide)

theorem length_decimal_le
    {value : Int}
    {count : Nat}
    (positive : 0 < count)
    (nonnegative : 0 ≤ value)
    (small : value.natAbs < 10 ^ count) :
    (decimal value).length ≤ count := by
  rw [decimal, if_neg (by omega)]
  exact length_digits_le positive small

/-- What can stand before the digits of an integer. -/
inductive Sign where
  | none
  | plus
  | minus
  deriving Repr, DecidableEq

def Sign.chars : Sign → List UInt8
  | .none => []
  | .plus => ['+'.toUInt8]
  | .minus => ['-'.toUInt8]

/-- An integer as it is written: perhaps a sign, and at least one digit. -/
structure Numeral where
  sign : Sign
  digits : List UInt8
  notEmpty : digits ≠ []
  numeric : ∀ char ∈ digits, isDigit char = true

namespace Numeral

def text (numeral : Numeral) : List UInt8 :=
  numeral.sign.chars ++ numeral.digits

def value (numeral : Numeral) : Int :=
  match numeral.sign with
  | .minus => -leadingNumber numeral.digits
  | _ => leadingNumber numeral.digits

/-- An integer is read back, as far as a `long` can hold it. -/
theorem atol_text (numeral : Numeral) :
    atol numeral.text = clampLong numeral.value := by
  obtain ⟨sign, digits, notEmpty, numeric⟩ := numeral
  obtain ⟨char, later, rfl⟩ := List.exists_cons_of_ne_nil notEmpty
  obtain ⟨notSpace, notMinus, notPlus⟩ :=
    not_isSpace_of_isDigit (numeric char List.mem_cons_self)
  cases sign with
  | none =>
      rw [text, Sign.chars, List.nil_append, atol_cons notSpace,
        if_neg notMinus, if_neg notPlus]
      rfl
  | plus =>
      rw [text, Sign.chars, List.singleton_append, atol_cons (by decide),
        if_neg (by decide), if_pos rfl]
      rfl
  | minus =>
      rw [text, Sign.chars, List.singleton_append, atol_cons (by decide),
        if_pos rfl]
      rfl

end Numeral

end Numbers

end CsPrimer.Library
