import CsPrimer.Library.GetOpt

namespace CsPrimer.SvSem

open Library

/-!
# The operations of `semops`

`semops [-n] [-u] pathname op_1 ... op_m` makes an operation of each operand.
`--optind` goes back over the last option where the pathname was to be skipped,
and `argv[optind + 0]` never moves on: the array has one entry for the pathname
and one for the word before it, and all entries are made of that word.
-/

/-- `struct sembuf`. -/
structure Sembuf where
  sem_num : UInt16
  sem_op : Int16
  sem_flg : Int16
  deriving Repr, DecidableEq

/-- `IPC_NOWAIT`. -/
def ipcNowait : Int32 := 0x800

/-- `SEM_UNDO`. -/
def semUndo : Int32 := 0x1000

/-- `atoi`. -/
def atoi (text : Word) : Int32 :=
  .ofInt (atol text)

/-- The `switch` on what `getopt` returns. -/
def select (flag : Int32) (opt : UInt8) : Int32 :=
  if opt = 'n'.toUInt8 then
    flag ||| ipcNowait
  else if opt = 'u'.toUInt8 then
    flag ||| semUndo
  else
    flag

/-- The loop that stores the operations; there is nothing beyond `argv`. -/
def storeLoop
    (argv : List Word)
    (optind : Nat)
    (flag : Int32)
    (nops i : Nat)
    (ptr : List Sembuf) : Option (List Sembuf) :=
  if i < nops then do
    let word ← argv[optind + 0]?
    let operation : Sembuf :=
      { sem_num := .ofNat i
        sem_op := (atoi word).toInt16
        sem_flg := flag.toInt16 }
    storeLoop argv optind flag nops (i + 1) (ptr.set i operation)
  else
    some ptr
  termination_by nops - i

/-- What the system answers.  `calloc` tells whether there is memory. -/
structure Kernel where
  ftok : Word → Int32
  semget : Int32 → Int32
  calloc : Nat → Bool

/-- How the program leaves, or what it passes to `semop`. -/
inductive Outcome where
  | usage
  | error (msg : String)
  | semop (semid : Int32) (operations : List Sembuf)
  deriving Repr, DecidableEq

/-- `main`, up to its call of `semop`. -/
def main
    (kernel : Kernel)
    (posixlyCorrect : Bool)
    (program : Word)
    (words : List Word) : Option Outcome :=
  let scanned := getopt (ascii "nu") posixlyCorrect words
  let flag := scanned.returned.foldl select 0
  let argv := program :: scanned.options ++ scanned.operands
  let argc := argv.length
  let optind := 1 + scanned.options.length
  if argc - optind < 2 then
    some .usage
  else do
    let path ← argv[optind]?
    let key := kernel.ftok path
    if key = -1 then
      return .error "ftok error"
    let semid := kernel.semget key
    if semid = -1 then
      return .error "semget error"
    let optind := optind - 1
    let nops := argc - optind
    if ¬ kernel.calloc nops then
      return .error "calloc error"
    let ptr ← storeLoop argv optind flag nops 0
      (List.replicate nops { sem_num := 0, sem_op := 0, sem_flg := 0 })
    return .semop semid ptr

/-- An option of the program. -/
inductive Flag where
  | nowait
  | undo
  deriving Repr, DecidableEq

namespace Flag

def char : Flag → UInt8
  | .nowait => 'n'.toUInt8
  | .undo => 'u'.toUInt8

def value : Flag → Int32
  | .nowait => ipcNowait
  | .undo => semUndo

def word (flag : Flag) : Word :=
  ['-'.toUInt8, flag.char]

/-- The union of the flags of the options that are given. -/
def union (flags : List Flag) : Int16 :=
  (flags.foldl (fun flag (option : Flag) => flag ||| option.value) 0).toInt16

end Flag

/-- A command line behind the name of the program. -/
def commandLine
    (flags : List Flag)
    (pathname : Word)
    (operands : List Numeral) : List Word :=
  flags.map Flag.word ++ pathname :: operands.map Numeral.text

/-- The operations that a command line asks for. -/
structure AskedFor
    (flags : List Flag)
    (operands : List Numeral)
    (operations : List Sembuf) : Prop where
  count : operations.length = operands.length
  entries :
    ∀ (i : Nat) (operation : Sembuf) (operand : Numeral),
      operations[i]? = some operation →
      operands[i]? = some operand →
        operation.sem_num.toNat = i ∧
          operation.sem_op.toInt = operand.value ∧
          operation.sem_flg = Flag.union flags

/-- The calls that come before `semop` succeed. -/
structure Kernel.Succeeds (kernel : Kernel) : Prop where
  ftok : ∀ path, kernel.ftok path ≠ -1
  semget : ∀ key, kernel.semget key ≠ -1
  calloc : ∀ count, kernel.calloc count = true

theorem Kernel.exists_succeeds : ∃ kernel : Kernel, kernel.Succeeds := by
  have notFailed : (0 : Int32) ≠ -1 := by
    decide
  exact ⟨⟨fun _ => 0, fun _ => 0, fun _ => true⟩,
    ⟨fun _ => notFailed, fun _ => notFailed, fun _ => rfl⟩⟩

/-- Where no call fails, `semop` is passed what the command line asks for. -/
def BuildsOperations
    (posixlyCorrect : Bool)
    (program : Word)
    (flags : List Flag)
    (pathname : Word)
    (operands : List Numeral) : Prop :=
  ∀ kernel : Kernel, kernel.Succeeds →
    ∃ semid operations,
      main kernel posixlyCorrect program
          (commandLine flags pathname operands) =
          some (.semop semid operations) ∧
        AskedFor flags operands operations

/--
The command lines that the two slips spare: two of the words from the pathname
on are taken for options, and all operands are 0.
-/
structure Spared
    (posixlyCorrect : Bool)
    (flags : List Flag)
    (pathname : Word)
    (operands : List Numeral) : Prop where
  twoTaken :
    (getopt (ascii "nu") posixlyCorrect
      (pathname :: operands.map Numeral.text)).options.length = 2
  noOther :
    isOption pathname = true →
      ∀ flag : Flag, flag.char ∈ pathname.tail → flag ∈ flags
  zeros : ∀ operand ∈ operands, operand.value = 0
  several : 3 ≤ operands.length
  numbered : operands.length ≤ 2 ^ 16

section Flags

/-- Whatever `int` two sets of options make. -/
def flagsOf (nowait undo : Bool) : Int32 :=
  (if nowait then ipcNowait else 0) ||| (if undo then semUndo else 0)

theorem select_flagsOf
    (nowait undo : Bool)
    (opt : UInt8) :
    select (flagsOf nowait undo) opt =
      flagsOf
        (nowait || decide (opt = Flag.nowait.char))
        (undo || decide (opt = Flag.undo.char)) := by
  unfold select
  split
  case isTrue isNowait =>
    subst isNowait
    revert nowait undo
    decide
  case isFalse notNowait =>
    split
    case isTrue isUndo =>
      subst isUndo
      revert nowait undo
      decide
    case isFalse notUndo =>
      have others :
          opt ≠ Flag.nowait.char ∧ opt ≠ Flag.undo.char :=
        ⟨notNowait, notUndo⟩
      simp [others]

/-- The flag depends on which options have been returned. -/
theorem foldl_select
    (chars : List UInt8)
    (nowait undo : Bool) :
    chars.foldl select (flagsOf nowait undo) =
      flagsOf
        (nowait || decide (Flag.nowait.char ∈ chars))
        (undo || decide (Flag.undo.char ∈ chars)) := by
  induction chars generalizing nowait undo with
  | nil =>
      simp
  | cons opt chars inductionHypothesis =>
      rw [List.foldl_cons, select_flagsOf, inductionHypothesis]
      simp [Bool.or_assoc, Bool.decide_or, List.mem_cons, eq_comm]

theorem toInt16_flagsOf_inj :
    ∀ nowait undo otherNowait otherUndo : Bool,
      (flagsOf nowait undo).toInt16 =
          (flagsOf otherNowait otherUndo).toInt16 ↔
        nowait = otherNowait ∧ undo = otherUndo := by
  decide

theorem Flag.char_injective : Function.Injective Flag.char := by
  intro flag other same
  cases flag with
  | nowait =>
      cases other with
      | nowait =>
          rfl
      | undo =>
          contradiction
  | undo =>
      cases other with
      | nowait =>
          contradiction
      | undo =>
          rfl

theorem char_mem_map_char
    {flag : Flag}
    {flags : List Flag} :
    flag.char ∈ flags.map Flag.char ↔ flag ∈ flags :=
  List.mem_map_of_injective Flag.char_injective

theorem union_eq (flags : List Flag) :
    Flag.union flags =
      ((flags.map Flag.char).foldl select 0).toInt16 := by
  rw [Flag.union, List.foldl_map]
  congr 2
  funext flag option
  cases option with
  | nowait =>
      rfl
  | undo =>
      rfl

/-- Further characters keep the union if they select nothing else. -/
theorem foldl_select_eq_union_iff
    {flags : List Flag}
    {chars : List UInt8} :
    ((flags.map Flag.char ++ chars).foldl select 0).toInt16 =
        Flag.union flags ↔
      ∀ flag : Flag, flag.char ∈ chars → flag ∈ flags := by
  have start : (0 : Int32) = flagsOf false false := by
    decide
  rw [union_eq, start, foldl_select, foldl_select, toInt16_flagsOf_inj]
  simp only [List.mem_append, Bool.false_or, decide_eq_decide,
    or_iff_left_iff_imp, char_mem_map_char]
  constructor
  · rintro ⟨nowait, undo⟩ flag
    cases flag with
    | nowait =>
        exact nowait
    | undo =>
        exact undo
  · intro all
    exact ⟨all .nowait, all .undo⟩

end Flags

section Storing

variable
  {argv : List Word}
  {optind : Nat}

/-- The entry that is made of a word. -/
def operationOf
    (word : Word)
    (flag : Int32)
    (i : Nat) : Sembuf where
  sem_num := .ofNat i
  sem_op := (atoi word).toInt16
  sem_flg := flag.toInt16

/-- The loop makes all entries that are left of the one word it looks at. -/
theorem storeLoop_eq
    {word : Word}
    {left : Nat}
    (flag : Int32)
    (isWord : argv[optind]? = some word)
    (done rest : List Sembuf)
    (remaining : rest.length = left) :
    storeLoop argv optind flag (done.length + left) done.length
        (done ++ rest) =
      some (done ++
        (List.range' done.length left).map (operationOf word flag)) := by
  induction left generalizing done rest with
  | zero =>
      obtain rfl := List.length_eq_zero_iff.mp remaining
      rw [Nat.add_zero, storeLoop, if_neg (Nat.lt_irrefl _)]
      rfl
  | succ left inductionHypothesis =>
      obtain ⟨old, rest, rfl⟩ := List.exists_cons_of_length_eq_add_one remaining
      have later :=
        inductionHypothesis (done ++ [operationOf word flag done.length]) rest
          (Nat.succ.inj remaining)
      have stored :
          (done ++ old :: rest).set done.length
              (operationOf word flag done.length) =
            done ++ [operationOf word flag done.length] ++ rest := by
        simp
      rw [List.length_append, List.length_singleton, Nat.add_assoc,
        Nat.add_comm 1 left] at later
      rw [storeLoop, if_pos (by omega), Nat.add_zero, isWord]
      change storeLoop argv optind flag _ _
        ((done ++ old :: rest).set done.length
          (operationOf word flag done.length)) = _
      rw [stored, later, List.range'_succ, List.map_cons, List.append_assoc]
      rfl

end Storing

section Building

variable
  {kernel : Kernel}
  {posixlyCorrect : Bool}
  {program pathname : Word}
  {words : List Word}
  {scanned : Scanned}
  {flags : List Flag}
  {operands : List Numeral}

/-- The last word before the operands. -/
def lastWord
    (program : Word)
    (options : List Word) : Word :=
  (program :: options).getLast (List.cons_ne_nil _ _)

theorem getElem?_lastWord
    (program : Word)
    (options rest : List Word) :
    (program :: options ++ rest)[options.length]? =
      some (lastWord program options) := by
  rw [List.getElem?_append_left (Nat.lt_succ_self _), lastWord,
    List.getLast_eq_getElem]
  exact List.getElem?_eq_getElem _

/-- One entry for each word that is left, and one for the word before them. -/
theorem main_eq
    (program : Word)
    (isScanned : getopt (ascii "nu") posixlyCorrect words = scanned)
    (succeeds : kernel.Succeeds)
    (enough : 2 ≤ scanned.operands.length) :
    ∃ semid,
      main kernel posixlyCorrect program words =
        some (.semop semid
          ((List.range (scanned.operands.length + 1)).map
            (operationOf (lastWord program scanned.options)
              (scanned.returned.foldl select 0)))) := by
  obtain ⟨path, second, others, isOperands⟩ :
      ∃ path second others,
        scanned.operands = path :: second :: others := by
    match scanned.operands, enough with
    | path :: second :: others, _ =>
        exact ⟨path, second, others, rfl⟩
  have isPath :
      (program :: scanned.options ++ scanned.operands)[
        1 + scanned.options.length]? = some path := by
    rw [isOperands, List.getElem?_append_right (by simp [Nat.add_comm])]
    simp [Nat.add_comm]
  have count :
      (program :: scanned.options ++ scanned.operands).length -
          scanned.options.length =
        scanned.operands.length + 1 := by
    rw [List.length_append, List.length_cons]
    omega
  have enoughLeft :
      ¬ (program :: scanned.options ++ scanned.operands).length -
          (1 + scanned.options.length) < 2 := by
    rw [List.length_append, List.length_cons]
    omega
  have stored :=
    storeLoop_eq
      (scanned.returned.foldl select 0)
      (getElem?_lastWord program scanned.options scanned.operands) []
      (List.replicate (scanned.operands.length + 1)
        { sem_num := 0, sem_op := 0, sem_flg := 0 })
      List.length_replicate
  rw [List.length_nil, Nat.zero_add, List.nil_append, List.nil_append,
    ← List.range_eq_range'] at stored
  refine ⟨kernel.semget (kernel.ftok path), ?_⟩
  simp only [main, isScanned, if_neg enoughLeft, isPath, Option.bind_eq_bind,
    Option.bind_some, if_neg (succeeds.ftok path),
    if_neg (succeeds.semget _), succeeds.calloc, not_true_eq_false, if_false,
    Nat.add_sub_cancel_left, count, stored]
  rfl

/-- Too few words are left: the program prints how it is used. -/
theorem main_eq_usage
    (kernel : Kernel)
    (program : Word)
    (isScanned : getopt (ascii "nu") posixlyCorrect words = scanned)
    (few : scanned.operands.length < 2) :
    main kernel posixlyCorrect program words = some .usage := by
  unfold main
  rw [isScanned, if_pos]
  rw [List.length_append, List.length_cons]
  omega

/-- What `getopt` makes of the words from the pathname on. -/
def scannedRest
    (posixlyCorrect : Bool)
    (pathname : Word)
    (operands : List Numeral) : Scanned :=
  getopt (ascii "nu") posixlyCorrect (pathname :: operands.map Numeral.text)

/-- The options of the command line come before all that is taken later. -/
theorem getopt_commandLine :
    getopt (ascii "nu") posixlyCorrect
        (commandLine flags pathname operands) =
      { returned :=
          flags.map Flag.char ++
            (scannedRest posixlyCorrect pathname operands).returned
        options :=
          flags.map Flag.word ++
            (scannedRest posixlyCorrect pathname operands).options
        operands :=
          (scannedRest posixlyCorrect pathname operands).operands } := by
  have goOn :
      ∀ word ∈ flags.map Flag.word,
        word ≠ endOfOptions ∧ isOption word = true := by
    intro word member
    obtain ⟨flag, -, rfl⟩ := List.mem_map.mp member
    cases flag with
    | nowait =>
        decide
    | undo =>
        decide
  have chars :
      (flags.map Flag.word).flatMap
          (fun word => word.tail.map (recognise (ascii "nu"))) =
        flags.map Flag.char := by
    rw [List.flatMap_map, List.map_eq_flatMap]
    congr 1
    funext flag
    cases flag with
    | nowait =>
        rfl
    | undo =>
        rfl
  rw [commandLine, getopt_append goOn, chars]
  rfl

/-- The entries of the array, if any are passed to `semop`. -/
theorem builds_iff :
    BuildsOperations posixlyCorrect program flags pathname operands ↔
      2 ≤ (scannedRest posixlyCorrect pathname operands).operands.length ∧
        AskedFor flags operands
          ((List.range
            ((scannedRest posixlyCorrect pathname operands).operands.length +
              1)).map
            (operationOf
              (lastWord program
                (flags.map Flag.word ++
                  (scannedRest posixlyCorrect pathname operands).options))
              ((flags.map Flag.char ++
                (scannedRest posixlyCorrect pathname operands).returned).foldl
                  select 0))) := by
  constructor
  · intro builds
    obtain ⟨kernel, succeeds⟩ := Kernel.exists_succeeds
    obtain ⟨semid, operations, passes, askedFor⟩ := builds kernel succeeds
    by_cases enough :
        2 ≤ (scannedRest posixlyCorrect pathname operands).operands.length
    · obtain ⟨other, isMain⟩ :=
        main_eq program getopt_commandLine succeeds enough
      rw [passes, Option.some.injEq, Outcome.semop.injEq] at isMain
      exact ⟨enough, isMain.2 ▸ askedFor⟩
    · rw [main_eq_usage kernel program getopt_commandLine
        (Nat.lt_of_not_le enough)] at passes
      exact absurd (Option.some.inj passes) nofun
  · rintro ⟨enough, askedFor⟩ kernel succeeds
    obtain ⟨semid, isMain⟩ :=
      main_eq program getopt_commandLine succeeds enough
    exact ⟨semid, _, isMain, askedFor⟩

theorem length_scannedRest
    (posixlyCorrect : Bool)
    (pathname : Word)
    (operands : List Numeral) :
    (scannedRest posixlyCorrect pathname operands).options.length +
        (scannedRest posixlyCorrect pathname operands).operands.length =
      operands.length + 1 := by
  rw [scannedRest, length_options_add_length_operands, List.length_cons,
    List.length_map]

end Building

/-- An option of the program is returned as it is, and as nothing else. -/
theorem recognise_eq_iff
    {char : UInt8}
    {flag : Flag} :
    recognise (ascii "nu") char = flag.char ↔ char = flag.char := by
  have selected : flag.char ∈ ascii "nu" := by
    cases flag with
    | nowait =>
        decide
    | undo =>
        decide
  unfold recognise
  split
  case isTrue =>
    exact Iff.rfl
  case isFalse notSelected =>
    refine iff_of_false ?_ ?_
    · cases flag with
      | nowait =>
          decide
      | undo =>
          decide
    · rintro rfl
      exact notSelected selected

section Numerals

variable {numeral : Numeral}

/-- A digit is neither a sign nor an option of the program. -/
theorem digit_ne
    {char other : UInt8}
    (numeric : isDigit char = true)
    (noDigit : isDigit other = false) :
    char ≠ other := by
  rintro rfl
  rw [numeric] at noDigit
  contradiction

theorem text_ne_endOfOptions (numeral : Numeral) :
    numeral.text ≠ endOfOptions := by
  obtain ⟨sign, digits, notEmpty, numeric⟩ := numeral
  obtain ⟨char, later, rfl⟩ := List.exists_cons_of_ne_nil notEmpty
  have notMinus : char ≠ '-'.toUInt8 :=
    digit_ne (numeric char List.mem_cons_self) (by decide)
  intro same
  cases sign with
  | none =>
      exact notMinus (List.cons.inj same).1
  | plus =>
      exact absurd (List.cons.inj same).1 (by decide)
  | minus =>
      exact notMinus (List.cons.inj (List.cons.inj same).2).1

/-- An integer that is an operand has no minus sign. -/
theorem value_nonneg (operand : isOption numeral.text = false) :
    0 ≤ numeral.value := by
  obtain ⟨sign, digits, notEmpty, numeric⟩ := numeral
  obtain ⟨char, later, rfl⟩ := List.exists_cons_of_ne_nil notEmpty
  cases sign with
  | none =>
      exact Int.natCast_nonneg _
  | plus =>
      exact Int.natCast_nonneg _
  | minus =>
      contradiction

/-- An integer that is taken for an option has a minus sign. -/
theorem sign_of_option (option : isOption numeral.text = true) :
    numeral.sign = .minus := by
  obtain ⟨sign, digits, notEmpty, numeric⟩ := numeral
  obtain ⟨char, later, rfl⟩ := List.exists_cons_of_ne_nil notEmpty
  cases sign with
  | none =>
      have notMinus : char ≠ '-'.toUInt8 :=
        digit_ne (numeric char List.mem_cons_self) (by decide)
      cases later with
      | nil =>
          contradiction
      | cons =>
          exact absurd (of_decide_eq_true option) notMinus
  | plus =>
      have isMinus : '+'.toUInt8 = '-'.toUInt8 :=
        of_decide_eq_true option
      contradiction
  | minus =>
      rfl

theorem value_nonpos (option : isOption numeral.text = true) :
    numeral.value ≤ 0 := by
  rw [Numeral.value, sign_of_option option]
  exact Int.neg_nonpos_of_nonneg (Int.natCast_nonneg _)

/-- No integer that is taken for an option selects a flag. -/
theorem char_notMem_numeral
    (option : isOption numeral.text = true)
    (flag : Flag) :
    flag.char ∉ numeral.text.tail.map (recognise (ascii "nu")) := by
  intro member
  obtain ⟨char, isDigitChar, isFlag⟩ := List.mem_map.mp member
  rw [Numeral.text, sign_of_option option] at isDigitChar
  have numeric := numeral.numeric char isDigitChar
  refine digit_ne numeric ?_ (recognise_eq_iff.mp isFlag)
  cases flag with
  | nowait =>
      decide
  | undo =>
      decide

end Numerals

section Sparing

variable
  {posixlyCorrect : Bool}
  {program pathname : Word}
  {flags : List Flag}
  {operands : List Numeral}

/-- What `getopt` makes of the operands behind the pathname. -/
def scannedOperands
    (posixlyCorrect : Bool)
    (operands : List Numeral) : Scanned :=
  getopt (ascii "nu") posixlyCorrect (operands.map Numeral.text)

/-- If two words are taken, the scan goes on behind the pathname. -/
theorem scannedRest_eq
    (twoTaken :
      (scannedRest posixlyCorrect pathname operands).options.length = 2) :
    scannedRest posixlyCorrect pathname operands =
      { returned :=
          (if isOption pathname then
            pathname.tail.map (recognise (ascii "nu"))
          else
            []) ++ (scannedOperands posixlyCorrect operands).returned
        options :=
          (if isOption pathname then [pathname] else []) ++
            (scannedOperands posixlyCorrect operands).options
        operands :=
          (if isOption pathname then [] else [pathname]) ++
            (scannedOperands posixlyCorrect operands).operands } := by
  unfold scannedRest getopt at twoTaken ⊢
  split at twoTaken
  case isTrue =>
    exact absurd twoTaken (by simp)
  case isFalse goesOn =>
    rw [if_neg goesOn]
    split at twoTaken
    case isTrue option =>
      simp only [option, if_true]
      rfl
    case isFalse operand =>
      split at twoTaken
      case isTrue =>
        exact absurd twoTaken (by simp)
      case isFalse permutes =>
        simp only [operand, permutes]
        rfl

/-- If two words are taken, the last of them is an operand. -/
theorem exists_lastWord
    (program : Word)
    (flags : List Flag)
    (twoTaken :
      (scannedRest posixlyCorrect pathname operands).options.length = 2) :
    ∃ operand ∈ operands,
      isOption operand.text = true ∧
        lastWord program
            (flags.map Flag.word ++
              (scannedRest posixlyCorrect pathname operands).options) =
          operand.text := by
  have isScanned := scannedRest_eq twoTaken
  rw [isScanned, List.length_append] at twoTaken
  have notEmpty : (scannedOperands posixlyCorrect operands).options ≠ [] := by
    rintro isEmpty
    rw [isEmpty] at twoTaken
    split at twoTaken <;> simp at twoTaken
  obtain ⟨given, isEither⟩ := mem_of_mem_options (List.getLast_mem notEmpty)
  obtain ⟨operand, isOperand, isText⟩ := List.mem_map.mp given
  refine ⟨operand, isOperand, ?_, ?_⟩
  · rw [isText]
    refine isEither.resolve_left fun ends => ?_
    exact text_ne_endOfOptions operand (isText.trans ends)
  · rw [isText, isScanned, lastWord]
    simp only [← List.append_assoc, ← List.cons_append]
    exact List.getLast_append_of_ne_nil _ notEmpty

/-- If two words are taken and two are left, one of these is an operand. -/
theorem exists_operandLeft
    (twoTaken :
      (scannedRest posixlyCorrect pathname operands).options.length = 2)
    (enough :
      2 ≤ (scannedRest posixlyCorrect pathname operands).operands.length) :
    ∃ operand ∈ operands, isOption operand.text = false := by
  have noEnd : endOfOptions ∉ operands.map Numeral.text := by
    intro member
    obtain ⟨operand, -, ends⟩ := List.mem_map.mp member
    exact text_ne_endOfOptions operand ends
  rw [scannedRest_eq twoTaken, List.length_append] at enough
  have notEmpty : (scannedOperands posixlyCorrect operands).operands ≠ [] := by
    rintro isEmpty
    rw [isEmpty] at enough
    split at enough <;> simp at enough
  obtain ⟨word, given, isOperand⟩ := exists_operand noEnd notEmpty
  obtain ⟨operand, member, rfl⟩ := List.mem_map.mp given
  exact ⟨operand, member, isOperand⟩

/--
If all operands have one value, it is that of one without a minus sign and that
of one with a minus sign.
-/
theorem zeros_of_constant
    (twoTaken :
      (scannedRest posixlyCorrect pathname operands).options.length = 2)
    (enough :
      2 ≤ (scannedRest posixlyCorrect pathname operands).operands.length)
    (constant :
      ∀ operand ∈ operands, ∀ other ∈ operands,
        operand.value = other.value) :
    ∀ operand ∈ operands, operand.value = 0 := by
  obtain ⟨first, isFirst, isOperand⟩ := exists_operandLeft twoTaken enough
  obtain ⟨last, isLast, option, -⟩ := exists_lastWord [] [] twoTaken
  intro operand member
  refine le_antisymm ?_ ?_
  · rw [constant operand member last isLast]
    exact value_nonpos option
  · rw [constant operand member first isFirst]
    exact value_nonneg isOperand

/-- Only the pathname can select a flag that is not given before it. -/
theorem char_mem_returned_iff
    (twoTaken :
      (scannedRest posixlyCorrect pathname operands).options.length = 2)
    (flag : Flag) :
    flag.char ∈ (scannedRest posixlyCorrect pathname operands).returned ↔
      isOption pathname = true ∧ flag.char ∈ pathname.tail := by
  have notOperand :
      flag.char ∉ (scannedOperands posixlyCorrect operands).returned := by
    intro member
    obtain ⟨word, given, option, isReturned⟩ := exists_of_mem_returned member
    obtain ⟨operand, -, rfl⟩ := List.mem_map.mp given
    exact char_notMem_numeral option flag isReturned
  rw [scannedRest_eq twoTaken, List.mem_append, or_iff_left notOperand]
  split
  case isTrue option =>
    simp only [option, true_and, List.mem_map, recognise_eq_iff,
      exists_eq_right]
  case isFalse operand =>
    simp [operand]

/-- What is taken for options is spared by both slips. -/
theorem AskedFor.of_spared
    (spared : Spared posixlyCorrect flags pathname operands)
    {count : Nat}
    (isCount : count = operands.length) :
    AskedFor flags operands
      ((List.range count).map
        (operationOf
          (lastWord program
            (flags.map Flag.word ++
              (scannedRest posixlyCorrect pathname operands).options))
          ((flags.map Flag.char ++
            (scannedRest posixlyCorrect pathname operands).returned).foldl
              select 0))) where
  count := by
    rw [List.length_map, List.length_range, isCount]
  entries := by
    intro i operation operand isOperation isOperand
    obtain ⟨last, isLast, option, isWord⟩ :=
      exists_lastWord program flags spared.twoTaken
    rw [List.getElem?_map, Option.map_eq_some_iff] at isOperation
    obtain ⟨index, isIndex, rfl⟩ := isOperation
    obtain ⟨inside, rfl⟩ := List.getElem?_eq_some_iff.mp isIndex
    rw [List.getElem_range]
    rw [List.length_range, isCount] at inside
    refine ⟨?_, ?_, ?_⟩
    · exact UInt16.toNat_ofNat_of_lt' (lt_of_lt_of_le inside spared.numbered)
    · have isZero : atol last.text = 0 := by
        rw [last.atol_text, spared.zeros last isLast]
        rfl
      rw [spared.zeros operand (List.mem_of_getElem? isOperand), operationOf,
        isWord, atoi, isZero]
      rfl
    · refine foldl_select_eq_union_iff.mpr fun flag isReturned => ?_
      obtain ⟨option, selects⟩ :=
        (char_mem_returned_iff spared.twoTaken flag).mp isReturned
      exact spared.noOther option flag selects

/--
The operations are those that are asked for exactly on the command lines that
both slips spare.
-/
theorem semops_builds_iff
    (posixlyCorrect : Bool)
    (program : Word)
    (flags : List Flag)
    (pathname : Word)
    (operands : List Numeral) :
    BuildsOperations posixlyCorrect program flags pathname operands ↔
      Spared posixlyCorrect flags pathname operands := by
  have lengths :=
    length_scannedRest posixlyCorrect pathname operands
  rw [builds_iff]
  constructor
  · rintro ⟨enough, askedFor⟩
    have count := askedFor.count
    rw [List.length_map, List.length_range] at count
    have twoTaken :
        (scannedRest posixlyCorrect pathname operands).options.length = 2 := by
      omega
    have entry := fun i (inside : i < operands.length) =>
      askedFor.entries i _ operands[i]
        (by rw [List.getElem?_map, List.getElem?_range (by omega)]; rfl)
        (List.getElem?_eq_getElem inside)
    refine
      { twoTaken := twoTaken
        noOther := fun option flag selects => ?_
        zeros := zeros_of_constant twoTaken enough ?_
        several := by omega
        numbered := ?_ }
    · exact
        foldl_select_eq_union_iff.mp (entry 0 (by omega)).2.2 flag
          ((char_mem_returned_iff twoTaken flag).mpr ⟨option, selects⟩)
    · intro operand member other otherMember
      obtain ⟨i, inside, rfl⟩ := List.getElem_of_mem member
      obtain ⟨j, otherInside, rfl⟩ := List.getElem_of_mem otherMember
      exact (entry i inside).2.1.symm.trans (entry j otherInside).2.1
    · have isNumbered := (entry (operands.length - 1) (by omega)).1
      have small := UInt16.toNat_lt (.ofNat (operands.length - 1))
      have isIndex :
          (UInt16.ofNat (operands.length - 1)).toNat =
            operands.length - 1 := isNumbered
      omega
  · intro spared
    have several := spared.several
    have taken := spared.twoTaken
    rw [← scannedRest] at taken
    exact ⟨by omega, .of_spared spared (by omega)⟩

end Sparing

/-- `semops f 1`: three operations of value 0 where one of value 1 is due. -/
theorem semops_single :
    ¬ BuildsOperations false (ascii "semops") [] (ascii "f")
      [{ sign := .none
         digits := ['1'.toUInt8]
         notEmpty := List.cons_ne_nil _ _
         numeric := List.forall_mem_singleton.mpr rfl }] := by
  intro builds
  have count := (builds_iff.mp builds).2.count
  rw [List.length_map, List.length_range] at count
  exact absurd count (by decide)

end CsPrimer.SvSem
