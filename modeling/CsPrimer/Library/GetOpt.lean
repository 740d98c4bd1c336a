import CsPrimer.Library.CString

namespace CsPrimer.Library

/-!
# Command lines

Successive calls of `getopt` return the option characters of a command line and
leave the words in an order in which its options stand before its operands.  A
word is an option if something follows the `-` it starts with; `--` ends the
options.  With `POSIXLY_CORRECT` the first operand does as well.  The options
here have no arguments.
-/

/-- A word of a command line, without its NUL. -/
abbrev Word := List UInt8

/-- The word that ends the options. -/
def endOfOptions : Word := ascii "--"

/-- A word is an option if something follows its `-`. -/
def isOption : Word → Bool
  | first :: _ :: _ => first = '-'.toUInt8
  | _ => false

/-- What `getopt` returns for an option character. -/
def recognise
    (optstring : List UInt8)
    (char : UInt8) : UInt8 :=
  if char ∈ optstring then
    char
  else
    '?'.toUInt8

/-- What has been returned before the -1, and how the words are left. -/
structure Scanned where
  returned : List UInt8
  options : List Word
  operands : List Word
  deriving Repr, DecidableEq

/-- Successive calls of `getopt`, up to the one that returns -1. -/
def getopt
    (optstring : List UInt8)
    (posixlyCorrect : Bool) : List Word → Scanned
  | [] =>
      { returned := [], options := [], operands := [] }
  | word :: ahead =>
      if word = endOfOptions then
        { returned := [], options := [word], operands := ahead }
      else if isOption word then
        let scanned := getopt optstring posixlyCorrect ahead
        { scanned with
          returned :=
            word.tail.map (recognise optstring) ++ scanned.returned
          options := word :: scanned.options }
      else if posixlyCorrect then
        { returned := [], options := [], operands := word :: ahead }
      else
        let scanned := getopt optstring posixlyCorrect ahead
        { scanned with operands := word :: scanned.operands }

variable
  {optstring : List UInt8}
  {posixlyCorrect : Bool}
  {words front ahead : List Word}
  {word : Word}

/-- No word is lost. -/
theorem length_options_add_length_operands :
    (getopt optstring posixlyCorrect words).options.length +
        (getopt optstring posixlyCorrect words).operands.length =
      words.length := by
  induction words with
  | nil =>
      rfl
  | cons word ahead inductionHypothesis =>
      unfold getopt
      split
      · simp [Nat.add_comm]
      · split
        · simp only [List.length_cons]
          omega
        · split
          · simp
          · simp only [List.length_cons]
            omega

/-- An option is returned character by character. -/
theorem getopt_option
    (goesOn : word ≠ endOfOptions)
    (option : isOption word = true) :
    getopt optstring posixlyCorrect (word :: ahead) =
      { returned :=
          word.tail.map (recognise optstring) ++
            (getopt optstring posixlyCorrect ahead).returned
        options := word :: (getopt optstring posixlyCorrect ahead).options
        operands := (getopt optstring posixlyCorrect ahead).operands } := by
  rw [getopt, if_neg goesOn, if_pos option]

/-- Options in front are scanned first. -/
theorem getopt_append
    (goOn : ∀ word ∈ front, word ≠ endOfOptions ∧ isOption word = true) :
    getopt optstring posixlyCorrect (front ++ ahead) =
      { returned :=
          front.flatMap (fun word => word.tail.map (recognise optstring)) ++
            (getopt optstring posixlyCorrect ahead).returned
        options := front ++ (getopt optstring posixlyCorrect ahead).options
        operands := (getopt optstring posixlyCorrect ahead).operands } := by
  induction front with
  | nil =>
      rfl
  | cons word front inductionHypothesis =>
      obtain ⟨goesOn, option⟩ := goOn word List.mem_cons_self
      have later :=
        inductionHypothesis fun other member =>
          goOn other (List.mem_cons_of_mem word member)
      rw [List.cons_append, getopt_option goesOn option, later,
        List.flatMap_cons, List.append_assoc]
      rfl

/-- What stands before the operands has been given. -/
theorem mem_of_mem_options
    (member : word ∈ (getopt optstring posixlyCorrect words).options) :
    word ∈ words ∧ (word = endOfOptions ∨ isOption word = true) := by
  induction words with
  | nil =>
      contradiction
  | cons first ahead inductionHypothesis =>
      unfold getopt at member
      split at member
      case isTrue ends =>
        obtain rfl := List.mem_singleton.mp member
        exact ⟨List.mem_cons_self, Or.inl ends⟩
      case isFalse =>
        split at member
        case isTrue option =>
          rcases List.mem_cons.mp member with rfl | later
          · exact ⟨List.mem_cons_self, Or.inr option⟩
          · obtain ⟨given, isEither⟩ := inductionHypothesis later
            exact ⟨List.mem_cons_of_mem _ given, isEither⟩
        case isFalse =>
          split at member
          case isTrue =>
            contradiction
          case isFalse =>
            obtain ⟨given, isEither⟩ := inductionHypothesis member
            exact ⟨List.mem_cons_of_mem _ given, isEither⟩

/-- Without `--` the first of the operands is no option. -/
theorem exists_operand
    (noEnd : endOfOptions ∉ words)
    (operands : (getopt optstring posixlyCorrect words).operands ≠ []) :
    ∃ word ∈ words, isOption word = false := by
  induction words with
  | nil =>
      exact absurd rfl operands
  | cons first ahead inductionHypothesis =>
      by_cases option : isOption first = true
      · have goesOn : first ≠ endOfOptions := fun ends =>
          noEnd (ends ▸ List.mem_cons_self)
        rw [getopt_option goesOn option] at operands
        obtain ⟨word, given, isOperand⟩ :=
          inductionHypothesis
            (fun member => noEnd (List.mem_cons_of_mem first member)) operands
        exact ⟨word, List.mem_cons_of_mem first given, isOperand⟩
      · exact ⟨first, List.mem_cons_self, eq_false_of_ne_true option⟩

/-- Only option characters of words that are given are returned. -/
theorem exists_of_mem_returned
    {char : UInt8}
    (member : char ∈ (getopt optstring posixlyCorrect words).returned) :
    ∃ word ∈ words, isOption word = true ∧
      char ∈ word.tail.map (recognise optstring) := by
  induction words with
  | nil =>
      contradiction
  | cons first ahead inductionHypothesis =>
      unfold getopt at member
      split at member
      case isTrue =>
        contradiction
      case isFalse =>
        split at member
        case isTrue option =>
          rcases List.mem_append.mp member with isOwn | later
          · exact ⟨first, List.mem_cons_self, option, isOwn⟩
          · obtain ⟨word, given, isReturned⟩ := inductionHypothesis later
            exact ⟨word, List.mem_cons_of_mem first given, isReturned⟩
        case isFalse =>
          split at member
          case isTrue =>
            contradiction
          case isFalse =>
            obtain ⟨word, given, isReturned⟩ := inductionHypothesis member
            exact ⟨word, List.mem_cons_of_mem first given, isReturned⟩

end CsPrimer.Library
