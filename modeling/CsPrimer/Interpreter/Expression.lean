import CsPrimer.Library.CInt
import CsPrimer.Library.HeapTree

namespace CsPrimer.Interpreter

open Library

/-!
# Building, interpreting and releasing expressions

`Analyse` allocates the nodes of an expression and keeps their addresses on a
stack, `Interpret` evaluates an expression in an environment, and `Release`
deletes it.  The index into the string is an `int`.  The order in which the
operands of `+` and `-` are evaluated is not specified, so it is an argument.
-/

/-- What sets `AddExpression` and `SubExpression` apart. -/
inductive Operator where
  | plus
  | minus
  deriving Repr, DecidableEq

namespace Operator

/-- The character of an operator. -/
def char : Operator → UInt8
  | plus => '+'.toUInt8
  | minus => '-'.toUInt8

/-- The operation on exact integers. -/
def apply : Operator → Int → Int → Int
  | plus => (· + ·)
  | minus => (· - ·)

end Operator

/-- The operator with a character. -/
def operator? (char : UInt8) : Option Operator :=
  if char = '+'.toUInt8 then
    some .plus
  else if char = '-'.toUInt8 then
    some .minus
  else
    none

/-- A node: a `VarExpression` or a `SymbolExpression`. -/
abbrev Expression : Type :=
  TreeNode UInt8 Operator

/-- The nodes that have been allocated, and holes for those deleted. -/
abbrev Memory : Type :=
  Heap UInt8 Operator

/-- `VarExpression(key)`. -/
@[match_pattern]
abbrev varExpression (key : UInt8) : Expression :=
  .leaf key

/-- `AddExpression(left, right)`. -/
@[match_pattern]
abbrev addExpression (left right : Nat) : Expression :=
  .branch .plus left right

/-- `SubExpression(left, right)`. -/
@[match_pattern]
abbrev subExpression (left right : Nat) : Expression :=
  .branch .minus left right

/-- What has no defined outcome. -/
inductive Fault where
  /-- `top()` of an empty stack. -/
  | top
  /-- An index of the string behind its terminator. -/
  | index
  /-- An index that is no `int`. -/
  | overflow
  deriving Repr, DecidableEq

section Analyse

/-- The nodes, and the stack with its top first. -/
structure Analysis where
  memory : Memory
  expStack : List Nat
  deriving Repr, DecidableEq

/-- `exp_stack.top()`. -/
def top : List Nat → Except Fault Nat
  | [] => .error .top
  | exp :: _ => .ok exp

/-- `exp_str[i]`; the element behind the last one is NUL. -/
def charAt (expStr : List UInt8) (i : Int32) : Except Fault UInt8 :=
  if i.toInt < 0 ∨ expStr.length < i.toInt then
    .error .index
  else
    .ok (expStr.getD i.toInt.toNat 0)

/-- `++i`. -/
def increment (i : Int32) : Except Fault Int32 :=
  match int? (i.toInt + 1) with
  | none => .error .overflow
  | some next => .ok next

/-- `exp_stack.push(new ...)`. -/
def push (analysis : Analysis) (exp : Expression) : Analysis where
  memory := analysis.memory ++ [some exp]
  expStack := analysis.memory.length :: analysis.expStack

/--
The cases of `switch(exp_str[i])` for an operator: the character behind it is
the right operand.
-/
def analyseSymbol
    (expStr : List UInt8)
    (i : Int32)
    (analysis : Analysis)
    (symbolExpression : Nat → Nat → Expression) :
    Except Fault (Int32 × Analysis) := do
  let left ← top analysis.expStack
  let i ← increment i
  let key ← charAt expStr i
  let right := analysis.memory.length
  let memory := analysis.memory ++ [some (varExpression key)]
  .ok (i, push { analysis with memory := memory } (symbolExpression left right))

/-- `switch(exp_str[i])`. -/
def analyseChar
    (expStr : List UInt8)
    (i : Int32)
    (analysis : Analysis) :
    Except Fault (Int32 × Analysis) := do
  let char ← charAt expStr i
  if char = '+'.toUInt8 then
    analyseSymbol expStr i analysis addExpression
  else if char = '-'.toUInt8 then
    analyseSymbol expStr i analysis subExpression
  else
    .ok (i, push analysis (varExpression char))

/-- A computation succeeds if both of its parts do. -/
theorem bind_eq_ok
    {α β : Type}
    {first : Except Fault α}
    {second : α → Except Fault β}
    {result : β} :
    (first >>= second) = .ok result ↔
      ∃ value, first = .ok value ∧ second value = .ok result := by
  cases first with
  | error fault => exact ⟨nofun, nofun⟩
  | ok value => exact ⟨fun isResult => ⟨value, rfl, isResult⟩,
      fun ⟨_, isValue, isResult⟩ => by cases isValue; exact isResult⟩

theorem toInt_of_increment
    {i next : Int32}
    (incremented : increment i = .ok next) :
    next.toInt = i.toInt + 1 := by
  unfold increment at incremented
  split at incremented
  · cases incremented
  · next isNext =>
    cases incremented
    exact (int?_eq_some_iff.mp isNext).2

theorem le_of_analyseSymbol
    {expStr : List UInt8}
    {i last : Int32}
    {analysis later : Analysis}
    {symbolExpression : Nat → Nat → Expression}
    (analysed :
      analyseSymbol expStr i analysis symbolExpression =
        .ok (last, later)) :
    i.toInt ≤ last.toInt := by
  simp only [analyseSymbol, bind_eq_ok] at analysed
  obtain ⟨left, -, next, incremented, key, -, isLast⟩ := analysed
  cases isLast
  rw [toInt_of_increment incremented]
  exact Int.le_add_one (Int.le_refl _)

/-- The index only moves forward. -/
theorem le_of_analyseChar
    {expStr : List UInt8}
    {i last : Int32}
    {analysis later : Analysis}
    (analysed : analyseChar expStr i analysis = .ok (last, later)) :
    i.toInt ≤ last.toInt := by
  simp only [analyseChar, bind_eq_ok] at analysed
  obtain ⟨char, -, analysed⟩ := analysed
  split at analysed
  · exact le_of_analyseSymbol analysed
  · split at analysed
    · exact le_of_analyseSymbol analysed
    · cases analysed
      exact Int.le_refl _

/-- `for (int i = 0; i < exp_str.size(); ++i)`, from an index on. -/
def analyseLoop
    (expStr : List UInt8)
    (i : Int32)
    (analysis : Analysis) :
    Except Fault Analysis :=
  if inside : i.toInt < expStr.length then
    match analysed : analyseChar expStr i analysis with
    | .error fault => .error fault
    | .ok (last, analysis) =>
        match incremented : increment last with
        | .error fault => .error fault
        | .ok next => analyseLoop expStr next analysis
  else
    .ok analysis
termination_by (expStr.length - i.toInt).toNat
decreasing_by
  have forward := le_of_analyseChar analysed
  have isNext := toInt_of_increment incremented
  omega

/-- `Analyse`. -/
def analyse
    (memory : Memory)
    (expStr : List UInt8) :
    Except Fault (Memory × Nat) := do
  let analysis ← analyseLoop expStr 0 { memory := memory, expStack := [] }
  let exp ← top analysis.expStack
  .ok (analysis.memory, exp)

end Analyse

section Interpret

/-- `std::unordered_map<char, int>`. -/
abbrev Variables : Type :=
  UInt8 → Option Int32

/-- `var[key]`, which binds a key that is not bound to 0. -/
def subscript (var : Variables) (key : UInt8) : Int32 × Variables :=
  match var key with
  | some value => (value, var)
  | none => (0, fun name => if name = key then some 0 else var name)

/--
`Interpret`, for a depth of calls.  An operation that overflows and a node that
has been deleted have no outcome.
-/
def interpret
    (leftFirst : Nat → Bool)
    (memory : Memory) :
    Nat → Nat → Variables → Option (Int32 × Variables)
  | 0, _, _ =>
      none
  | depth + 1, exp, var =>
      match memory.node? exp with
      | none =>
          none
      | some (.leaf key) =>
          some (subscript var key)
      | some (.branch operator left right) => do
          let ((lhs, rhs), var) ←
            if leftFirst exp then do
              let (lhs, var) ← interpret leftFirst memory depth left var
              let (rhs, var) ← interpret leftFirst memory depth right var
              some ((lhs, rhs), var)
            else do
              let (rhs, var) ← interpret leftFirst memory depth right var
              let (lhs, var) ← interpret leftFirst memory depth left var
              some ((lhs, rhs), var)
          let result ← int? (operator.apply lhs.toInt rhs.toInt)
          some (result, var)

end Interpret

section Release

/-- `delete` of a node that has not been deleted. -/
def delete (memory : Memory) (exp : Nat) : Option Memory :=
  (memory.node? exp).map fun _ => memory.delete exp

/-- `p->right()`. -/
def right? (memory : Memory) (exp : Nat) : Option Nat :=
  match memory.node? exp with
  | some (.branch _ _ right) => some right
  | _ => none

/-- `Release`, for a depth of calls. -/
def release : Nat → Memory → Option Nat → Option Memory
  | 0, _, _ =>
      none
  | _ + 1, memory, none =>
      some memory
  | depth + 1, memory, some exp =>
      match memory.node? exp with
      | none =>
          none
      | some (.leaf _) =>
          delete memory exp
      | some (.branch _ left _) => do
          let memory ← release depth memory (some left)
          let right ← right? memory exp
          let memory ← release depth memory (some right)
          delete memory exp

end Release

end CsPrimer.Interpreter
