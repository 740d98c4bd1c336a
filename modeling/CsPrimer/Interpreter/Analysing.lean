import Mathlib.Algebra.GroupWithZero.Nat
import CsPrimer.Interpreter.Expression

namespace CsPrimer.Interpreter

open Library

/-!
# What `Analyse` builds

A string is read as a sequence of items: an operand of its own, or an operator
with the character behind it, which is the terminator if the operator comes
last.  With something on the stack every item can be placed, and only the
index limits the length of the string.
-/

/-- What one iteration of the loop reads. -/
inductive Item where
  | operand (key : UInt8)
  | pair (operator : Operator) (key : UInt8)
  deriving Repr, DecidableEq

/-- The items of a string. -/
def items : List UInt8 → List Item
  | [] => []
  | char :: rest =>
      match operator? char, rest with
      | none, rest => .operand char :: items rest
      | some operator, [] => [.pair operator 0]
      | some operator, key :: rest => .pair operator key :: items rest

/-- The last item is an operator without an operand. -/
def lacksOperand : List UInt8 → Bool
  | [] => false
  | char :: rest =>
      match operator? char, rest with
      | none, rest => lacksOperand rest
      | some _, [] => true
      | some _, _ :: rest => lacksOperand rest

/-- One iteration of the loop, with something on the stack. -/
def place (analysis : Analysis) : Item → Analysis
  | .operand key =>
      push analysis (varExpression key)
  | .pair operator key =>
      push
        { analysis with
          memory := analysis.memory ++ [some (varExpression key)] }
        (.branch operator (analysis.expStack.headD 0)
          analysis.memory.length)

theorem place_nonempty
    (analysis : Analysis)
    (item : Item) :
    (place analysis item).expStack ≠ [] := by
  cases item with
  | operand key => exact List.cons_ne_nil _ _
  | pair operator key => exact List.cons_ne_nil _ _

variable
  {expStr before rest : List UInt8}
  {char key : UInt8}
  {operator : Operator}
  {i : Int32}
  {analysis : Analysis}

/-- The index of the terminator, or one more if that has been read. -/
def lastIndex (expStr : List UInt8) : Nat :=
  expStr.length + (lacksOperand expStr).toNat

theorem lastIndex_operand
    (isOperand : operator? char = none) :
    lastIndex (char :: rest) = lastIndex rest + 1 := by
  simp only [lastIndex, lacksOperand, isOperand, List.length_cons]
  omega

theorem lastIndex_pair
    (isOperator : operator? char = some operator) :
    lastIndex (char :: key :: rest) = lastIndex rest + 2 := by
  have sameLack :
      lacksOperand (char :: key :: rest) = lacksOperand rest := by
    rw [lacksOperand.eq_def]
    simp only [isOperator]
  rw [lastIndex, lastIndex, sameLack, List.length_cons, List.length_cons]
  omega

theorem lastIndex_last
    (isOperator : operator? char = some operator) :
    lastIndex [char] = 2 := by
  have isLack : lacksOperand [char] = true := by
    rw [lacksOperand.eq_def]
    simp only [isOperator]
  rw [lastIndex, isLack]
  rfl

theorem ok_bind
    {α β : Type}
    (value : α)
    (next : α → Except Fault β) :
    Except.bind (.ok value) next = next value :=
  rfl

theorem charAt_inside
    (split : expStr = before ++ char :: rest)
    (isIndex : i.toInt = before.length) :
    charAt expStr i = .ok char := by
  have isLength := congrArg List.length split
  rw [List.length_append, List.length_cons] at isLength
  rw [charAt, if_neg (by omega), isIndex, Int.toNat_natCast, split]
  simp

theorem charAt_terminator
    (isIndex : i.toInt = expStr.length) :
    charAt expStr i = .ok 0 := by
  rw [charAt, if_neg (by omega), isIndex, Int.toNat_natCast]
  simp

theorem exists_increment
    (nonneg : 0 ≤ i.toInt)
    (fits : i.toInt + 1 < 2 ^ 31) :
    ∃ next, increment i = .ok next ∧ next.toInt = i.toInt + 1 := by
  have isInt : Fits (i.toInt + 1) := ⟨by omega, fits⟩
  refine ⟨.ofInt (i.toInt + 1), ?_,
    Int32.toInt_ofInt_of_le isInt.1 isInt.2⟩
  rw [increment, int?, if_pos isInt]

theorem increment_overflows
    (overflows : 2 ^ 31 ≤ i.toInt + 1) :
    increment i = .error .overflow := by
  have noInt : ¬ Fits (i.toInt + 1) :=
    fun fits => absurd fits.2 (Int.not_lt.mpr overflows)
  rw [increment, int?, if_neg noInt]

theorem operator?_cases (char : UInt8) :
    operator? char = some .plus ∧ char = '+'.toUInt8 ∨
      operator? char = some .minus ∧ char = '-'.toUInt8 ∨
      operator? char = none ∧ char ≠ '+'.toUInt8 ∧
        char ≠ '-'.toUInt8 := by
  unfold operator?
  by_cases isPlus : char = '+'.toUInt8
  · simp [isPlus]
  · by_cases isMinus : char = '-'.toUInt8
    · exact .inr (.inl ⟨by rw [if_neg isPlus, if_pos isMinus], isMinus⟩)
    · simp [isPlus, isMinus]

/-- The two cases for an operator differ in the node that they allocate. -/
theorem analyseChar_symbol
    (isChar : charAt expStr i = .ok char)
    (isOperator : operator? char = some operator) :
    analyseChar expStr i analysis =
      analyseSymbol expStr i analysis (.branch operator) := by
  rw [analyseChar, isChar]
  rcases operator?_cases char with
    ⟨isPlus, rfl⟩ | ⟨isMinus, rfl⟩ | ⟨isOperand, -⟩
  · cases isPlus.symm.trans isOperator
    rfl
  · cases isMinus.symm.trans isOperator
    rfl
  · cases isOperand.symm.trans isOperator

theorem analyseChar_operand
    (isChar : charAt expStr i = .ok char)
    (isOperand : operator? char = none) :
    analyseChar expStr i analysis =
      .ok (i, place analysis (.operand char)) := by
  rw [analyseChar, isChar]
  rcases operator?_cases char with
    ⟨isPlus, -⟩ | ⟨isMinus, -⟩ | ⟨-, notPlus, notMinus⟩
  · cases isPlus.symm.trans isOperand
  · cases isMinus.symm.trans isOperand
  · change (if char = '+'.toUInt8 then _ else if char = '-'.toUInt8 then _
      else _) = _
    rw [if_neg notPlus, if_neg notMinus]
    rfl

/-- The right operand is read and allocated before the operator's node. -/
theorem analyseSymbol_eq
    (i : Int32)
    (operator : Operator)
    (nonempty : analysis.expStack ≠ []) :
    analyseSymbol expStr i analysis (.branch operator) =
      (increment i).bind fun next =>
        (charAt expStr next).bind fun key =>
          .ok (next, place analysis (.pair operator key)) := by
  obtain ⟨left, below, isStack⟩ := List.exists_cons_of_ne_nil nonempty
  simp only [analyseSymbol, place, isStack, List.headD_cons]
  rfl

theorem analyseLoop_of_lt
    (inside : i.toInt < expStr.length) :
    analyseLoop expStr i analysis =
      (analyseChar expStr i analysis).bind fun analysed =>
        (increment analysed.1).bind fun next =>
          analyseLoop expStr next analysed.2 := by
  rw [analyseLoop, dif_pos inside]
  split
  · next fault isFault =>
    rw [isFault]
    rfl
  · next last later analysed =>
    rw [analysed, ok_bind]
    split
    · next fault isFault =>
      rw [isFault]
      rfl
    · next next incremented =>
      rw [incremented]
      rfl

theorem analyseLoop_of_le
    (done : expStr.length ≤ i.toInt) :
    analyseLoop expStr i analysis = .ok analysis := by
  rw [analyseLoop, dif_neg (Int.not_lt.mpr done)]

/-- An iteration that reads an operand. -/
theorem analyseLoop_operand
    (analysis : Analysis)
    (split : expStr = before ++ char :: rest)
    (isIndex : i.toInt = before.length)
    (isOperand : operator? char = none) :
    (before.length + 1 < 2 ^ 31 →
      ∃ next : Int32,
        next.toInt = (before.length + 1 : Nat) ∧
          analyseLoop expStr i analysis =
            analyseLoop expStr next (place analysis (.operand char))) ∧
      (2 ^ 31 ≤ before.length + 1 →
        analyseLoop expStr i analysis = .error .overflow) := by
  have isLength := congrArg List.length split
  rw [List.length_append, List.length_cons] at isLength
  have isChar := charAt_inside split isIndex
  rw [analyseLoop_of_lt (by omega), analyseChar_operand isChar isOperand]
  rw [ok_bind]
  constructor
  · intro fits
    obtain ⟨next, incremented, isNext⟩ :=
      exists_increment (by omega : 0 ≤ i.toInt) (by omega)
    exact ⟨next, by omega, by rw [incremented, ok_bind]⟩
  · intro overflows
    rw [increment_overflows (by omega : 2 ^ 31 ≤ i.toInt + 1)]
    rfl

/-- An iteration that reads an operator and what stands behind it. -/
theorem analyseLoop_pair
    (split : expStr = before ++ char :: rest)
    (isIndex : i.toInt = before.length)
    (isOperator : operator? char = some operator)
    (nonempty : analysis.expStack ≠ [])
    (isKey :
      ∀ next : Int32, next.toInt = before.length + 1 →
        charAt expStr next = .ok key) :
    (before.length + 2 < 2 ^ 31 →
      ∃ next : Int32,
        next.toInt = (before.length + 2 : Nat) ∧
          analyseLoop expStr i analysis =
            analyseLoop expStr next (place analysis (.pair operator key))) ∧
      (2 ^ 31 ≤ before.length + 2 →
        analyseLoop expStr i analysis = .error .overflow) := by
  have isLength := congrArg List.length split
  rw [List.length_append, List.length_cons] at isLength
  have isChar := charAt_inside split isIndex
  rw [analyseLoop_of_lt (by omega), analyseChar_symbol isChar isOperator,
    analyseSymbol_eq i operator nonempty]
  by_cases first : before.length + 1 < 2 ^ 31
  · obtain ⟨middle, incremented, isMiddle⟩ :=
      exists_increment (by omega : 0 ≤ i.toInt) (by omega)
    rw [incremented, ok_bind, isKey middle (by omega), ok_bind, ok_bind]
    constructor
    · intro fits
      obtain ⟨next, again, isNext⟩ :=
        exists_increment (by omega : 0 ≤ middle.toInt) (by omega)
      exact ⟨next, by omega, by rw [again, ok_bind]⟩
    · intro overflows
      rw [increment_overflows (by omega : 2 ^ 31 ≤ middle.toInt + 1)]
      rfl
  · rw [increment_overflows (by omega : 2 ^ 31 ≤ i.toInt + 1)]
    exact ⟨fun fits => by omega, fun _ => rfl⟩

/-- The loop places the items, if the index stays an `int`. -/
theorem analyseLoop_eq
    (split : expStr = before ++ rest)
    (isIndex : i.toInt = before.length)
    (nonempty : analysis.expStack ≠ []) :
    analyseLoop expStr i analysis =
      if before.length + lastIndex rest < 2 ^ 31 then
        .ok ((items rest).foldl place analysis)
      else
        .error .overflow := by
  fun_induction items rest generalizing before i analysis with
  | case1 =>
      rw [List.append_nil] at split
      have bound := i.toInt_lt
      have done : (expStr.length : Int) ≤ i.toInt :=
        Int.le_of_eq (by rw [split, isIndex])
      have fits : before.length + lastIndex [] < 2 ^ 31 := by
        change before.length + 0 < 2 ^ 31
        omega
      rw [analyseLoop_of_le done, if_pos fits]
      rfl
  | case2 char rest isOperand inductionHypothesis =>
      obtain ⟨goesOn, overflows⟩ :=
        analyseLoop_operand analysis split isIndex isOperand
      rw [lastIndex_operand isOperand]
      by_cases fits : before.length + 1 < 2 ^ 31
      · obtain ⟨next, isNext, taken⟩ := goesOn fits
        have splitNext := split.trans (List.append_cons before char rest)
        have isLength : (before ++ [char]).length = before.length + 1 :=
          List.length_append
        have placed :=
          inductionHypothesis splitNext (isLength ▸ isNext)
            (place_nonempty analysis (.operand char))
        rw [taken, placed, isLength, Nat.add_assoc, Nat.add_comm 1]
        rfl
      · rw [overflows (Nat.not_lt.mp fits), if_neg (by omega)]
  | case3 char operator isOperator =>
      have isLength := congrArg List.length split
      rw [List.length_append, List.length_singleton] at isLength
      have isKey :
          ∀ next : Int32, next.toInt = before.length + 1 →
            charAt expStr next = .ok 0 :=
        fun next isNext => charAt_terminator (by omega)
      obtain ⟨goesOn, overflows⟩ :=
        analyseLoop_pair split isIndex isOperator nonempty isKey
      rw [lastIndex_last isOperator]
      by_cases fits : before.length + 2 < 2 ^ 31
      · obtain ⟨next, isNext, taken⟩ := goesOn fits
        rw [taken, analyseLoop_of_le (by omega), if_pos fits]
        rfl
      · rw [overflows (Nat.not_lt.mp fits), if_neg fits]
  | case4 char operator key rest isOperator inductionHypothesis =>
      have splitKey := split.trans (List.append_cons before char (key :: rest))
      have isLength : (before ++ [char]).length = before.length + 1 :=
        List.length_append
      have isKey :
          ∀ next : Int32, next.toInt = before.length + 1 →
            charAt expStr next = .ok key :=
        fun next isNext => charAt_inside splitKey (isLength ▸ isNext)
      obtain ⟨goesOn, overflows⟩ :=
        analyseLoop_pair split isIndex isOperator nonempty isKey
      rw [lastIndex_pair isOperator]
      by_cases fits : before.length + 2 < 2 ^ 31
      · obtain ⟨next, isNext, taken⟩ := goesOn fits
        have splitNext :=
          splitKey.trans (List.append_cons (before ++ [char]) key rest)
        have isNextLength :
            (before ++ [char] ++ [key]).length = before.length + 2 := by
          rw [List.length_append, isLength]
          rfl
        have placed :=
          inductionHypothesis splitNext (isNextLength ▸ isNext)
            (place_nonempty analysis (.pair operator key))
        rw [taken, placed, isNextLength, Nat.add_assoc, Nat.add_comm 2]
        rfl
      · rw [overflows (Nat.not_lt.mp fits), if_neg (by omega)]

/-- The nodes and the stack behind the items of a string. -/
def placed (memory : Memory) (expStr : List UInt8) : Analysis :=
  (items expStr).foldl place { memory := memory, expStack := [] }

theorem foldl_place_nonempty
    (more : List Item)
    (nonempty : analysis.expStack ≠ []) :
    (more.foldl place analysis).expStack ≠ [] := by
  induction more generalizing analysis with
  | nil =>
      exact nonempty
  | cons item more inductionHypothesis =>
      exact inductionHypothesis (place_nonempty analysis item)

theorem items_operand
    (isOperand : operator? char = none) :
    items (char :: rest) = .operand char :: items rest := by
  rw [items.eq_def]
  simp only [isOperand]

theorem top_eq
    {stack : List Nat}
    (nonempty : stack ≠ []) :
    top stack = .ok (stack.headD 0) := by
  obtain ⟨exp, below, rfl⟩ := List.exists_cons_of_ne_nil nonempty
  rfl

/-- `Analyse` of a string that starts with an operand. -/
theorem analyse_eq
    (memory : Memory)
    (rest : List UInt8)
    (isOperand : operator? char = none) :
    analyse memory (char :: rest) =
      if lastIndex (char :: rest) < 2 ^ 31 then
        .ok ((placed memory (char :: rest)).memory,
          (placed memory (char :: rest)).expStack.headD 0)
      else
        .error .overflow := by
  have split : char :: rest = [] ++ char :: rest := rfl
  obtain ⟨goesOn, -⟩ :=
    analyseLoop_operand { memory := memory, expStack := [] } split
      (rfl : (0 : Int32).toInt = _) isOperand
  obtain ⟨next, isNext, taken⟩ := goesOn (by decide)
  have first :=
    place_nonempty { memory := memory, expStack := [] } (.operand char)
  have looped :=
    analyseLoop_eq (split.trans (List.append_cons [] char rest)) isNext first
  have isPlaced :
      (items rest).foldl place
          (place { memory := memory, expStack := [] } (.operand char)) =
        placed memory (char :: rest) := by
    rw [placed, items_operand isOperand, List.foldl_cons]
  have isStack := foldl_place_nonempty (items rest) first
  rw [isPlaced] at looped isStack
  have isAnalyse :
      analyse memory (char :: rest) =
        (analyseLoop (char :: rest) 0
            { memory := memory, expStack := [] }).bind fun analysis =>
          (top analysis.expStack).bind fun exp =>
            .ok (analysis.memory, exp) := rfl
  rw [isAnalyse, taken, looped, lastIndex_operand isOperand,
    List.length_append, List.length_singleton, List.length_nil,
    Nat.zero_add, Nat.add_comm 1]
  split
  · rw [ok_bind, top_eq isStack, ok_bind]
  · rfl

/-- The tree that a chain of pairs makes of a tree. -/
def chain
    (tree : LabelledTree UInt8 Operator)
    (pairs : List (Operator × UInt8)) : LabelledTree UInt8 Operator :=
  pairs.foldl
    (fun tree pair => .branch pair.1 tree (.leaf pair.2))
    tree

/-- The pair as an item. -/
def Item.ofPair (pair : Operator × UInt8) : Item :=
  .pair pair.1 pair.2

variable
  {tree : LabelledTree UInt8 Operator}
  {addresses : List Nat}

/-- The number of nodes that an item is made of. -/
def Item.size : Item → Nat
  | .operand _ => 1
  | .pair _ _ => 2

theorem length_place
    (analysis : Analysis)
    (item : Item) :
    (place analysis item).memory.length =
      analysis.memory.length + item.size := by
  cases item with
  | operand key => simp [place, push, Item.size]
  | pair operator key => simp [place, push, Item.size]

theorem length_foldl_place
    (analysis : Analysis)
    (more : List Item) :
    (more.foldl place analysis).memory.length =
      analysis.memory.length + (more.map Item.size).sum := by
  induction more generalizing analysis with
  | nil =>
      rfl
  | cons item more inductionHypothesis =>
      rw [List.foldl_cons, inductionHypothesis, length_place, List.map_cons,
        List.sum_cons, Nat.add_assoc]

/-- An operand is a tree of its own at the top of the stack. -/
theorem place_operand_treeAt
    (analysis : Analysis)
    (key : UInt8) :
    Heap.TreeAt (place analysis (.operand key)).memory
      ((place analysis (.operand key)).expStack.headD 0)
      (.leaf key) [analysis.memory.length] :=
  .leaf Heap.node?_concat

/-- A pair puts two nodes on top of the tree at the top of the stack. -/
theorem place_pair_treeAt
    (pair : Operator × UInt8)
    (isTree :
      Heap.TreeAt analysis.memory (analysis.expStack.headD 0) tree
        addresses) :
    Heap.TreeAt (place analysis (.ofPair pair)).memory
      ((place analysis (.ofPair pair)).expStack.headD 0)
      (.branch pair.1 tree (.leaf pair.2))
      (addresses ++ List.range' analysis.memory.length 2) := by
  have rightAt :
      Heap.TreeAt (analysis.memory ++ [some (varExpression pair.2)])
        analysis.memory.length (.leaf pair.2) [analysis.memory.length] :=
    .leaf Heap.node?_concat
  have isRange :
      List.range' analysis.memory.length 2 =
        [analysis.memory.length] ++
          [(analysis.memory ++ [some (varExpression pair.2)]).length] := by
    rw [List.length_append]
    rfl
  rw [isRange, ← List.append_assoc]
  exact .branch Heap.node?_concat
    ((isTree.append [some (varExpression pair.2)]).append _)
    (rightAt.append [some (.branch pair.1 (analysis.expStack.headD 0)
      analysis.memory.length)])

/-- A chain of pairs makes a tree of the tree at the top of the stack. -/
theorem foldl_place_treeAt
    (pairs : List (Operator × UInt8))
    (isTree :
      Heap.TreeAt analysis.memory (analysis.expStack.headD 0) tree
        addresses) :
    Heap.TreeAt ((pairs.map .ofPair).foldl place analysis).memory
      (((pairs.map .ofPair).foldl place analysis).expStack.headD 0)
      (chain tree pairs)
      (addresses ++
        List.range' analysis.memory.length (2 * pairs.length)) := by
  induction pairs generalizing analysis tree addresses with
  | nil =>
      rw [List.length_nil, Nat.mul_zero, List.range'_zero, List.append_nil]
      exact isTree
  | cons pair pairs inductionHypothesis =>
      have next := inductionHypothesis (place_pair_treeAt pair isTree)
      have isLength :
          (place analysis (.ofPair pair)).memory.length =
            analysis.memory.length + 2 :=
        length_place analysis (.ofPair pair)
      rw [isLength, List.append_assoc, List.range'_append_1] at next
      rw [List.length_cons, Nat.mul_succ, Nat.add_comm (2 * _)]
      exact next

/-- A sequence that starts with an operand has a last one. -/
theorem exists_last_operand
    (more : List Item)
    (first : UInt8) :
    ∃ (before : List Item) (key : UInt8) (pairs : List (Operator × UInt8)),
      .operand first :: more =
          before ++ .operand key :: pairs.map .ofPair ∧
        (before = [] ↔
          ∃ others : List (Operator × UInt8),
            more = others.map .ofPair) := by
  induction more generalizing first with
  | nil =>
      exact ⟨[], first, [], rfl, iff_of_true rfl ⟨[], rfl⟩⟩
  | cons item more inductionHypothesis =>
      cases item with
      | operand second =>
          obtain ⟨before, key, pairs, split, -⟩ := inductionHypothesis second
          refine ⟨.operand first :: before, key, pairs,
            by rw [split, List.cons_append], iff_of_false nofun ?_⟩
          rintro ⟨others, isPairs⟩
          cases others <;> cases isPairs
      | pair operator second =>
          obtain ⟨before, key, pairs, split, onlyPairs⟩ :=
            inductionHypothesis first
          cases before with
          | nil =>
              cases split
              exact ⟨[], first, (operator, second) :: pairs, rfl,
                iff_of_true rfl ⟨(operator, second) :: pairs, rfl⟩⟩
          | cons item before =>
              cases split
              refine ⟨.operand first :: .pair operator second :: before, key,
                pairs, rfl, iff_of_false nofun ?_⟩
              rintro ⟨others, isPairs⟩
              cases others with
              | nil =>
                  cases isPairs
              | cons other others =>
                  exact absurd
                    (onlyPairs.mpr ⟨others, (List.cons.inj isPairs).2⟩)
                    nofun

/-- The nodes and the stack behind an operand and some pairs. -/
def block
    (analysis : Analysis)
    (key : UInt8)
    (pairs : List (Operator × UInt8)) : Analysis :=
  (pairs.map .ofPair).foldl place (place analysis (.operand key))

theorem length_block
    (analysis : Analysis)
    (key : UInt8)
    (pairs : List (Operator × UInt8)) :
    (block analysis key pairs).memory.length =
      analysis.memory.length + (2 * pairs.length + 1) := by
  have sizes :
      ((pairs.map Item.ofPair).map Item.size).sum = 2 * pairs.length := by
    simp [Item.ofPair, Item.size, Function.comp_def, Nat.mul_comm]
  rw [block, length_foldl_place, length_place, sizes, Item.size]
  omega

/-- An operand and some pairs are a tree that takes all new addresses. -/
theorem block_treeAt
    (analysis : Analysis)
    (key : UInt8)
    (pairs : List (Operator × UInt8)) :
    Heap.TreeAt (block analysis key pairs).memory
      ((block analysis key pairs).expStack.headD 0)
      (chain (.leaf key) pairs)
      (List.range' analysis.memory.length (2 * pairs.length + 1)) := by
  have isTree :=
    foldl_place_treeAt pairs (place_operand_treeAt analysis key)
  rw [length_place] at isTree
  rw [List.range'_succ]
  exact isTree

/--
The structure at the top of the stack is a tree that takes all addresses from
that of the last operand on, once each.
-/
theorem exists_placed_treeAt
    (memory : Memory)
    (rest : List UInt8)
    (isOperand : operator? char = none) :
    ∃ tree start count,
      Heap.TreeAt (placed memory (char :: rest)).memory
          ((placed memory (char :: rest)).expStack.headD 0) tree
          (List.range' start count) ∧
        start + count = (placed memory (char :: rest)).memory.length ∧
        memory.length ≤ start ∧
        (start = memory.length ↔
          ∃ pairs : List (Operator × UInt8),
            items rest = pairs.map .ofPair) := by
  obtain ⟨before, key, pairs, split, onlyPairs⟩ :=
    exists_last_operand (items rest) char
  have isStart :=
    length_foldl_place { memory := memory, expStack := [] } before
  have isBlock :
      placed memory (char :: rest) =
        block (before.foldl place { memory := memory, expStack := [] }) key
          pairs := by
    rw [placed, items_operand isOperand, split, List.foldl_append,
      List.foldl_cons, block]
  rw [isBlock]
  refine ⟨_, _, _, block_treeAt _ key pairs,
    (length_block _ key pairs).symm, ?_, ?_⟩
  · rw [isStart]
    exact Nat.le_add_right _ _
  · rw [← onlyPairs, isStart, Nat.add_eq_left]
    constructor
    · intro isZero
      cases before with
      | nil => rfl
      | cons item before => cases item <;> simp [Item.size] at isZero
    · rintro rfl
      rfl

end CsPrimer.Interpreter
