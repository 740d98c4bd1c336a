import CsPrimer.Interpreter.Releasing

namespace CsPrimer.Interpreter

open Library

/-!
# What `Interpret` computes

A tree has a value in an environment in which a name without a binding counts
as 0.  Evaluation binds such names to 0 on the way, which changes no value, so
the order of the operands does not matter.
-/

variable
  {leftFirst : Nat → Bool}
  {memory : Memory}
  {exp depth : Nat}
  {tree : LabelledTree UInt8 Operator}
  {addresses : List Nat}

/-- The value of a name, 0 if it has no binding. -/
def valueOf (var : Variables) (name : UInt8) : Int32 :=
  (var name).getD 0

/-- The environment in which the unbound ones of some names are bound to 0. -/
def bindAll (var : Variables) (names : List UInt8) : Variables :=
  fun name => (var name).or (if name ∈ names then some 0 else none)

/-- The value of a tree, if no operation overflows. -/
def eval?
    (value : UInt8 → Int32) :
    LabelledTree UInt8 Operator → Option Int32
  | .leaf key =>
      some (value key)
  | .branch operator left right =>
      (eval? value left).bind fun lhs =>
        (eval? value right).bind fun rhs =>
          int? (operator.apply lhs.toInt rhs.toInt)

theorem valueOf_bindAll
    (var : Variables)
    (names : List UInt8) :
    valueOf (bindAll var names) = valueOf var := by
  funext name
  unfold valueOf bindAll
  cases var name with
  | some value => rfl
  | none => split <;> rfl

theorem bindAll_bindAll
    (var : Variables)
    (first second : List UInt8) :
    bindAll (bindAll var first) second = bindAll var (first ++ second) := by
  funext name
  unfold bindAll
  by_cases isFirst : name ∈ first <;> simp [isFirst]

theorem bindAll_append_comm
    (var : Variables)
    (first second : List UInt8) :
    bindAll var (first ++ second) = bindAll var (second ++ first) := by
  funext name
  simp only [bindAll, List.mem_append, or_comm]

theorem subscript_eq
    (var : Variables)
    (key : UInt8) :
    subscript var key = (valueOf var key, bindAll var [key]) := by
  unfold subscript valueOf bindAll
  cases isBound : var key with
  | some value =>
      refine Prod.ext rfl (funext fun name => ?_)
      by_cases same : name = key
      · simp [same, isBound]
      · simp [same]
  | none =>
      refine Prod.ext rfl (funext fun name => ?_)
      by_cases same : name = key
      · simp [same, isBound]
      · simp [same]

/-- `Interpret` computes the value of a tree and binds its names. -/
theorem interpret_eq
    (var : Variables)
    (isTree : Heap.TreeAt memory exp tree addresses)
    (enough : tree.height ≤ depth) :
    interpret leftFirst memory depth exp var =
      (eval? (valueOf var) tree).map fun result =>
        (result, bindAll var tree.leaves) := by
  induction isTree generalizing depth var with
  | leaf isLeaf =>
      obtain ⟨depth, rfl⟩ := LabelledTree.exists_of_height_leaf_le enough
      rw [interpret, isLeaf]
      exact congrArg some (subscript_eq var _)
  | @branch exp left right operator leftTree rightTree _ _ isBranch leftAt
      rightAt leftHypothesis rightHypothesis =>
      obtain ⟨depth, rfl, leftEnough, rightEnough⟩ :=
        LabelledTree.exists_of_height_branch_le enough
      have leftValue := fun var => leftHypothesis var leftEnough
      have rightValue := fun var => rightHypothesis var rightEnough
      simp only [interpret, isBranch, leftValue, rightValue, eval?,
        LabelledTree.leaves]
      cases isLeft : eval? (valueOf var) leftTree with
      | none =>
          cases isRight : eval? (valueOf var) rightTree with
          | none =>
              split <;> rfl
          | some rhs =>
              split
              · rfl
              · simp only [valueOf_bindAll, isLeft, Option.map_some,
                  Option.map_none, Option.bind_eq_bind, Option.bind_some,
                  Option.bind_none]
      | some lhs =>
          cases isRight : eval? (valueOf var) rightTree with
          | none =>
              split
              · simp only [valueOf_bindAll, isRight, Option.map_some,
                  Option.map_none, Option.bind_eq_bind, Option.bind_some,
                  Option.bind_none]
              · rfl
          | some rhs =>
              have sameNames :=
                bindAll_append_comm var rightTree.leaves leftTree.leaves
              split
              · simp only [valueOf_bindAll, isRight, bindAll_bindAll,
                  Option.map_some, Option.bind_eq_bind, Option.bind_some]
                exact Option.map_eq_bind.symm
              · simp only [valueOf_bindAll, isLeft, bindAll_bindAll, sameNames,
                  Option.map_some, Option.bind_eq_bind, Option.bind_some]
                exact Option.map_eq_bind.symm

/-- The value of a chain is a fold from the left. -/
theorem eval?_chain
    (value : UInt8 → Int32)
    (tree : LabelledTree UInt8 Operator)
    (pairs : List (Operator × UInt8)) :
    eval? value (chain tree pairs) =
      (eval? value tree).bind fun start =>
        pairs.foldlM
          (fun result pair =>
            int? (pair.1.apply result.toInt (value pair.2).toInt))
          start := by
  induction pairs generalizing tree with
  | nil =>
      exact (Option.bind_fun_some (eval? value tree)).symm
  | cons pair pairs inductionHypothesis =>
      rw [chain, List.foldl_cons, ← chain, inductionHypothesis, eval?,
        Option.bind_assoc]
      refine congrArg _ (funext fun start => ?_)
      rw [eval?, Option.bind_some, List.foldlM_cons]
      rfl

theorem leaves_chain
    (tree : LabelledTree UInt8 Operator)
    (pairs : List (Operator × UInt8)) :
    (chain tree pairs).leaves = tree.leaves ++ pairs.map Prod.snd := by
  induction pairs generalizing tree with
  | nil =>
      exact (List.append_nil _).symm
  | cons pair pairs inductionHypothesis =>
      rw [chain, List.foldl_cons, ← chain, inductionHypothesis,
        LabelledTree.leaves, LabelledTree.leaves, List.append_assoc]
      rfl

/-- A string of the form `c0 o1 c1 o2 c2 ... on cn`. -/
def text (first : UInt8) (pairs : List (Operator × UInt8)) : List UInt8 :=
  first :: pairs.flatMap pairText

/-- The names that occur in the string. -/
def names (first : UInt8) (pairs : List (Operator × UInt8)) : List UInt8 :=
  first :: pairs.map Prod.snd

/-- The next exact result, from left to right. -/
def nextResult
    (var : Variables)
    (result : Int)
    (pair : Operator × UInt8) : Int :=
  pair.1.apply result (valueOf var pair.2).toInt

/-- The exact partial results. -/
def partials
    (var : Variables)
    (first : UInt8)
    (pairs : List (Operator × UInt8)) : List Int :=
  pairs.scanl (nextResult var) (valueOf var first).toInt

/-- What evaluation from left to right leads to. -/
structure ComputesFromLeft
    (var : Variables)
    (first : UInt8)
    (pairs : List (Operator × UInt8))
    (result : Int32)
    (after : Variables) : Prop where
  isValue :
    result.toInt =
      pairs.foldl (nextResult var) (valueOf var first).toInt
  kept :
    ∀ name value, var name = some value → after name = some value
  bound :
    ∀ name, var name = none →
      after name = if name ∈ names first pairs then some 0 else none

/--
`Analyse` followed by `Interpret` evaluates a string from left to right,
whatever the order of the operands is.
-/
def EvaluatesFromLeft
    (memory : Memory)
    (var : Variables)
    (first : UInt8)
    (pairs : List (Operator × UInt8)) : Prop :=
  ∃ built root result after,
    analyse memory (text first pairs) = .ok (built, root) ∧
      ComputesFromLeft var first pairs result after ∧
      ∀ leftFirst, ∃ depth, ∀ more ≥ depth,
        interpret leftFirst built more root var = some (result, after)

theorem items_text
    {first : UInt8}
    (pairs : List (Operator × UInt8))
    (isOperand : operator? first = none) :
    items (text first pairs) = .operand first :: pairs.map .ofPair := by
  have onlyPairs := items_pairs pairs []
  rw [List.append_nil] at onlyPairs
  rw [text, items_operand isOperand, onlyPairs]
  exact congrArg _ (List.append_nil _)

/-- A string of this form lacks no operand. -/
theorem lastIndex_text
    {first : UInt8}
    (pairs : List (Operator × UInt8))
    (isOperand : operator? first = none) :
    lastIndex (text first pairs) = (text first pairs).length := by
  have onlyPairs :
      lastIndex (pairs.flatMap pairText) = (pairs.flatMap pairText).length := by
    induction pairs with
    | nil =>
        rfl
    | cons pair pairs inductionHypothesis =>
        rw [List.flatMap_cons, pairText, List.cons_append,
          List.singleton_append, lastIndex_pair (operator?_char pair.1),
          inductionHypothesis]
        rfl
  rw [text, lastIndex_operand isOperand, onlyPairs]
  rfl

/-- The new environment differs in the unbound names of the string. -/
theorem computesFromLeft_bindAll
    {var : Variables}
    {first : UInt8}
    {pairs : List (Operator × UInt8)}
    {result : Int32}
    (isValue :
      result.toInt =
        pairs.foldl (nextResult var) (valueOf var first).toInt) :
    ComputesFromLeft var first pairs result
      (bindAll var (names first pairs)) where
  isValue := isValue
  kept := fun name value isBound => by rw [bindAll, isBound, Option.some_or]
  bound := fun name unbound => by rw [bindAll, unbound, Option.none_or]

/--
For every string of the form and every environment for which no partial result
overflows: `Analyse` followed by `Interpret` evaluates from left to right
exactly if the length of the string is an `int`.
-/
theorem evaluatesFromLeft_iff
    (memory : Memory)
    (var : Variables)
    (first : UInt8)
    (pairs : List (Operator × UInt8))
    (notPlus : first ≠ '+'.toUInt8)
    (notMinus : first ≠ '-'.toUInt8)
    (fits : ∀ value ∈ partials var first pairs, Fits value) :
    EvaluatesFromLeft memory var first pairs ↔
      (text first pairs).length < 2 ^ 31 := by
  have isOperand : operator? first = none := by
    rw [operator?, if_neg notPlus, if_neg notMinus]
  have analysed :=
    analyse_eq memory (pairs.flatMap pairText) isOperand
  rw [← text, lastIndex_text pairs isOperand] at analysed
  constructor
  · rintro ⟨built, root, result, after, isOk, -⟩
    by_contra tooLong
    rw [analysed, if_neg tooLong] at isOk
    cases isOk
  · intro short
    rw [if_pos short] at analysed
    have isTree :=
      block_treeAt { memory := memory, expStack := [] } first pairs
    have isPlaced :
        placed memory (text first pairs) =
          block { memory := memory, expStack := [] } first pairs := by
      rw [placed, items_text pairs isOperand, List.foldl_cons, block]
    rw [← isPlaced] at isTree
    obtain ⟨result, isResult, isValue⟩ := exists_foldlM_int? fits
    have isEval :
        eval? (valueOf var) (chain (.leaf first) pairs) = some result := by
      rw [eval?_chain, eval?, Option.bind_some]
      exact isResult
    refine ⟨_, _, result, _, analysed, computesFromLeft_bindAll isValue, ?_⟩
    intro leftFirst
    refine ⟨(chain (.leaf first) pairs).height, fun more enough => ?_⟩
    rw [interpret_eq var isTree enough, isEval, Option.map_some, leaves_chain]
    rfl

/-- The environment of `main`, but without `d`. -/
def mainVariables : Variables :=
  fun name =>
    if name = 'a'.toUInt8 then
      some 5
    else if name = 'b'.toUInt8 then
      some 2
    else if name = 'c'.toUInt8 then
      some 1
    else
      none

/-- `a+b-c+d` of `main`, where `d` counts as 0. -/
theorem evaluatesFromLeft_iff_main :
    EvaluatesFromLeft [] mainVariables 'a'.toUInt8
      [(.plus, 'b'.toUInt8), (.minus, 'c'.toUInt8), (.plus, 'd'.toUInt8)] :=
  (evaluatesFromLeft_iff [] mainVariables 'a'.toUInt8 _ (by decide)
    (by decide) (by decide)).mpr (by decide)

/-- Where every name is bound to 0, no partial result overflows. -/
theorem fits_partials_zero
    (first : UInt8)
    (pairs : List (Operator × UInt8)) :
    ∀ value ∈ partials (fun _ => some 0) first pairs, Fits value := by
  have isZero :
      ∀ value ∈ pairs.scanl (nextResult fun _ => some 0) 0, value = 0 := by
    induction pairs with
    | nil =>
        exact fun value member => List.mem_singleton.mp member
    | cons pair pairs inductionHypothesis =>
        obtain ⟨operator, name⟩ := pair
        have stays : nextResult (fun _ => some 0) 0 (operator, name) = 0 := by
          cases operator with
          | plus => rfl
          | minus => rfl
        intro value member
        rw [List.scanl_cons, stays, List.mem_cons] at member
        rcases member with rfl | member
        · rfl
        · exact inductionHypothesis value member
  intro value member
  rw [isZero value member]
  decide

theorem length_text
    (first : UInt8)
    (pairs : List (Operator × UInt8)) :
    (text first pairs).length = 2 * pairs.length + 1 := by
  simp [text, pairText, List.length_flatMap, Nat.mul_comm]

/-- With `2 ^ 30` operators the index leaves `int`. -/
theorem not_evaluatesFromLeft :
    ¬ ∀ (memory : Memory) (var : Variables) (first : UInt8)
        (pairs : List (Operator × UInt8)),
      first ≠ '+'.toUInt8 → first ≠ '-'.toUInt8 →
        (∀ value ∈ partials var first pairs, Fits value) →
          EvaluatesFromLeft memory var first pairs := by
  intro always
  have pairsCount :
      (List.replicate (2 ^ 30) (Operator.plus, 'a'.toUInt8)).length = 2 ^ 30 :=
    List.length_replicate
  generalize List.replicate (2 ^ 30) (Operator.plus, 'a'.toUInt8) = pairs
    at pairsCount
  obtain ⟨built, root, result, after, analysed, -⟩ :=
    always [] (fun _ => some 0) 'a'.toUInt8 pairs (by decide) (by decide)
      (fits_partials_zero _ pairs)
  have tooLong : ¬ (text 'a'.toUInt8 pairs).length < 2 ^ 31 := by
    rw [length_text, pairsCount]
    omega
  have isOperand : operator? 'a'.toUInt8 = none := by decide
  have isIndex := lastIndex_text pairs isOperand
  rw [text, analyse_eq [] _ isOperand, if_neg (by
    rw [← text, isIndex]
    exact tooLong)] at analysed
  cases analysed

end CsPrimer.Interpreter
