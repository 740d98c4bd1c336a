import CsPrimer.Interpreter.Analysing
import CsPrimer.Library.CString

namespace CsPrimer.Interpreter

open Library

/-!
# Which nodes `Release` deletes

`Release` deletes the tree it is given, and `Analyse` returns the tree that
starts with the last operand of its own.  What was built for an earlier one is
left behind.
-/

variable
  {memory : Memory}
  {exp depth : Nat}
  {tree : LabelledTree UInt8 Operator}
  {addresses : List Nat}

theorem delete_eq
    {expression : Expression}
    (present : memory.node? exp = some expression) :
    delete memory exp = some (memory.deleteAll [exp]) := by
  rw [delete, present]
  rfl

/-- `Release` deletes the nodes of a tree, each of them once. -/
theorem release_eq
    (isTree : Heap.TreeAt memory exp tree addresses)
    (once : addresses.Nodup)
    (enough : tree.height ≤ depth) :
    release depth memory (some exp) = some (memory.deleteAll addresses) := by
  induction tree generalizing memory exp addresses depth with
  | leaf key =>
      cases isTree with
      | leaf isLeaf =>
      obtain ⟨depth, rfl⟩ := LabelledTree.exists_of_height_leaf_le enough
      rw [release, isLeaf]
      exact delete_eq isLeaf
  | branch operator leftTree rightTree leftHypothesis rightHypothesis =>
      cases isTree with
      | @branch _ left right _ _ _ leftAddresses rightAddresses isBranch
          leftAt rightAt =>
      obtain ⟨depth, rfl, leftEnough, rightEnough⟩ :=
        LabelledTree.exists_of_height_branch_le enough
      rw [List.append_assoc, List.nodup_append'] at once
      obtain ⟨leftOnce, restOnce, leftApart⟩ := once
      rw [List.nodup_append'] at restOnce
      obtain ⟨rightOnce, -, rootApart⟩ := restOnce
      have notLeft : exp ∉ leftAddresses := fun member =>
        leftApart member (List.mem_append_right _ (List.mem_singleton_self _))
      have notRight : exp ∉ rightAddresses := fun member =>
        rootApart member (List.mem_singleton_self _)
      have releasedLeft := leftHypothesis leftAt leftOnce leftEnough
      have rootStays :
          (memory.deleteAll leftAddresses).node? exp = memory.node? exp := by
        rw [Heap.node?_deleteAll, if_neg notLeft]
      have rightStays :
          Heap.TreeAt (memory.deleteAll leftAddresses) right rightTree
            rightAddresses := by
        refine rightAt.of_same fun address member => ?_
        rw [Heap.node?_deleteAll, if_neg]
        exact fun inLeft => leftApart inLeft (List.mem_append_left _ member)
      have releasedRight := rightHypothesis rightStays rightOnce rightEnough
      have isLast :
          delete ((memory.deleteAll leftAddresses).deleteAll rightAddresses)
              exp =
            some (((memory.deleteAll leftAddresses).deleteAll
              rightAddresses).deleteAll [exp]) := by
        apply delete_eq
        rw [Heap.node?_deleteAll, if_neg notRight, rootStays, isBranch]
      simp only [release, isBranch, releasedLeft, right?, rootStays,
        releasedRight, isLast, Heap.deleteAll_append,
        Option.bind_eq_bind, Option.bind_some]

/-- The pair as it is written. -/
def pairText (pair : Operator × UInt8) : List UInt8 :=
  [pair.1.char, pair.2]

/--
One character followed only by pairs of an operator and a character, of which
the last may lack the character.
-/
def WellPaired (expStr : List UInt8) : Prop :=
  ∃ (first : UInt8) (pairs : List (Operator × UInt8))
    (last : Option Operator),
    expStr =
      first :: (pairs.flatMap pairText ++ (last.map Operator.char).toList)

theorem operator?_char (operator : Operator) :
    operator? operator.char = some operator := by
  cases operator with
  | plus => rfl
  | minus => rfl

theorem char_of_operator?
    {char : UInt8}
    {operator : Operator}
    (isOperator : operator? char = some operator) :
    char = operator.char := by
  rcases operator?_cases char with
    ⟨isPlus, rfl⟩ | ⟨isMinus, rfl⟩ | ⟨isOperand, -⟩
  · cases isPlus.symm.trans isOperator
    rfl
  · cases isMinus.symm.trans isOperator
    rfl
  · cases isOperand.symm.trans isOperator

theorem items_pair
    (operator : Operator)
    (key : UInt8)
    (rest : List UInt8) :
    items (operator.char :: key :: rest) =
      .pair operator key :: items rest := by
  rw [items.eq_def]
  simp only [operator?_char]

theorem items_pairs
    (pairs : List (Operator × UInt8))
    (rest : List UInt8) :
    items (pairs.flatMap pairText ++ rest) =
      pairs.map .ofPair ++ items rest := by
  induction pairs with
  | nil =>
      rfl
  | cons pair pairs inductionHypothesis =>
      rw [List.flatMap_cons, List.append_assoc, pairText, List.cons_append,
        List.singleton_append, items_pair, inductionHypothesis]
      rfl

theorem items_last (operator : Operator) :
    items [operator.char] = [.pair operator 0] := by
  rw [items.eq_def]
  simp only [operator?_char]

/-- A string that is read as pairs consists of pairs, but for the last one. -/
theorem exists_pairText_of_items
    {rest : List UInt8}
    {read : List (Operator × UInt8)}
    (isRead : items rest = read.map .ofPair) :
    ∃ (pairs : List (Operator × UInt8)) (last : Option Operator),
      rest = pairs.flatMap pairText ++ (last.map Operator.char).toList := by
  fun_induction items rest generalizing read with
  | case1 =>
      exact ⟨[], none, rfl⟩
  | case2 char rest isOperand inductionHypothesis =>
      cases read <;> cases isRead
  | case3 char operator isOperator =>
      refine ⟨[], some operator, ?_⟩
      rw [char_of_operator? isOperator]
      rfl
  | case4 char operator key rest isOperator inductionHypothesis =>
      cases read with
      | nil =>
          cases isRead
      | cons pair read =>
          obtain ⟨pairs, last, rfl⟩ :=
            inductionHypothesis (List.cons.inj isRead).2
          refine ⟨(operator, key) :: pairs, last, ?_⟩
          rw [char_of_operator? isOperator]
          rfl

/-- Only pairs are read behind the first character of a well-paired string. -/
theorem wellPaired_iff
    (first : UInt8)
    (rest : List UInt8) :
    WellPaired (first :: rest) ↔
      ∃ pairs : List (Operator × UInt8),
        items rest = pairs.map .ofPair := by
  constructor
  · rintro ⟨other, pairs, last, isText⟩
    rw [(List.cons.inj isText).2, items_pairs]
    cases last with
    | none =>
        exact ⟨pairs, List.append_nil _⟩
    | some operator =>
        refine ⟨pairs ++ [(operator, 0)], ?_⟩
        rw [List.map_append]
        exact congrArg _ (items_last operator)
  · rintro ⟨read, isRead⟩
    obtain ⟨pairs, last, rfl⟩ := exists_pairText_of_items isRead
    exact ⟨first, pairs, last, rfl⟩

/-- `Release` deletes exactly what can be reached, and nothing twice. -/
structure ReleasesTree
    (memory : Memory)
    (expStr : List UInt8)
    (built after : Memory)
    (root : Nat) : Prop where
  /-- No node is shared. -/
  isTree :
    ∃ tree addresses,
      Heap.TreeAt built root tree addresses ∧ addresses.Nodup
  /-- A node that is deleted twice would leave `Release` without outcome. -/
  released :
    ∃ depth, ∀ more ≥ depth, release more built (some root) = some after
  deleted :
    ∀ exp, (built.node? exp).isSome →
      (after.node? exp = none ↔ built.Reachable root exp)
  all :
    (∀ exp, memory.length ≤ exp → exp < built.length →
      after.node? exp = none) ↔ WellPaired expStr

/-- Items only add nodes. -/
theorem exists_nodes_of_foldl_place
    (analysis : Analysis)
    (more : List Item) :
    ∃ nodes : List Expression,
      (more.foldl place analysis).memory =
        analysis.memory ++ nodes.map some := by
  induction more generalizing analysis with
  | nil =>
      exact ⟨[], (List.append_nil _).symm⟩
  | cons item more inductionHypothesis =>
      obtain ⟨nodes, isMemory⟩ := inductionHypothesis (place analysis item)
      obtain ⟨added, isPlaced⟩ :
          ∃ added : List Expression,
            (place analysis item).memory =
              analysis.memory ++ added.map some := by
        cases item with
        | operand key =>
            exact ⟨[varExpression key], rfl⟩
        | pair operator key =>
            exact ⟨[varExpression key, .branch operator _ _],
              List.append_assoc _ _ _⟩
      exact ⟨added ++ nodes, by
        rw [List.foldl_cons, isMemory, isPlaced, List.append_assoc,
          List.map_append]⟩

/-- What `Analyse` has allocated is there. -/
theorem placed_isSome
    (expStr : List UInt8)
    (allocated : memory.length ≤ exp)
    (inside : exp < (placed memory expStr).memory.length) :
    ((placed memory expStr).memory.node? exp).isSome := by
  obtain ⟨nodes, isMemory⟩ :=
    exists_nodes_of_foldl_place { memory := memory, expStack := [] }
      (items expStr)
  rw [placed, isMemory] at inside ⊢
  rw [List.length_append, List.length_map] at inside
  have isNode : exp - memory.length < nodes.length := by
    simp only at inside
    omega
  rw [Heap.node?, List.getElem?_append_right allocated, List.getElem?_map,
    List.getElem?_eq_getElem isNode]
  rfl

/-- The tree at the top of the stack is what `Release` deletes. -/
theorem releasesTree_placed
    (memory : Memory)
    {first : UInt8}
    (rest : List UInt8)
    (isOperand : operator? first = none) :
    ∃ after,
      ReleasesTree memory (first :: rest)
        (placed memory (first :: rest)).memory after
        ((placed memory (first :: rest)).expStack.headD 0) := by
  obtain ⟨tree, start, count, isTree, isEnd, behind, onlyPairs⟩ :=
    exists_placed_treeAt memory rest isOperand
  have once : (List.range' start count).Nodup := List.nodup_range'
  refine ⟨_, ⟨tree, _, isTree, once⟩,
    ⟨tree.height, fun more enough => release_eq isTree once enough⟩, ?_, ?_⟩
  · intro exp present
    rw [isTree.reachable_iff, Heap.node?_deleteAll]
    split
    case isTrue member => exact iff_of_true rfl member
    case isFalse apart =>
      refine iff_of_false ?_ apart
      exact Option.isSome_iff_ne_none.mp present
  · rw [wellPaired_iff, ← onlyPairs]
    constructor
    · intro all
      by_contra notAll
      have earlier : memory.length < start :=
        Nat.lt_of_le_of_ne behind (Ne.symm notAll)
      have inside :
          memory.length < (placed memory (first :: rest)).memory.length := by
        omega
      have isDeleted := all memory.length (Nat.le_refl _) inside
      rw [Heap.node?_deleteAll, if_neg (by
        rw [List.mem_range'_1]
        omega)] at isDeleted
      have present :=
        placed_isSome (first :: rest) (Nat.le_refl memory.length) inside
      rw [isDeleted] at present
      cases present
    · rintro rfl exp allocated inside
      rw [Heap.node?_deleteAll, if_pos]
      rw [List.mem_range'_1]
      omega

/--
For every string that starts with an operand: the only thing that can go wrong
in `Analyse` is that the index leaves `int`, and exactly if it does not,
`Analyse` returns a tree that `Release` deletes, and the tree is all that was
allocated exactly if the string is well-paired.
-/
theorem analyse_release_iff
    (memory : Memory)
    (first : UInt8)
    (rest : List UInt8)
    (notPlus : first ≠ '+'.toUInt8)
    (notMinus : first ≠ '-'.toUInt8) :
    (∀ fault, analyse memory (first :: rest) = .error fault →
      fault = .overflow) ∧
      ((∃ built after root,
          analyse memory (first :: rest) = .ok (built, root) ∧
            ReleasesTree memory (first :: rest) built after root) ↔
        (first :: rest).length +
            (lacksOperand (first :: rest)).toNat < 2 ^ 31) := by
  have isOperand : operator? first = none := by
    rw [operator?, if_neg notPlus, if_neg notMinus]
  have analysed := analyse_eq memory rest isOperand
  rw [← lastIndex, analysed]
  split
  case isTrue fits =>
    refine ⟨?_, iff_of_true ?_ fits⟩
    · rintro fault ⟨⟩
    · obtain ⟨after, releases⟩ := releasesTree_placed memory rest isOperand
      exact ⟨_, after, _, rfl, releases⟩
  case isFalse overflows =>
    refine ⟨?_, iff_of_false ?_ overflows⟩
    · rintro fault ⟨⟩
      rfl
    · rintro ⟨built, after, root, ⟨⟩, -⟩

/-- Two pairs, of which the second lacks its operand. -/
theorem analyse_release_iff_dangling :
    ∃ built after root,
      analyse [] (ascii "a+b-") = .ok (built, root) ∧
        ReleasesTree [] (ascii "a+b-") built after root :=
  (analyse_release_iff [] 'a'.toUInt8 (ascii "+b-") (by decide)
    (by decide)).2.mpr (by decide)

/-- In a string of more than `2 ^ 31` characters the index leaves `int`. -/
theorem not_analyse_release :
    ¬ ∀ (memory : Memory) (first : UInt8) (rest : List UInt8),
      first ≠ '+'.toUInt8 → first ≠ '-'.toUInt8 →
        ∃ built after root,
          analyse memory (first :: rest) = .ok (built, root) ∧
            ReleasesTree memory (first :: rest) built after root := by
  intro always
  obtain ⟨built, after, root, analysed, -⟩ :=
    always [] 'a'.toUInt8 (List.replicate (2 ^ 31) 'a'.toUInt8) (by decide)
      (by decide)
  have tooLong :
      ¬ lastIndex ('a'.toUInt8 :: List.replicate (2 ^ 31) 'a'.toUInt8) <
        2 ^ 31 := by
    rw [lastIndex, List.length_cons, List.length_replicate]
    omega
  rw [analyse_eq [] _ (by decide), if_neg tooLong] at analysed
  cases analysed

end CsPrimer.Interpreter
