import CsPrimer.RbTree.Iterating
import Mathlib.Data.List.Induction

namespace CsPrimer.RbTree

open Library

/-!
# Runs of the tree, and its end

Between two neighbours there is always room for a node, so every edit of a
sequence can be carried out on the tree.  The destructor goes through the tree
from the right to the left and never looks at a node that it has dropped.
-/

section Room

variable
  {memory : Memory}
  {header address : Address}
  {nodes before after : List Address}

/-- One of two neighbours has room for a node between them. -/
theorem Represents.exists_room
    (represents : Represents memory header (before ++ after)) :
    ∃ insertLeft p, Room memory header insertLeft p before after := by
  cases after with
  | nil =>
      rcases List.eq_nil_or_concat before with rfl | ⟨rest, q, rfl⟩
      · exact ⟨true, header, .empty⟩
      · rw [List.concat_eq_append, List.append_assoc] at represents
        obtain ⟨path, color, left, right, height, held, -, isAfter, -⟩ :=
          represents.exists_plug
        have noRight :=
          inorder_eq_nil (List.append_eq_nil_iff.mp isAfter.symm).1
        subst noRight
        refine ⟨false, q, ?_⟩
        rw [List.concat_eq_append]
        exact .right held.below.1 rfl
  | cons p rest =>
      obtain ⟨path, color, left, right, height, held, rfl, -, -⟩ :=
        represents.exists_plug
      by_cases noLeft : left = .nil
      · subst noLeft
        exact ⟨true, p, .left held.below.1 rfl⟩
      · have distinct := held.distinct
        simp only [ColoredTree.inorder, List.nodup_cons, List.mem_cons,
          List.mem_append, not_or] at distinct
        obtain ⟨spine, inner, y, far, rfl, onSide, -⟩ :=
          extreme_spec .right held.below.2.1 distinct.1.2.1.1 noLeft
        have inside :=
          (held_cons.mpr held :
            Held memory header _ _ (⟨.left, color, p, right⟩ :: path) _)
        have below := held_append.mpr inside
        refine ⟨false, y, ?_⟩
        have isLast :
            path.before ++
                (spine.plug (.join .right inner .nil y far)).inorder =
              path.before ++ spine.before ++ far.inorder ++ [y] := by
          rw [Path.inorder_plug, after_of_side onSide]
          simp [ColoredTree.join, ColoredTree.inorder]
        rw [isLast]
        exact .right (of_load below.load_root) rfl

/-- The nodes of a tree and its header are allocated. -/
theorem Represents.exists_node
    (represents : Represents memory header nodes)
    (member : address ∈ header :: nodes) :
    ∃ node, memory address = some node := by
  obtain ⟨tree, height, held, rfl, -, -⟩ := represents
  rcases List.mem_cons.mp member with rfl | isLabel
  · exact ⟨_, of_load held.load_header⟩
  · obtain ⟨path, color, left, right, rfl⟩ := Path.exists_plug isLabel
    exact ⟨_, (held_plug.mpr held).below.1⟩

/-- `_M_initialize` leaves an empty tree. -/
theorem initializeHeader_spec
    {memory' : Memory}
    (initialized : initializeHeader header memory = some memory') :
    Represents memory' header [] ∧
      ∀ other, other ≠ header → memory' other = memory other := by
  obtain ⟨old, loaded, -⟩ := Option.map_eq_some_iff.mp initialized
  obtain ⟨memory1, stores, isHeader, others⟩ :=
    store_spec loaded fun _ => ⟨.red, null, header, header⟩
  obtain rfl := Option.some.inj (stores.symm.trans initialized)
  have notNull : header ≠ null := by
    rintro rfl
    simp [load] at loaded
  refine ⟨⟨.nil, 0, ⟨isHeader, trivial, ?_⟩, rfl, rfl, rfl⟩, others⟩
  simpa [ColoredTree.inorder, Path.labels] using notNull.symm

end Room

section Tree

variable
  {memory : Memory}
  {header x z : Address}
  {nodes before after : List Address}
  {old : NodeBase}
  {fuel : Nat}

/--
Between any two neighbours there is room for a new node, and wherever there is
room `_Rb_tree_insert_and_rebalance` puts it there, keeps the tree a red-black
tree and the header right, and writes nothing outside of the tree.  The rounds
of its loop are logarithmic in the number of nodes.
-/
theorem insertAndRebalance_inserts
    (represents : Represents memory header (before ++ after))
    (allocated : memory x = some old)
    (isNew : x ∉ null :: header :: (before ++ after))
    (enough : Nat.log 2 ((before ++ after).length + 1) < fuel) :
    (∃ insertLeft p, Room memory header insertLeft p before after) ∧
      ∀ insertLeft p, Room memory header insertLeft p before after →
        ∃ memory',
          insertAndRebalance fuel insertLeft x p header memory =
              some memory' ∧
            Represents memory' header (before ++ x :: after) ∧
            ∀ other, other ≠ header → other ∉ before ++ x :: after →
              memory' other = memory other :=
  ⟨represents.exists_room, fun _ _ room =>
    represents.inserted room allocated isNew enough⟩

theorem insertAndRebalance_inserts_twoNodes :
    ∃ memory', insertAndRebalance 2 false 4 3 1 twoNodes = some memory' ∧
      Represents memory' 1 [2, 3, 4] := by
  obtain ⟨-, inserts⟩ :=
    @insertAndRebalance_inserts twoNodes 1 4 [2, 3] [] _ 2
      twoNodes_represents rfl (by decide) (by decide)
  have room : Room twoNodes 1 false 3 ([2] ++ [3]) [] :=
    .right rfl rfl
  obtain ⟨memory', call, represents, -⟩ := inserts false 3 room
  exact ⟨memory', call, represents⟩

/--
`_Rb_tree_rebalance_for_erase` takes a node out of the sequence and returns it
for the caller to drop, keeps the tree a red-black tree and the header right,
and writes nothing outside of the tree.  All its loops are logarithmic in the
number of nodes.
-/
theorem rebalanceForErase_erases
    (represents : Represents memory header nodes)
    (member : z ∈ nodes)
    (enough : 2 * Nat.log 2 (nodes.length + 1) < fuel) :
    ∃ memory',
      rebalanceForErase fuel z header memory = some (z, memory') ∧
        Represents memory' header (nodes.erase z) ∧
        (∃ node, memory' z = some node) ∧
        ∀ other, other ≠ header → other ∉ nodes →
          memory' other = memory other := by
  obtain ⟨before, after, -, rfl, isErased⟩ := List.exists_erase_eq member
  rw [isErased]
  exact represents.erased enough

theorem rebalanceForErase_erases_twoNodes :
    ∃ memory', rebalanceForErase 3 2 1 twoNodes = some (2, memory') ∧
      Represents memory' 1 [3] := by
  obtain ⟨memory', call, represents, -⟩ :=
    @rebalanceForErase_erases twoNodes 1 2 [2, 3] 3 twoNodes_represents
      (by decide) (by decide)
  exact ⟨memory', call, represents⟩

end Tree

/-- An edit of a sequence. -/
inductive Edit where
  | insert (index : Nat) (x : Address)
  | erase (z : Address)
  deriving Repr, DecidableEq

/-- The sequence after an edit, if there is one. -/
def Edit.result (nodes : List Address) : Edit → Option (List Address)
  | .insert index x =>
      if x ∈ nodes ∨ nodes.length < index then
        none
      else
        some (nodes.take index ++ x :: nodes.drop index)
  | .erase z =>
      if z ∈ nodes then
        some (nodes.erase z)
      else
        none

/-- What may be inserted: a node that the caller has allocated. -/
def Edit.Usable (memory : Memory) (header : Address) : Edit → Prop
  | .insert _ x => x ≠ null ∧ x ≠ header ∧ ∃ node, memory x = some node
  | .erase _ => True

theorem Edit.Usable.congr
    {memory memory' : Memory}
    {header : Address}
    {edit : Edit}
    (usable : edit.Usable memory header)
    (same : ∀ other, other ≠ header → memory' other = memory other) :
    edit.Usable memory' header := by
  cases edit with
  | insert index x =>
      obtain ⟨notNull, notHeader, isAllocated⟩ := usable
      refine ⟨notNull, notHeader, ?_⟩
      rw [same x notHeader]
      exact isAllocated
  | erase z =>
      trivial

/-- The call that carries out an edit. -/
inductive Carried
    (fuel : Nat)
    (header : Address)
    (memory : Memory)
    (nodes : List Address)
    (memory' : Memory) : Edit → Prop where
  | insert
      {index : Nat}
      {x p : Address}
      {insertLeft : Bool}
      (room :
        Room memory header insertLeft p (nodes.take index)
          (nodes.drop index))
      (call :
        insertAndRebalance fuel insertLeft x p header memory =
          some memory') :
      Carried fuel header memory nodes memory' (.insert index x)
  | erase
      {z : Address}
      (call : rebalanceForErase fuel z header memory = some (z, memory')) :
      Carried fuel header memory nodes memory' (.erase z)

/-- The tree after some edits, each carried out by a call. -/
inductive Run
    (fuel : Nat)
    (header : Address)
    (initial : Memory) : List Edit → Memory → List Address → Prop where
  | start :
      Run fuel header initial [] initial []
  | step
      {edits : List Edit}
      {edit : Edit}
      {memory memory' : Memory}
      {nodes nodes' : List Address}
      (run : Run fuel header initial edits memory nodes)
      (usable : edit.Usable initial header)
      (applied : edit.result nodes = some nodes')
      (carried : Carried fuel header memory nodes memory' edit) :
      Run fuel header initial (edits ++ [edit]) memory' nodes'

section Run

variable
  {fuel : Nat}
  {header : Address}
  {initial memory memory' : Memory}
  {edits : List Edit}
  {edit : Edit}
  {nodes nodes' : List Address}

/-- What every edit keeps. -/
structure Kept
    (header : Address)
    (initial : Memory)
    (edits : List Edit)
    (memory : Memory)
    (nodes : List Address) : Prop where
  represents : Represents memory header nodes
  short : nodes.length ≤ edits.length
  allocated :
    ∀ address, (∃ node, initial address = some node) →
      ∃ node, memory address = some node
  inserted : ∀ x ∈ nodes, ∃ index, .insert index x ∈ edits
  others :
    ∀ address, address ≠ header →
      (∀ index, .insert index address ∉ edits) →
        memory address = initial address

/-- Every call keeps it that writes only nodes from before or after. -/
theorem Kept.next
    (kept : Kept header initial edits memory nodes)
    (represents : Represents memory' header nodes')
    (short : nodes'.length ≤ nodes.length + 1)
    (isNode : ∀ x ∈ nodes', x ∈ nodes ∨ ∃ index, edit = .insert index x)
    (stays : ∀ x ∈ nodes, ∃ node, memory' x = some node)
    (others :
      ∀ other, other ≠ header → other ∉ nodes → other ∉ nodes' →
        memory' other = memory other) :
    Kept header initial (edits ++ [edit]) memory' nodes' := by
  have inserted : ∀ x ∈ nodes', ∃ index, .insert index x ∈ edits ++ [edit] := by
    intro x member
    rcases isNode x member with isOld | ⟨index, rfl⟩
    · obtain ⟨index, before⟩ := kept.inserted x isOld
      exact ⟨index, List.mem_append_left _ before⟩
    · exact ⟨index, by simp⟩
  refine ⟨represents, ?_, ?_, inserted, ?_⟩
  · have shorter := kept.short
    rw [List.length_append, List.length_singleton]
    omega
  · intro address isAllocated
    by_cases isNew : address ∈ header :: nodes'
    · exact represents.exists_node isNew
    · by_cases isOld : address ∈ nodes
      · exact stays address isOld
      · rw [List.mem_cons, not_or] at isNew
        rw [others address isNew.1 isOld isNew.2]
        exact kept.allocated address isAllocated
  · intro address notHeader never
    have neverBefore : ∀ index, .insert index address ∉ edits := by
      intro index before
      exact never index (List.mem_append_left _ before)
    rw [others address notHeader ?_ ?_]
    · exact kept.others address notHeader neverBefore
    · intro isOld
      obtain ⟨index, before⟩ := kept.inserted address isOld
      exact neverBefore index before
    · intro isNew
      obtain ⟨index, member⟩ := inserted address isNew
      exact never index member

/-- An insertion keeps it. -/
theorem Kept.insert
    {index : Nat}
    {x : Address}
    (kept : Kept header initial edits memory nodes)
    (represents :
      Represents memory' header (nodes.take index ++ x :: nodes.drop index))
    (others :
      ∀ other, other ≠ header →
        other ∉ nodes.take index ++ x :: nodes.drop index →
          memory' other = memory other) :
    Kept header initial (edits ++ [.insert index x]) memory'
      (nodes.take index ++ x :: nodes.drop index) := by
  have perm :
      (nodes.take index ++ x :: nodes.drop index).Perm (x :: nodes) := by
    have moved := @List.perm_middle _ x (nodes.take index) (nodes.drop index)
    rw [List.take_append_drop] at moved
    exact moved
  apply kept.next represents
  · rw [perm.length_eq, List.length_cons]
  · intro address member
    rcases List.mem_cons.mp (perm.mem_iff.mp member) with rfl | isOld
    · exact Or.inr ⟨index, rfl⟩
    · exact Or.inl isOld
  · intro address isOld
    apply represents.exists_node
    exact List.mem_cons_of_mem _
      (perm.mem_iff.mpr (List.mem_cons_of_mem _ isOld))
  · exact fun other notHeader _ => others other notHeader

/-- A removal keeps it. -/
theorem Kept.erase
    {z : Address}
    (kept : Kept header initial edits memory nodes)
    (represents : Represents memory' header (nodes.erase z))
    (isDropped : ∃ node, memory' z = some node)
    (others :
      ∀ other, other ≠ header → other ∉ nodes →
        memory' other = memory other) :
    Kept header initial (edits ++ [.erase z]) memory' (nodes.erase z) := by
  apply kept.next represents
  · have shorter := List.length_erase_le (a := z) (l := nodes)
    omega
  · exact fun address member => Or.inl (List.mem_of_mem_erase member)
  · intro address isOld
    by_cases isZ : address = z
    · rw [isZ]
      exact isDropped
    · apply represents.exists_node
      exact List.mem_cons_of_mem _ ((List.mem_erase_of_ne isZ).mpr isOld)
  · exact fun other notHeader isOther _ => others other notHeader isOther

/-- Every edit of the sequence can be carried out, and keeps it. -/
theorem Kept.carries
    (kept : Kept header initial edits memory nodes)
    (usable : edit.Usable initial header)
    (applied : edit.result nodes = some nodes')
    (enough : 2 * Nat.log 2 (edits.length + 1) < fuel) :
    (∃ memory', Carried fuel header memory nodes memory' edit) ∧
      ∀ memory', Carried fuel header memory nodes memory' edit →
        Kept header initial (edits ++ [edit]) memory' nodes' := by
  have represents := kept.represents
  have fewer : Nat.log 2 (nodes.length + 1) ≤ Nat.log 2 (edits.length + 1) :=
    Nat.log_mono_right (by have := kept.short; omega)
  cases edit with
  | insert index x =>
      simp only [Edit.result, Option.ite_none_left_eq_some,
        Option.some.injEq, not_or] at applied
      obtain ⟨⟨notNode, -⟩, rfl⟩ := applied
      obtain ⟨notNull, notHeader, isAllocated⟩ := usable
      obtain ⟨node, isNode⟩ := kept.allocated x isAllocated
      rw [← List.take_append_drop index nodes] at represents notNode fewer
      have isNew :
          x ∉ null :: header :: (nodes.take index ++ nodes.drop index) := by
        simp only [List.mem_cons, not_or]
        exact ⟨notNull, notHeader, notNode⟩
      have inserts := fun insertLeft p room =>
        @Represents.inserted memory header p x insertLeft (nodes.take index)
          (nodes.drop index) node fuel represents room isNode isNew (by omega)
      constructor
      · obtain ⟨insertLeft, p, room⟩ := represents.exists_room
        obtain ⟨memory', call, -⟩ := inserts insertLeft p room
        exact ⟨memory', .insert room call⟩
      · intro memory' carried
        cases carried with
        | insert room call =>
            obtain ⟨memory1, call1, represents', others⟩ := inserts _ _ room
            obtain rfl := Option.some.inj (call1.symm.trans call)
            exact kept.insert represents' others
  | erase z =>
      simp only [Edit.result, Option.ite_none_right_eq_some,
        Option.some.injEq] at applied
      obtain ⟨member, rfl⟩ := applied
      obtain ⟨before, after, -, rfl, isErased⟩ := List.exists_erase_eq member
      obtain ⟨memory1, call1, represents', isDropped, others⟩ :=
        @Represents.erased memory header z before after fuel represents
          (by omega)
      rw [← isErased] at represents'
      constructor
      · exact ⟨memory1, .erase call1⟩
      · intro memory' carried
        cases carried with
        | erase call =>
            have same := Option.some.inj (call1.symm.trans call)
            obtain rfl := congrArg Prod.snd same
            exact kept.erase represents' isDropped others

/-- What holds after any run of edits. -/
theorem Run.kept
    (run : Run fuel header initial edits memory nodes)
    (empty : Represents initial header [])
    (enough : 2 * Nat.log 2 (edits.length + 1) < fuel) :
    Kept header initial edits memory nodes := by
  induction run with
  | start =>
      exact ⟨empty, le_rfl, fun _ isAllocated => isAllocated, by simp,
        fun _ _ _ => rfl⟩
  | @step edits edit memory memory' nodes nodes' run usable applied carried
      inductionHypothesis =>
      have fewer :
          Nat.log 2 (edits.length + 1) ≤
            Nat.log 2 ((edits ++ [edit]).length + 1) :=
        Nat.log_mono_right (by simp)
      have enough' : 2 * Nat.log 2 (edits.length + 1) < fuel := by
        omega
      exact ((inductionHypothesis enough').carries usable applied
        enough').2 memory' carried

/-- Edits that the sequence of nodes allows can be carried out in turn. -/
theorem exists_run
    (empty : Represents initial header [])
    (usable : ∀ edit ∈ edits, edit.Usable initial header)
    (applied : edits.foldlM Edit.result [] = some nodes)
    (enough : 2 * Nat.log 2 (edits.length + 1) < fuel) :
    ∃ memory, Run fuel header initial edits memory nodes := by
  induction edits using List.reverseRecOn generalizing nodes with
  | nil =>
      obtain rfl := Option.some.inj applied
      exact ⟨initial, .start⟩
  | append_singleton edits edit inductionHypothesis =>
      rw [List.foldlM_append, Option.bind_eq_bind,
        Option.bind_eq_some_iff] at applied
      obtain ⟨earlier, isEarlier, isResult⟩ := applied
      have fewer :
          Nat.log 2 (edits.length + 1) ≤
            Nat.log 2 ((edits ++ [edit]).length + 1) :=
        Nat.log_mono_right (by simp)
      have enough' : 2 * Nat.log 2 (edits.length + 1) < fuel := by
        omega
      obtain ⟨memory, run⟩ :=
        inductionHypothesis
          (fun other member => usable other (List.mem_append_left _ member))
          isEarlier enough'
      have isUsable := usable edit (by simp)
      have isResult' : edit.result earlier = some nodes := by
        simpa using isResult
      obtain ⟨memory', carried⟩ :=
        ((run.kept empty enough').carries isUsable isResult' enough').1
      exact ⟨memory', run.step isUsable isResult' carried⟩

/--
From `_M_initialize` on, every insertion and removal that the sequence of nodes
allows can be carried out, whatever was done before and wherever the nodes were
linked, and leaves a red-black tree of the sequence.  Nothing but the header
and the nodes that were inserted is ever written.
-/
theorem rbTree_refines_sequence
    {before : Memory}
    (initialized : initializeHeader header before = some initial)
    (run : Run fuel header initial edits memory nodes)
    (enough : 2 * Nat.log 2 (edits.length + 1) < fuel) :
    Represents memory header nodes ∧
      (∀ edit nodes', edit.Usable before header →
        edit.result nodes = some nodes' →
          ∃ memory', Carried fuel header memory nodes memory' edit) ∧
      ∀ address, address ≠ header →
        (∀ index, .insert index address ∉ edits) →
          memory address = before address := by
  obtain ⟨empty, unwritten⟩ := initializeHeader_spec initialized
  have kept := run.kept empty enough
  refine ⟨kept.represents, ?_, ?_⟩
  · intro edit nodes' usable applied
    exact (kept.carries (usable.congr unwritten) applied enough).1
  · intro address notHeader never
    rw [kept.others address notHeader never, unwritten address notHeader]

/-- Nodes that have been allocated and are not linked. -/
def unlinkedNodes : Memory
  | 0 => none
  | _ => some ⟨.red, null, null, null⟩

/-- Seven nodes are inserted, and two of them removed between. -/
def sevenInsertions : List Edit :=
  [.insert 0 2, .insert 1 3, .insert 2 4, .insert 0 5, .insert 2 6, .erase 3,
    .insert 3 7, .erase 2, .insert 4 8]

theorem rbTree_refines_sequence_sevenInsertions :
    ∃ initial memory,
      initializeHeader 1 unlinkedNodes = some initial ∧
        Run 7 1 initial sevenInsertions memory [5, 6, 7, 4, 8] ∧
        Represents memory 1 [5, 6, 7, 4, 8] ∧ memory 9 = unlinkedNodes 9 := by
  obtain ⟨initial, initialized, -⟩ :=
    @store_spec unlinkedNodes 1 _ rfl fun _ => ⟨.red, null, 1, 1⟩
  obtain ⟨empty, unwritten⟩ := initializeHeader_spec initialized
  obtain ⟨memory, run⟩ :=
    @exists_run 7 1 initial sevenInsertions [5, 6, 7, 4, 8] empty
      (fun edit member => by
        refine Edit.Usable.congr ?_ unwritten
        revert edit
        simp [sevenInsertions, Edit.Usable, unlinkedNodes, null])
      rfl (by decide)
  obtain ⟨represents, -, others⟩ :=
    rbTree_refines_sequence initialized run (by decide)
  exact ⟨initial, memory, initialized, run, represents,
    others 9 (by decide) (by simp [sevenInsertions])⟩

end Run

section Destroy

variable
  {memory : Memory}
  {header parent : Address}
  {tree : ColoredTree Address}
  {nodes : List Address}
  {fuel : Nat}

/-- `_M_erase` drops the nodes of a subtree, from the last to the first. -/
theorem exists_dropped
    (holds : HoldsTree memory parent tree)
    (distinct : (null :: tree.inorder).Nodup)
    (enough :
      ∀ spine : Path Address, tree = spine.plug .nil → spine.length < fuel) :
    ∃ memory',
      erase fuel (root tree) memory = some (memory', tree.inorder.reverse) ∧
        (∀ address ∈ tree.inorder, memory' address = none) ∧
        ∀ other, other ∉ tree.inorder → memory' other = memory other := by
  induction tree generalizing memory parent fuel with
  | nil =>
      obtain ⟨rounds, rfl⟩ :=
        Nat.exists_eq_succ_of_ne_zero (enough [] rfl).ne'
      exact ⟨memory, by simp [erase, ColoredTree.inorder],
        by simp [ColoredTree.inorder], fun _ _ => rfl⟩
  | node color left label right leftHypothesis rightHypothesis =>
      obtain ⟨isNode, holdsLeft, holdsRight⟩ := holds
      simp only [ColoredTree.inorder, List.nodup_cons, List.nodup_append,
        List.mem_append, List.mem_cons, not_or] at distinct
      obtain ⟨⟨notLeft, notLabel, notRight⟩, leftDistinct,
        ⟨notInRight, rightDistinct⟩, apart⟩ := distinct
      have leftEnough :
          ∀ spine : Path Address, left = spine.plug .nil →
            spine.length + 1 < fuel := by
        rintro spine rfl
        have bound :=
          enough (spine ++ [⟨.left, color, label, right⟩])
            (by rw [Path.plug_append]; rfl)
        simpa using bound
      have rightEnough :
          ∀ spine : Path Address, right = spine.plug .nil →
            spine.length + 1 < fuel := by
        rintro spine rfl
        have bound :=
          enough (spine ++ [⟨.right, color, label, left⟩])
            (by rw [Path.plug_append]; rfl)
        simpa using bound
      obtain ⟨spine, isSpine⟩ := Path.exists_plug_nil left
      obtain ⟨rounds, rfl⟩ :=
        Nat.exists_eq_succ_of_ne_zero
          (Nat.ne_zero_of_lt (leftEnough spine isSpine))
      obtain ⟨memory1, rightErases, rightDropped, rightOthers⟩ :=
        rightHypothesis holdsRight
          (List.nodup_cons.mpr ⟨notRight, rightDistinct⟩)
          fun spine isSpine =>
            Nat.lt_of_succ_lt_succ (rightEnough spine isSpine)
      have leftOthers1 :
          ∀ address ∈ left.inorder,
            Function.update memory1 label none address = memory address := by
        intro address member
        rw [Function.update_of_ne (apart address member label (Or.inl rfl))]
        apply rightOthers
        intro isRight
        exact apart address member address (Or.inr isRight) rfl
      obtain ⟨memory2, leftErases, leftDropped, leftOthers⟩ :=
        leftHypothesis (holdsLeft.congr leftOthers1)
          (List.nodup_cons.mpr ⟨notLeft, leftDistinct⟩)
          fun spine isSpine =>
            Nat.lt_of_succ_lt_succ (leftEnough spine isSpine)
      refine ⟨memory2, ?_, ?_, ?_⟩
      · have isRoot : root (.node color left label right) = label :=
          rfl
        have loaded := (load_eq (Ne.symm notLabel)).trans isNode
        have loaded1 :=
          (load_eq (Ne.symm notLabel)).trans
            ((rightOthers label notInRight).trans isNode)
        simp [erase, isRoot, Ne.symm notLabel, loaded, rightErases, loaded1,
          leftErases, ColoredTree.inorder]
      · intro address member
        by_cases isLeft : address ∈ left.inorder
        · exact leftDropped address isLeft
        · rw [leftOthers address isLeft]
          by_cases isLabel : address = label
          · rw [isLabel, Function.update_self]
          · rw [Function.update_of_ne isLabel]
            apply rightDropped
            simpa [ColoredTree.inorder, isLeft, isLabel] using member
      · intro other notMember
        simp only [ColoredTree.inorder, List.mem_append, List.mem_cons,
          not_or] at notMember
        rw [leftOthers other notMember.1,
          Function.update_of_ne notMember.2.1,
          rightOthers other notMember.2.2]

/--
The destructor drops every node once, from the last to the first, and reads
none that it has dropped; nothing else is written.  It is never deeper in the
tree than logarithmic in the number of nodes.
-/
theorem destroy_drops
    (represents : Represents memory header nodes)
    (enough : 2 * Nat.log 2 (nodes.length + 1) < fuel) :
    ∃ memory',
      destroy fuel header memory = some (memory', nodes.reverse) ∧
        (∀ address ∈ nodes, memory' address = none) ∧
        ∀ other, other ∉ nodes → memory' other = memory other := by
  obtain ⟨tree, height, held, rfl, valid, isBlack⟩ := represents
  have distinct := held.distinct
  simp only [Path.labels, List.append_nil] at distinct
  have treeDistinct : (null :: tree.inorder).Nodup :=
    distinct.sublist ((List.sublist_cons_self header _).cons_cons null)
  have short :
      ∀ spine : Path Address, tree = spine.plug .nil →
        spine.length < fuel := by
    rintro spine rfl
    have bound := Path.length_le_log valid isBlack
    omega
  obtain ⟨memory', erases, dropped, others⟩ :=
    exists_dropped held.below treeDistinct short
  refine ⟨memory', ?_, dropped, others⟩
  simpa [destroy, held.load_header, Path.plug] using erases

theorem destroy_drops_twoNodes :
    ∃ memory', destroy 3 1 twoNodes = some (memory', [3, 2]) ∧
      memory' 2 = none ∧ memory' 3 = none := by
  obtain ⟨memory', destroys, dropped, -⟩ :=
    @destroy_drops twoNodes 1 [2, 3] 3 twoNodes_represents (by decide)
  exact ⟨memory', destroys, dropped 2 (by simp), dropped 3 (by simp)⟩

end Destroy

end CsPrimer.RbTree
