import Mathlib.Data.List.Nodup
import CsPrimer.Merge.MergeKLists

namespace CsPrimer.Merge

open Library
open Library.Tournament

/-!
# `INT_MAX` as an ordinary value

An exhausted list is cached as `INT_MAX` and the merging loop stops at that
value, so nodes that hold it are never put out.  The last node that is put out
still links to the rest of its own list: the result keeps the `INT_MAX` nodes
of that list, and no others.  Which list that is depends on the order in which
the tournament resolves ties.
-/

/-- The nodes of a list that the loop can put out. -/
def belowTop (nodes : List ListNode) (cells : List NodePtr) :
    List NodePtr :=
  cells.filter fun node => decide (valueAt nodes node < intMax)

/-- The nodes below `INT_MAX` of all lists, by way. -/
def ordinary
    (nodes : List ListNode)
    (rest : List (List NodePtr))
    (way : Nat) : List NodePtr :=
  belowTop nodes (rest[way]?.getD [])

/--
The order in which a tournament merges the nodes below `INT_MAX`: a tie stays
with the side taken last, at first with the side of the first list.
-/
def ordinaryOrder
    (nodes : List ListNode)
    (chains : List (List NodePtr)) : List NodePtr :=
  mergeOrder (valueAt nodes) chains.length (ordinary nodes chains)

/-- Every list with an `INT_MAX` is the one of the last node below it. -/
def TopAtEnd
    (nodes : List ListNode)
    (chains : List (List NodePtr)) : Prop :=
  ∀ cells ∈ chains, ∀ node ∈ cells, valueAt nodes node = intMax →
    ∃ last ∈ (ordinaryOrder nodes chains).getLast?, last ∈ cells

section BelowTop

variable
  {nodes : List ListNode}
  {node : NodePtr}
  {cells left : List NodePtr}

theorem belowTop_cons (isBelow : valueAt nodes node < intMax) :
    belowTop nodes (node :: left) = node :: belowTop nodes left := by
  simp [belowTop, isBelow]

/-- A sorted list that starts with `INT_MAX` has nothing below it. -/
theorem belowTop_eq_nil
    (sorted : SortedBy (valueAt nodes) (node :: left))
    (isTop : ¬ valueAt nodes node < intMax) :
    belowTop nodes (node :: left) = [] := by
  rw [belowTop, List.filter_eq_nil_iff]
  intro other member
  have atLeast : valueAt nodes node ≤ valueAt nodes other := by
    rcases List.mem_cons.mp member with rfl | later
    · exact le_refl _
    · exact (List.pairwise_cons.mp sorted).1 other later
  simp only [decide_eq_true_eq]
  exact fun isBelow => isTop (lt_of_le_of_lt atLeast isBelow)

/-- The cached value of a sorted list is its first one below the top. -/
theorem headValue_eq
    (sorted : SortedBy (valueAt nodes) cells)
    (bounded : ∀ node ∈ cells, valueAt nodes node ≤ intMax) :
    headValue nodes cells =
      ((belowTop nodes cells).head?.map (valueAt nodes)).getD intMax := by
  cases cells with
  | nil =>
      rfl
  | cons node left =>
      by_cases isBelow : valueAt nodes node < intMax
      · rw [belowTop_cons isBelow]
        rfl
      · rw [belowTop_eq_nil sorted isBelow]
        exact le_antisymm (bounded node List.mem_cons_self)
          (le_of_not_gt isBelow)

/-- Taking a node below the top takes it from the ordinary nodes. -/
theorem ordinary_set
    {rest : List (List NodePtr)}
    {way : Nat}
    (inBounds : way < rest.length) :
    ordinary nodes (rest.set way left) =
      Function.update (ordinary nodes rest) way (belowTop nodes left) := by
  funext other
  by_cases isWay : other = way
  · subst isWay
    simp [ordinary, inBounds]
  · simp [ordinary, isWay, Ne.symm isWay]

end BelowTop

/-- The tournament of the loop is one over the ordinary nodes. -/
theorem LoopInvariant.contest
    {original : List ListNode}
    {state : MergeState}
    {done : List NodePtr}
    {rest : List (List NodePtr)}
    {winner : Nat → Nat}
    (invariant : LoopInvariant original state done rest winner)
    (sorted : ∀ cells ∈ rest, SortedBy (valueAt original) cells)
    (bounded :
      ∀ cells ∈ rest, ∀ node ∈ cells, valueAt original node ≤ intMax) :
    Contest (valueAt original) intMax rest.length (ordinary original rest)
      (keyAt state.tree.leaf_) (loserAt state.tree.loser_) winner where
  recorded :=
    invariant.standing.recorded
  entered :=
    invariant.entered
  heading := by
    constructor
    · intro way _ node member
      simpa using (List.mem_filter.mp member).2
    · intro way playing
      have present : rest[way]? = some rest[way] :=
        List.getElem?_eq_getElem playing
      have member := List.mem_of_getElem? present
      rw [invariant.caching way _ playing present, ordinary, present,
        Option.getD_some]
      exact headValue_eq (sorted _ member) (bounded _ member)

/-- The invariant of the merging loop on sorted lists of `int` values. -/
structure OrderInvariant
    (original : List ListNode)
    (chains : List (List NodePtr))
    (state : MergeState)
    (done : List NodePtr)
    (rest : List (List NodePtr))
    (winner : Nat → Nat) : Prop where
  loop :
    LoopInvariant original state done rest winner
  merging :
    Merging (valueAt original) chains done rest
  ways :
    rest.length = chains.length
  bounded :
    ∀ cells ∈ rest, ∀ node ∈ cells, valueAt original node ≤ intMax
  sorted :
    ∀ cells ∈ rest, SortedBy (valueAt original) cells
  below :
    ∀ node ∈ done, valueAt original node < intMax
  order :
    ordinaryOrder original chains =
      done ++
        putOut (valueAt original) rest.length (ordinary original rest)
          (fromLeft winner) 1
  nothing :
    done = [] → state.dummyNext = none
  leads :
    ∀ last ∈ done.getLast?, ∃ way chain,
      chains[way]? = some chain ∧ last ∈ chain ∧
        LeadsInto state done way

namespace OrderInvariant

variable
  {original : List ListNode}
  {chains rest : List (List NodePtr)}
  {state : MergeState}
  {done : List NodePtr}
  {winner : Nat → Nat}

/-- What remains of a way is in the list of that way. -/
theorem chain_at
    (invariant : OrderInvariant original chains state done rest winner)
    {way : Nat}
    {left : List NodePtr}
    (present : rest[way]? = some left) :
    ∃ chain, chains[way]? = some chain ∧ left ⊆ chain := by
  have inBounds : way < chains.length :=
    invariant.ways ▸ (List.getElem?_eq_some_iff.mp present).1
  have given : chains[way]? = some chains[way] :=
    List.getElem?_eq_getElem inBounds
  obtain ⟨taken, remaining, stored, split, -⟩ :=
    invariant.merging.ordered way _ given
  obtain rfl : left = remaining :=
    Option.some.inj (present.symm.trans stored)
  refine ⟨_, given, ?_⟩
  rw [split]
  exact List.subset_append_right taken left

/-- A turn of the loop puts out the next node of the order. -/
theorem turn
    {node : NodePtr}
    {left : List NodePtr}
    (invariant : OrderInvariant original chains state done rest winner)
    (first : rest[winner 1]? = some (node :: left))
    (least :
      ∀ other ∈ rest, valueAt original node ≤ headValue original other)
    (isBelow : valueAt original node < intMax) :
    ∃ moved cached adjusted final,
      output state = some moved ∧
        moved.tree.loser_[0]? = some (winner 1) ∧
        input moved (winner 1) = some cached ∧
        adjust cached.tree (winner 1) = some adjusted ∧
        OrderInvariant original chains { cached with tree := adjusted }
          (done ++ [node]) (rest.set (winner 1) left) final := by
  obtain ⟨moved, cached, adjusted, final, wasMoved, leads, wasCached,
      wasAdjusted, continued, leadsInto, replayed⟩ :=
    invariant.loop.turn first
  have playing : winner 1 < rest.length :=
    (List.getElem?_eq_some_iff.mp first).1
  have chosen := List.mem_of_getElem? first
  have bounded :
      ∀ cells ∈ rest.set (winner 1) left, ∀ node ∈ cells,
        valueAt original node ≤ intMax := by
    intro cells member other isCell
    rcases List.mem_or_eq_of_mem_set member with kept | rfl
    · exact invariant.bounded cells kept other isCell
    · exact invariant.bounded _ chosen other
        (List.mem_cons_of_mem node isCell)
  have sorted :
      ∀ cells ∈ rest.set (winner 1) left,
        SortedBy (valueAt original) cells := by
    intro cells member
    rcases List.mem_or_eq_of_mem_set member with kept | rfl
    · exact invariant.sorted cells kept
    · exact (List.pairwise_cons.mp (invariant.sorted _ chosen)).2
  have after := continued.contest sorted bounded
  rw [ordinary_set playing, List.length_set] at after
  have next :
      ordinary original rest (winner 1) =
        node :: belowTop original left := by
    rw [ordinary, first, Option.getD_some, belowTop_cons isBelow]
  have source := invariant.chain_at first
  refine ⟨moved, cached, adjusted, final, wasMoved, leads, wasCached,
    wasAdjusted, continued, ?_, ?_, bounded, sorted, ?_, ?_, ?_, ?_⟩
  · refine invariant.merging.advance first ?_
    intro other member candidate isHead
    cases other with
    | nil =>
        simp at isHead
    | cons head behind =>
        obtain rfl : head = candidate := by simpa using isHead
        exact least _ member
  · rw [List.length_set]
    exact invariant.ways
  · intro other member
    rcases List.mem_append.mp member with earlier | isNode
    · exact invariant.below other earlier
    · obtain rfl := List.mem_singleton.mp isNode
      exact isBelow
  · rw [invariant.order, ordinary_set playing, List.length_set,
      (invariant.loop.contest invariant.sorted invariant.bounded).turn
        after next replayed invariant.loop.nonempty,
      List.append_assoc, List.singleton_append]
  · intro isNil
    simp at isNil
  · intro last isLast
    obtain rfl : node = last := by simpa using isLast
    obtain ⟨chain, given, inChain⟩ := source
    exact ⟨winner 1, chain, given, inChain List.mem_cons_self, leadsInto⟩

/-- At the end everything below the top has been put out in the order. -/
theorem order_eq
    (invariant : OrderInvariant original chains state done rest winner)
    (least : ∀ other ∈ rest, intMax ≤ headValue original other) :
    ordinaryOrder original chains = done := by
  have contest :=
    invariant.loop.contest invariant.sorted invariant.bounded
  have positive := invariant.loop.nonempty
  have playing := contest.winner_lt 1 Nat.one_pos (by omega)
  have present : rest[winner 1]? = some rest[winner 1] :=
    List.getElem?_eq_getElem playing
  have nothing : ordinary original rest (winner 1) = [] := by
    rw [ordinary, present, Option.getD_some]
    have member := List.mem_of_getElem? present
    have atTop := least _ member
    have inOrder := invariant.sorted _ member
    cases chosen : rest[winner 1] with
    | nil =>
        rfl
    | cons node left =>
        rw [chosen] at atTop inOrder
        exact belowTop_eq_nil inOrder (not_lt_of_ge atTop)
  have isEmpty :=
    contest.head?_putOut 1 Nat.one_pos (by omega)
  rw [nothing, List.head?_nil, List.head?_eq_none_iff] at isEmpty
  rw [invariant.order, isEmpty, List.append_nil]

/-- At the end nothing below the top remains. -/
theorem remaining_eq
    (invariant : OrderInvariant original chains state done rest winner)
    (least : ∀ other ∈ rest, intMax ≤ headValue original other)
    {cells : List NodePtr}
    (member : cells ∈ rest)
    {node : NodePtr}
    (isCell : node ∈ cells) :
    valueAt original node = intMax := by
  have atTop := least cells member
  have inOrder := invariant.sorted cells member
  refine le_antisymm (invariant.bounded cells member node isCell) ?_
  cases cells with
  | nil =>
      simp at isCell
  | cons head behind =>
      rcases List.mem_cons.mp isCell with rfl | later
      · exact atTop
      · exact le_trans atTop
          ((List.pairwise_cons.mp inOrder).1 node later)

end OrderInvariant

/-- The merging loop puts out everything below the top. -/
theorem mergeLoop_order
    {original : List ListNode}
    {chains rest : List (List NodePtr)}
    {state : MergeState}
    {done : List NodePtr}
    {winner : Nat → Nat}
    (invariant : OrderInvariant original chains state done rest winner) :
    ∃ final merged left last,
      (∀ fuel, rest.flatten.length < fuel →
        mergeLoop fuel state = some final) ∧
        OrderInvariant original chains final merged left last ∧
        ∀ other ∈ left, intMax ≤ headValue original other := by
  induction remaining : rest.flatten.length using Nat.strongRecOn
      generalizing state done rest winner with
  | ind remaining inductionHypothesis =>
      obtain ⟨cells, atChampion, isCached, least⟩ :=
        invariant.loop.champion
      have leads := invariant.loop.standing.champion
      have chosen := List.mem_of_getElem? atChampion
      by_cases atTop : headValue original cells = intMax
      · refine ⟨state, done, rest, winner, ?_, invariant,
          fun other member => atTop ▸ least other member⟩
        rw [atTop] at isCached
        intro fuel enough
        exact mergeLoop_stops leads isCached fuel (by omega)
      · cases cells with
        | nil =>
            exact absurd rfl atTop
        | cons node left =>
            have isBelow : valueAt original node < intMax :=
              lt_of_le_of_ne
                (invariant.bounded _ chosen node List.mem_cons_self) atTop
            obtain ⟨moved, cached, adjusted, next, wasMoved, stillLeads,
                wasCached, wasAdjusted, continued⟩ :=
              invariant.turn atChampion least isBelow
            have fewer :
                rest.flatten.length =
                  (rest.set (winner 1) left).flatten.length + 1 :=
              (flatten_set_perm atChampion).length_eq
            obtain ⟨final, merged, behind, last, completed, finished⟩ :=
              inductionHypothesis _ (by omega) continued rfl
            refine ⟨final, merged, behind, last, ?_, finished⟩
            intro fuel enough
            exact mergeLoop_goesOn leads isCached atTop wasMoved stillLeads
              wasCached wasAdjusted completed fuel (by omega)

/-- A node is in the list of one way only. -/
theorem way_unique
    {chains : List (List NodePtr)}
    (unshared : chains.flatten.Nodup)
    {first second : Nat}
    {cells others : List NodePtr}
    {node : NodePtr}
    (atFirst : chains[first]? = some cells)
    (atSecond : chains[second]? = some others)
    (inFirst : node ∈ cells)
    (inSecond : node ∈ others) :
    first = second := by
  have disjoint :=
    List.pairwise_iff_getElem.mp (List.nodup_flatten.mp unshared).2
  obtain ⟨firstBound, rfl⟩ := List.getElem?_eq_some_iff.mp atFirst
  obtain ⟨secondBound, rfl⟩ := List.getElem?_eq_some_iff.mp atSecond
  rcases Nat.lt_trichotomy first second with before | same | behind
  · exact absurd inSecond
      (disjoint _ _ firstBound secondBound before inFirst)
  · exact same
  · exact absurd inFirst
      (disjoint _ _ secondBound firstBound behind inSecond)

namespace OrderInvariant

variable
  {original : List ListNode}
  {chains rest : List (List NodePtr)}
  {state : MergeState}
  {done : List NodePtr}
  {winner : Nat → Nat}

/-- A node that has not been put out remains in some way. -/
theorem exists_remaining
    {cells : List NodePtr}
    {node : NodePtr}
    (invariant : OrderInvariant original chains state done rest winner)
    (member : cells ∈ chains)
    (isCell : node ∈ cells)
    (fresh : node ∉ done) :
    ∃ (way : Nat) (left : List NodePtr),
      rest[way]? = some left ∧ node ∈ left := by
  have isItem : node ∈ done ++ rest.flatten :=
    invariant.merging.complete.mem_iff.mpr
      (List.mem_flatten_of_mem member isCell)
  have isLater := (List.mem_append.mp isItem).resolve_left fresh
  obtain ⟨left, remains, isNode⟩ := List.mem_flatten.mp isLater
  obtain ⟨way, present⟩ := List.mem_iff_getElem?.mp remains
  exact ⟨way, left, present, isNode⟩

/-- If nothing has been put out it is complete exactly if nothing was given. -/
theorem nil_perm_iff
    (invariant : OrderInvariant original chains state [] rest winner)
    (least : ∀ other ∈ rest, intMax ≤ headValue original other) :
    List.Perm [] chains.flatten ↔ TopAtEnd original chains := by
  rw [TopAtEnd, invariant.order_eq least]
  constructor
  · intro isAll cells member node isCell
    exact absurd
      (isAll.mem_iff.mpr (List.mem_flatten_of_mem member isCell))
      List.not_mem_nil
  · intro none
    suffices isEmpty : chains.flatten = [] by rw [isEmpty]
    rw [List.eq_nil_iff_forall_not_mem]
    intro node isItem
    obtain ⟨cells, member, isCell⟩ := List.mem_flatten.mp isItem
    obtain ⟨way, left, present, isNode⟩ :=
      invariant.exists_remaining member isCell List.not_mem_nil
    have atTop :=
      invariant.remaining_eq least (List.mem_of_getElem? present) isNode
    obtain ⟨last, impossible, -⟩ := none cells member node isCell atTop
    cases impossible

/-- With the rest of one list it is complete exactly if no other has a rest. -/
theorem append_perm_iff
    {way : Nat}
    {chain left : List NodePtr}
    {last : NodePtr}
    (invariant : OrderInvariant original chains state done rest winner)
    (least : ∀ other ∈ rest, intMax ≤ headValue original other)
    (unshared : chains.flatten.Nodup)
    (isLast : done.getLast? = some last)
    (given : chains[way]? = some chain)
    (inChain : last ∈ chain)
    (present : rest[way]? = some left) :
    (done ++ left).Perm chains.flatten ↔ TopAtEnd original chains := by
  have complete := invariant.merging.complete
  have distinct : (done ++ left).Nodup := by
    refine invariant.loop.spliced.distinct.sublist ?_
    exact (List.sublist_flatten_of_mem
      (List.mem_of_getElem? present)).append_left done
  rw [TopAtEnd, invariant.order_eq least, isLast,
    List.perm_ext_iff_of_nodup distinct unshared]
  constructor
  · intro isAll cells member node isCell atTop
    refine ⟨last, rfl, ?_⟩
    have isItem :=
      (isAll node).mpr (List.mem_flatten_of_mem member isCell)
    have isLater : node ∈ left := by
      apply (List.mem_append.mp isItem).resolve_left
      intro isDone
      exact absurd atTop (ne_of_lt (invariant.below node isDone))
    obtain ⟨source, sourceAt, inSource⟩ := invariant.chain_at present
    obtain rfl : chain = source :=
      Option.some.inj (given.symm.trans sourceAt)
    obtain ⟨other, atOther⟩ := List.mem_iff_getElem?.mp member
    obtain rfl : way = other :=
      way_unique unshared given atOther (inSource isLater) isCell
    obtain rfl : chain = cells :=
      Option.some.inj (given.symm.trans atOther)
    exact inChain
  · intro atEnd node
    constructor
    · intro isItem
      rw [← complete.mem_iff]
      rcases List.mem_append.mp isItem with isDone | isLater
      · exact List.mem_append_left _ isDone
      · exact List.mem_append_right _
          (List.mem_flatten_of_mem (List.mem_of_getElem? present) isLater)
    · intro isItem
      obtain ⟨cells, member, isCell⟩ := List.mem_flatten.mp isItem
      by_cases isDone : node ∈ done
      · exact List.mem_append_left _ isDone
      · obtain ⟨other, remaining, atOther, isNode⟩ :=
          invariant.exists_remaining member isCell isDone
        obtain ⟨source, sourceAt, inSource⟩ := invariant.chain_at atOther
        have atTop :=
          invariant.remaining_eq least (List.mem_of_getElem? atOther)
            isNode
        obtain ⟨final, isFinal, finalInSource⟩ :=
          atEnd source (List.mem_of_getElem? sourceAt) node
            (inSource isNode) atTop
        obtain rfl : last = final := by simpa using isFinal
        obtain rfl : way = other :=
          way_unique unshared given sourceAt inChain finalInSource
        obtain rfl : left = remaining :=
          Option.some.inj (present.symm.trans atOther)
        exact List.mem_append_right _ isNode

/--
At the end the output goes on with the rest of the list of its last node; it
has all nodes exactly if no other list has nodes left.
-/
theorem result
    (invariant : OrderInvariant original chains state done rest winner)
    (least : ∀ other ∈ rest, intMax ≤ headValue original other)
    (unshared : chains.flatten.Nodup) :
    ∃ merged,
      Segment (nextAt state.nodes) state.dummyNext merged none ∧
        (merged.Perm chains.flatten ↔ TopAtEnd original chains) := by
  cases isLast : done.getLast? with
  | none =>
      obtain rfl : done = [] := List.getLast?_eq_none_iff.mp isLast
      exact ⟨[], invariant.nothing rfl, invariant.nil_perm_iff least⟩
  | some last =>
      obtain ⟨way, chain, given, inChain, link, listed, segment⟩ :=
        invariant.leads last isLast
      obtain ⟨taken, left, present, -, -⟩ :=
        invariant.merging.ordered way chain given
      have behind :=
        invariant.loop.spliced.remaining way link left listed present
      exact ⟨done ++ left, segment.append behind,
        invariant.append_perm_iff least unshared isLast given inChain
          present⟩

end OrderInvariant

/--
On any number of sorted lists without shared nodes, with values from
`INT_MIN + 1` to `INT_MAX`, `mergeKLists` returns a list, which has every node
exactly once if and only if every list with an `INT_MAX` is the list of the
last node below it.
-/
theorem mergeKLists_keepsAll_iff
    (tree : LoserTree)
    (nodes : List ListNode)
    (lists : List (Option NodePtr))
    (chains : List (List NodePtr))
    (represented :
      List.Forall₂
        (fun head cells => Segment (nextAt nodes) head cells none)
        lists chains)
    (unshared : chains.flatten.Nodup)
    (inRange :
      ∀ cells ∈ chains, ∀ node ∈ cells,
        intMin < valueAt nodes node ∧ valueAt nodes node ≤ intMax)
    (sorted : ∀ cells ∈ chains, SortedBy (valueAt nodes) cells)
    (nonempty : lists ≠ []) :
    ∃ result merged,
      (∀ fuel, chains.flatten.length < fuel →
        mergeKLists fuel tree nodes lists = some result) ∧
        Segment (nextAt result.nodes) result.head merged none ∧
        (merged.Perm chains.flatten ↔ TopAtEnd nodes chains) := by
  have positive : 0 < chains.length :=
    represented.length_eq ▸ List.length_pos_of_ne_nil nonempty
  have aboveMinimum : ∀ cells ∈ chains, intMin < headValue nodes cells := by
    intro cells member
    cases cells with
    | nil =>
        exact (by decide : intMin < intMax)
    | cons node behind =>
        exact (inRange _ member node List.mem_cons_self).1
  have bounded :
      ∀ cells ∈ chains, ∀ node ∈ cells, valueAt nodes node ≤ intMax :=
    fun cells member node isCell => (inRange cells member node isCell).2
  obtain ⟨entered, created, winner, wasEntered, wasCreated, loop, senior⟩ :=
    begin_loop tree represented unshared aboveMinimum positive
  have started :
      OrderInvariant nodes chains { entered with tree := created } []
        chains winner := by
    refine ⟨loop, Merging.start, rfl, bounded, sorted, by simp, ?_, ?_, by simp⟩
    · exact (loop.contest sorted bounded).mergeOrder_eq senior positive
    · intro _
      obtain ⟨cached, wasCached, -⟩ :=
        begin_cached tree represented unshared
      obtain rfl := Option.some.inj (wasCached.symm.trans wasEntered)
      rfl
  obtain ⟨final, merged, left, last, completed, finished, least⟩ :=
    mergeLoop_order started
  obtain ⟨merged, isList, complete⟩ := finished.result least unshared
  refine ⟨{ head := final.dummyNext, nodes := final.nodes,
            lists := final.lists, tree := final.tree },
    merged, ?_, isList, complete⟩
  intro fuel enough
  unfold begun at wasEntered
  simp [mergeKLists, nonempty, wasEntered, wasCreated,
    completed fuel enough]

/-- The guarantee is met by a list of 3 and `INT_MAX` and one of 2 and 2. -/
theorem mergeKLists_keepsAll_iff_oneTop :
    ∃ result merged,
      (∀ fuel, 4 < fuel →
        mergeKLists fuel { loser_ := [], leaf_ := [] }
          [⟨3, some 1⟩, ⟨intMax, none⟩, ⟨2, some 3⟩, ⟨2, none⟩]
          [some 0, some 2] = some result) ∧
        Segment (nextAt result.nodes) result.head merged none ∧
        merged.Perm [0, 1, 2, 3] := by
  obtain ⟨result, merged, returned, isList, complete⟩ :=
    mergeKLists_keepsAll_iff { loser_ := [], leaf_ := [] }
      [⟨3, some 1⟩, ⟨intMax, none⟩, ⟨2, some 3⟩, ⟨2, none⟩]
      [some 0, some 2] [[0, 1], [2, 3]]
      (by simp [Segment, nextAt]) (by decide) (by decide)
      (by simp [SortedBy, valueAt, intMax]) (by decide)
  refine ⟨result, merged, returned, isList, complete.mpr ?_⟩
  have order :
      ordinaryOrder [⟨3, some 1⟩, ⟨intMax, none⟩, ⟨2, some 3⟩, ⟨2, none⟩]
        [[0, 1], [2, 3]] = [2, 3, 0] := by
    have isLeft : seniorChild [[0, 1], [2, 3]].length 1 = 2 * 1 := by
      rw [seniorChild, firstEntrant, firstEntrant]
      decide
    rw [ordinaryOrder, mergeOrder, putOut, if_pos (by decide),
      if_pos (decide_eq_true isLeft), putOut_leaf (by decide),
      putOut_leaf (by decide)]
    simp [ordinary, belowTop, valueAt, stickyMerge, intMax]
  rw [TopAtEnd, order]
  decide

/-- With the lists `INT_MAX` and 1 the first one is lost. -/
theorem mergeKLists_not_keepsAll :
    ¬ ∀ (tree : LoserTree) nodes lists chains,
      List.Forall₂
          (fun head cells => Segment (nextAt nodes) head cells none)
          lists chains →
      chains.flatten.Nodup →
      (∀ cells ∈ chains, ∀ node ∈ cells,
        intMin < valueAt nodes node ∧ valueAt nodes node ≤ intMax) →
      (∀ cells ∈ chains, SortedBy (valueAt nodes) cells) →
      lists ≠ [] →
      ∃ result merged,
        (∀ fuel, chains.flatten.length < fuel →
          mergeKLists fuel tree nodes lists = some result) ∧
          Segment (nextAt result.nodes) result.head merged none ∧
          merged.Perm chains.flatten := by
  intro always
  obtain ⟨result, merged, returned, isList, complete⟩ :=
    always { loser_ := [], leaf_ := [] } [⟨intMax, none⟩, ⟨1, none⟩]
      [some 0, some 1] [[0], [1]] (by simp [Segment, nextAt])
      (by decide) (by decide) (by simp [SortedBy]) (by decide)
  have ends :
      (mergeKLists 3 { loser_ := [], leaf_ := [] }
          [⟨intMax, none⟩, ⟨1, none⟩] [some 0, some 1]).map
        (fun result => (result.head, result.nodes[1]?.map ListNode.next)) =
      some (some 1, some none) := by
    decide +kernel
  rw [returned 3 (by decide), Option.map_some, Option.some.injEq,
    Prod.mk.injEq] at ends
  obtain ⟨isHead, isEnd⟩ := ends
  obtain ⟨first, second, rfl⟩ := List.length_eq_two.mp complete.length_eq
  rw [isHead] at isList
  obtain ⟨isFirst, link, stored, isSecond, -⟩ := isList
  obtain rfl : 1 = first := Option.some.inj isFirst
  rw [nextAt, isEnd, Option.some.injEq] at stored
  rw [← stored] at isSecond
  cases isSecond

end CsPrimer.Merge
