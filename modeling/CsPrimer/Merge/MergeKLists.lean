import CsPrimer.Library.KWayMerge
import CsPrimer.Library.ListSegment
import CsPrimer.Merge.Replay

namespace CsPrimer.Merge

open Library
open Library.Tournament

/-!
# `mergeKLists` is a k-way merge

The nodes that have been put out form a segment from the dummy node to `tail`;
the link of `tail` still points into the list its node came from.  What is left
of the input lists stays in place, so one turn of the merging loop is one step
of the abstract merge, chosen by the tournament over the cached head values.
-/

/-- The link stored in an allocated node. -/
def nextAt (nodes : List ListNode) (node : NodePtr) :
    Option (Option NodePtr) :=
  nodes[node]?.map ListNode.next

/-- The value stored in an allocated node. -/
def valueAt (nodes : List ListNode) (node : NodePtr) : Int :=
  (nodes[node]?.map ListNode.val).getD 0

/-- The value `input` caches for a list of nodes. -/
def headValue (nodes : List ListNode) : List NodePtr → Int
  | [] =>
      intMax
  | node :: _ =>
      valueAt nodes node

/-- `done` is spliced behind the dummy node and `rest` is still in place. -/
structure Spliced
    (original : List ListNode)
    (state : MergeState)
    (done : List NodePtr)
    (rest : List (List NodePtr)) : Prop where
  values :
    ∀ node : NodePtr, state.nodes[node]?.map ListNode.val =
      original[node]?.map ListNode.val
  ways :
    state.lists.length = rest.length
  remaining :
    ∀ (way : Nat) (head : Option NodePtr) (cells : List NodePtr),
      state.lists[way]? = some head →
        rest[way]? = some cells →
          Segment (nextAt state.nodes) head cells none
  distinct :
    (done ++ rest.flatten).Nodup
  output :
    ∃ stop,
      Segment (nextAt state.nodes) state.dummyNext done stop ∧
        (stop = none ∨ stop ∈ state.lists)
  tail :
    state.tail = done.getLast?

/-- `tail->next = link` redirects the end of the output to `link`. -/
theorem linkTail_spec
    {state : MergeState}
    {done : List NodePtr}
    {stop : Option NodePtr}
    (link : Option NodePtr)
    (segment : Segment (nextAt state.nodes) state.dummyNext done stop)
    (distinct : done.Nodup)
    (atTail : state.tail = done.getLast?) :
    ∃ linked,
      linkTail state link = some linked ∧
        linked.tree = state.tree ∧
        linked.lists = state.lists ∧
        Segment (nextAt linked.nodes) linked.dummyNext done link ∧
        (∀ node : NodePtr, linked.nodes[node]?.map ListNode.val =
          state.nodes[node]?.map ListNode.val) ∧
        ∀ node, node ∉ done →
          nextAt linked.nodes node = nextAt state.nodes node := by
  rcases List.eq_nil_or_concat' done with rfl | ⟨front, last, rfl⟩
  · refine ⟨{ state with dummyNext := link }, ?_, rfl, rfl, rfl,
      fun _ => rfl, fun _ _ => rfl⟩
    simp [linkTail, atTail]
  · have isTail : state.tail = some last := by
      simpa using atTail
    obtain ⟨-, stored⟩ := segment.split_last
    obtain ⟨object, found, -⟩ := Option.map_eq_some_iff.mp stored
    have inBounds : last < state.nodes.length :=
      (List.getElem?_eq_some_iff.mp found).1
    refine ⟨{ state with
      nodes := state.nodes.set last { object with next := link } },
      ?_, rfl, rfl, ?_, ?_, ?_⟩
    · simp [linkTail, isTail, found]
    · refine segment.redirect distinct ?_ ?_
      · simp [nextAt, inBounds]
      · intro cell other
        simp [nextAt, List.getElem?_set_ne (Ne.symm other)]
    · intro node
      by_cases isLast : node = last
      · rw [isLast, List.getElem?_set_self inBounds, found]
        rfl
      · simp [List.getElem?_set_ne (Ne.symm isLast)]
    · intro node fresh
      have other : last ≠ node := by
        rintro rfl
        exact fresh (by simp)
      simp [nextAt, List.getElem?_set_ne other]

/-- Every way has a list, which represents what remains of it. -/
theorem Spliced.list_at
    {original : List ListNode}
    {state : MergeState}
    {done cells : List NodePtr}
    {rest : List (List NodePtr)}
    {way : Nat}
    (spliced : Spliced original state done rest)
    (present : rest[way]? = some cells) :
    ∃ head,
      state.lists[way]? = some head ∧
        Segment (nextAt state.nodes) head cells none := by
  have inBounds : way < state.lists.length := by
    rw [spliced.ways]
    exact (List.getElem?_eq_some_iff.mp present).1
  have stored : state.lists[way]? = some state.lists[way] :=
    List.getElem?_eq_getElem inBounds
  exact ⟨_, stored, spliced.remaining way _ cells stored present⟩

/-- A node that has been put out is in no remaining list. -/
theorem Spliced.fresh
    {original : List ListNode}
    {state : MergeState}
    {done cells : List NodePtr}
    {rest : List (List NodePtr)}
    {way : Nat}
    {node : NodePtr}
    (spliced : Spliced original state done rest)
    (present : rest[way]? = some cells)
    (member : node ∈ cells) :
    node ∉ done := by
  intro isDone
  exact (List.nodup_append.mp spliced.distinct).2.2 node isDone node
    (List.mem_flatten.mpr ⟨cells, List.mem_of_getElem? present, member⟩)
    rfl

/-- The last link of the output leads into the list of a way. -/
def LeadsInto
    (state : MergeState)
    (done : List NodePtr)
    (way : Nat) : Prop :=
  ∃ link,
    state.lists[way]? = some link ∧
      Segment (nextAt state.nodes) state.dummyNext done link

/-- `output` moves the first remaining node of the champion's list. -/
theorem output_spec
    {original : List ListNode}
    {state : MergeState}
    {done left : List NodePtr}
    {rest : List (List NodePtr)}
    {champion : Nat}
    {node : NodePtr}
    (spliced : Spliced original state done rest)
    (leads : state.tree.loser_[0]? = some champion)
    (first : rest[champion]? = some (node :: left)) :
    ∃ moved,
      output state = some moved ∧
        moved.tree = state.tree ∧
        Spliced original moved (done ++ [node])
          (rest.set champion left) ∧
        LeadsInto moved (done ++ [node]) champion := by
  obtain ⟨stop, segment, -⟩ := spliced.output
  obtain ⟨head, atChampion, cells⟩ := spliced.list_at first
  obtain ⟨linked, wasLinked, sameTree, sameLists, redirected,
      sameValues, kept⟩ :=
    linkTail_spec head segment
      (List.nodup_append.mp spliced.distinct).1 spliced.tail
  obtain ⟨rfl, link, stored, behind⟩ := cells
  have nodeFresh : node ∉ done :=
    spliced.fresh first (List.mem_cons_self ..)
  have storedStill : nextAt linked.nodes node = some link :=
    (kept node nodeFresh).trans stored
  obtain ⟨object, found, linkIs⟩ := Option.map_eq_some_iff.mp storedStill
  have inBounds : champion < linked.lists.length :=
    sameLists ▸ (List.getElem?_eq_some_iff.mp atChampion).1
  have advanced :
      (linked.lists.set champion object.next)[champion]? =
        some object.next := by
    simp [inBounds]
  refine ⟨{ linked with
    tail := some node, lists := linked.lists.set champion object.next },
    ?_, sameTree, ?_, ⟨object.next, advanced,
      redirected.snoc (linkIs.symm ▸ storedStill)⟩⟩
  · simp [output, leads, atChampion, wasLinked, found, assign, inBounds]
  · subst linkIs
    constructor
    · exact fun other => (sameValues other).trans (spliced.values other)
    · simpa [sameLists] using spliced.ways
    · intro way start cells listed present
      have untouched :
          ∀ {way : Nat} {start : Option NodePtr} {cells : List NodePtr},
            rest[way]? = some cells →
            Segment (nextAt state.nodes) start cells none →
            Segment (nextAt linked.nodes) start cells none :=
        fun present segment =>
          segment.frame fun cell member =>
            kept cell (spliced.fresh present member)
      by_cases isChampion : way = champion
      · subst isChampion
        obtain rfl : object.next = start := by
          simpa [inBounds] using listed
        obtain rfl : left = cells := by
          have restBounds := (List.getElem?_eq_some_iff.mp first).1
          simpa [restBounds] using present
        refine behind.frame fun cell member => ?_
        exact kept cell
          (spliced.fresh first (List.mem_cons_of_mem node member))
      · refine untouched
          (by simpa [Ne.symm isChampion] using present)
          (spliced.remaining way start cells ?_ ?_)
        · simpa [Ne.symm isChampion, sameLists] using listed
        · simpa [Ne.symm isChampion] using present
    · have moved :
          (done ++ rest.flatten).Perm
            (done ++ node :: (rest.set champion left).flatten) :=
        (flatten_set_perm first).append_left done
      have distinct := moved.nodup_iff.mp spliced.distinct
      simpa using distinct
    · exact ⟨object.next, redirected.snoc storedStill,
        .inr (List.mem_of_getElem? advanced)⟩
    · simp

/-- Every node of the remaining lists lies strictly inside the `int` range. -/
def InRange (original : List ListNode) (rest : List (List NodePtr)) : Prop :=
  ∀ cells ∈ rest, ∀ node ∈ cells,
    intMin < valueAt original node ∧ valueAt original node < intMax

/-- The head values of the ways below `ready` are cached. -/
def Caching
    (original : List ListNode)
    (tree : LoserTree)
    (rest : List (List NodePtr))
    (ready : Nat) : Prop :=
  ∀ (way : Nat) (cells : List NodePtr),
    way < ready →
      rest[way]? = some cells →
        keyAt tree.leaf_ way = headValue original cells

/-- `input` caches the head value of one way. -/
theorem input_spec
    {original : List ListNode}
    {state : MergeState}
    {done cells : List NodePtr}
    {rest : List (List NodePtr)}
    {way : Nat}
    (spliced : Spliced original state done rest)
    (present : rest[way]? = some cells)
    (inBounds : way < state.tree.leaf_.length) :
    ∃ tree,
      input state way = some { state with tree := tree } ∧
        tree.loser_ = state.tree.loser_ ∧
        tree.leaf_ =
          state.tree.leaf_.set way (headValue original cells) := by
  obtain ⟨head, listed, segment⟩ := spliced.list_at present
  refine ⟨{ state.tree with
    leaf_ := state.tree.leaf_.set way (headValue original cells) },
    ?_, rfl, rfl⟩
  cases cells with
  | nil =>
      obtain rfl : head = none := segment
      simp [input, listed, assign, inBounds, headValue]
  | cons node left =>
      obtain ⟨rfl, link, stored, -⟩ := segment
      obtain ⟨object, found, -⟩ := Option.map_eq_some_iff.mp stored
      have sameValue : original[node]?.map ListNode.val = some object.val := by
        rw [← spliced.values node, found]
        rfl
      simp [input, listed, found, assign, inBounds, headValue, valueAt,
        sameValue]

/-- Only the cached values matter to the memory of the merge. -/
theorem Spliced.with_tree
    {original : List ListNode}
    {state : MergeState}
    {done : List NodePtr}
    {rest : List (List NodePtr)}
    (spliced : Spliced original state done rest)
    (tree : LoserTree) :
    Spliced original { state with tree := tree } done rest :=
  { spliced with }

/-- Caching the next way leaves the earlier ones cached. -/
theorem Caching.next
    {original : List ListNode}
    {tree changed : LoserTree}
    {rest : List (List NodePtr)}
    {cells : List NodePtr}
    {way : Nat}
    (caching : Caching original tree rest way)
    (present : rest[way]? = some cells)
    (inBounds : way < tree.leaf_.length)
    (updated :
      changed.leaf_ = tree.leaf_.set way (headValue original cells)) :
    Caching original changed rest (way + 1) := by
  intro other others inRange stored
  rw [updated]
  by_cases isWay : other = way
  · subst isWay
    obtain rfl : cells = others :=
      Option.some.inj (present.symm.trans stored)
    exact keyAt_set_self inBounds
  · exact (keyAt_set_of_ne _ isWay).trans
      (caching other others (by omega) stored)

/-- A way is cached again when its list has changed. -/
theorem Caching.change
    {original : List ListNode}
    {tree changed : LoserTree}
    {rest : List (List NodePtr)}
    {left : List NodePtr}
    {way ways : Nat}
    (caching : Caching original tree rest ways)
    (playing : way < rest.length)
    (inBounds : way < tree.leaf_.length)
    (updated :
      changed.leaf_ = tree.leaf_.set way (headValue original left)) :
    Caching original changed (rest.set way left) ways := by
  intro other cells inRange stored
  rw [updated]
  by_cases isWay : other = way
  · subst isWay
    obtain rfl : left = cells := by
      simpa [playing] using stored
    exact keyAt_set_self inBounds
  · apply (keyAt_set_of_ne _ isWay).trans
    apply caching other cells inRange
    simpa [Ne.symm isWay] using stored

/-- The first loop of `mergeKLists` caches every way. -/
theorem inputWays_spec
    {original : List ListNode}
    {state : MergeState}
    {done : List NodePtr}
    {rest : List (List NodePtr)}
    {first ways : Nat}
    (spliced : Spliced original state done rest)
    (caching : Caching original state.tree rest first)
    (all : first + ways = rest.length)
    (leaves : state.tree.leaf_.length = rest.length + 1) :
    ∃ tree,
      inputWays state first ways = some { state with tree := tree } ∧
        tree.loser_ = state.tree.loser_ ∧
        tree.leaf_.length = rest.length + 1 ∧
        Caching original tree rest rest.length := by
  induction ways generalizing state first with
  | zero =>
      obtain rfl : first = rest.length := all
      exact ⟨state.tree, rfl, rfl, leaves, caching⟩
  | succ ways inductionHypothesis =>
      have present : rest[first]? = some rest[first] :=
        List.getElem?_eq_getElem (by omega)
      have inBounds : first < state.tree.leaf_.length := by omega
      obtain ⟨cached, wasCached, sameLosers, updated⟩ :=
        input_spec spliced present inBounds
      obtain ⟨tree, entered, losers, length, complete⟩ :=
        inductionHypothesis (spliced.with_tree cached)
          (caching.next present inBounds updated) (by omega)
          (by simpa [updated] using leaves)
      refine ⟨tree, ?_, losers.trans sameLosers, length, complete⟩
      simpa [inputWays, wasCached] using entered

/-- The part of the loop invariant that holds for any values. -/
structure LoopInvariant
    (original : List ListNode)
    (state : MergeState)
    (done : List NodePtr)
    (rest : List (List NodePtr))
    (winner : Nat → Nat) : Prop where
  spliced :
    Spliced original state done rest
  caching :
    Caching original state.tree rest rest.length
  standing :
    Standing state.tree rest.length winner
  entered :
    Entered winner rest.length
  nonempty :
    0 < rest.length

namespace LoopInvariant

variable
  {original : List ListNode}
  {state : MergeState}
  {done : List NodePtr}
  {rest : List (List NodePtr)}
  {winner : Nat → Nat}

/-- The champion is a way, whose cached value is a least head value. -/
theorem champion
    (invariant : LoopInvariant original state done rest winner) :
    ∃ cells,
      rest[winner 1]? = some cells ∧
        state.tree.leaf_[winner 1]? = some (headValue original cells) ∧
        ∀ other ∈ rest, headValue original cells ≤ headValue original other := by
  have playing :=
    invariant.standing.recorded.champion_lt invariant.entered
      invariant.nonempty
  have present : rest[winner 1]? = some rest[winner 1] :=
    List.getElem?_eq_getElem playing
  have isCached := invariant.caching _ _ playing present
  refine ⟨rest[winner 1], present, ?_, ?_⟩
  · rw [getElem?_eq_keyAt (by rw [invariant.standing.leaves]; omega),
      isCached]
  · intro other member
    obtain ⟨way, stored⟩ := List.mem_iff_getElem?.mp member
    have inBounds : way < rest.length :=
      (List.getElem?_eq_some_iff.mp stored).1
    have least :=
      invariant.standing.recorded.champion_le invariant.entered inBounds
    rwa [isCached, invariant.caching way other inBounds stored] at least

/-- One turn of the loop moves the champion's first node to the output. -/
theorem turn
    {node : NodePtr}
    {left : List NodePtr}
    (invariant : LoopInvariant original state done rest winner)
    (first : rest[winner 1]? = some (node :: left)) :
    ∃ moved cached adjusted final,
      output state = some moved ∧
        moved.tree.loser_[0]? = some (winner 1) ∧
        input moved (winner 1) = some cached ∧
        adjust cached.tree (winner 1) = some adjusted ∧
        LoopInvariant original { cached with tree := adjusted }
          (done ++ [node]) (rest.set (winner 1) left) final ∧
        LeadsInto { cached with tree := adjusted } (done ++ [node])
          (winner 1) ∧
        Replayed (keyAt adjusted.leaf_) winner final
          (rest.length + winner 1) := by
  have playing : winner 1 < rest.length :=
    (List.getElem?_eq_some_iff.mp first).1
  obtain ⟨moved, wasMoved, sameTree, spliced, leadsInto⟩ :=
    output_spec invariant.spliced invariant.standing.champion first
  have present : (rest.set (winner 1) left)[winner 1]? = some left := by
    simp [playing]
  have leavesInBounds : winner 1 < moved.tree.leaf_.length := by
    rw [sameTree, invariant.standing.leaves]
    omega
  obtain ⟨cached, wasCached, sameLosers, updated⟩ :=
    input_spec spliced present leavesInBounds
  rw [sameTree] at sameLosers updated
  obtain ⟨adjusted, final, wasAdjusted, sameLeaves, standing, entered,
      replayed⟩ :=
    adjust_champion_spec invariant.standing invariant.entered
      invariant.nonempty sameLosers updated
  refine ⟨moved, _, adjusted, final, wasMoved, ?_, wasCached,
    wasAdjusted, ?_, leadsInto, sameLeaves ▸ replayed⟩
  · rw [sameTree]
    exact invariant.standing.champion
  · constructor
    · exact spliced.with_tree adjusted
    · rw [List.length_set]
      exact invariant.caching.change playing (sameTree ▸ leavesInBounds)
        (sameLeaves.trans updated)
    · simpa using standing
    · simpa using entered
    · simpa using invariant.nonempty

end LoopInvariant

/-- The invariant of the merging loop. -/
structure MergeInvariant
    (original : List ListNode)
    (chains : List (List NodePtr))
    (state : MergeState)
    (done : List NodePtr)
    (rest : List (List NodePtr))
    (winner : Nat → Nat) : Prop where
  spliced :
    Spliced original state done rest
  merging :
    Merging (valueAt original) chains done rest
  inRange :
    InRange original rest
  caching :
    Caching original state.tree rest rest.length
  standing :
    Standing state.tree rest.length winner
  entered :
    Entered winner rest.length
  nonempty :
    0 < rest.length

namespace MergeInvariant

variable
  {original : List ListNode}
  {chains rest : List (List NodePtr)}
  {state : MergeState}
  {done : List NodePtr}
  {winner : Nat → Nat}

/-- The part that does not depend on the values. -/
theorem loop
    (invariant : MergeInvariant original chains state done rest winner) :
    LoopInvariant original state done rest winner :=
  ⟨invariant.spliced, invariant.caching, invariant.standing,
    invariant.entered, invariant.nonempty⟩

/-- One turn of the loop is a step of the merge. -/
theorem turn
    {node : NodePtr}
    {left : List NodePtr}
    (invariant : MergeInvariant original chains state done rest winner)
    (first : rest[winner 1]? = some (node :: left))
    (least :
      ∀ other ∈ rest, valueAt original node ≤ headValue original other) :
    ∃ moved cached adjusted final,
      output state = some moved ∧
        moved.tree.loser_[0]? = some (winner 1) ∧
        input moved (winner 1) = some cached ∧
        adjust cached.tree (winner 1) = some adjusted ∧
        MergeInvariant original chains { cached with tree := adjusted }
          (done ++ [node]) (rest.set (winner 1) left) final := by
  obtain ⟨moved, cached, adjusted, final, wasMoved, leads, wasCached,
      wasAdjusted, continued, -, -⟩ := invariant.loop.turn first
  refine ⟨moved, cached, adjusted, final, wasMoved, leads, wasCached,
    wasAdjusted, {
      spliced := continued.spliced
      merging := ?_
      inRange := ?_
      caching := continued.caching
      standing := continued.standing
      entered := continued.entered
      nonempty := continued.nonempty
    }⟩
  · refine invariant.merging.advance first ?_
    intro other member candidate isHead
    cases other with
    | nil =>
        simp at isHead
    | cons head behind =>
        obtain rfl : head = candidate := by simpa using isHead
        exact least _ member
  · intro cells member cell isCell
    rcases List.mem_or_eq_of_mem_set member with remaining | rfl
    · exact invariant.inRange cells remaining cell isCell
    · exact invariant.inRange _ (List.mem_of_getElem? first) cell
        (List.mem_cons_of_mem node isCell)

/-- If the champion's list is exhausted, every list is. -/
theorem exhausted
    (invariant : MergeInvariant original chains state done rest winner)
    (least : ∀ other ∈ rest, intMax ≤ headValue original other) :
    ∀ left ∈ rest, left = [] := by
  intro left member
  cases left with
  | nil =>
      rfl
  | cons node behind =>
      have bound := least _ member
      have inRange :=
        invariant.inRange _ member node (List.mem_cons_self ..)
      exact absurd bound (not_le_of_gt inRange.2)

end MergeInvariant

section Loop

variable
  {state final : MergeState}
  {champion : Nat}
  {least : Int}

/-- The merging loop stops when the champion has nothing left. -/
theorem mergeLoop_stops
    (leads : state.tree.loser_[0]? = some champion)
    (isCached : state.tree.leaf_[champion]? = some intMax)
    (fuel : Nat)
    (enough : 0 < fuel) :
    mergeLoop fuel state = some state := by
  obtain ⟨fuel, rfl⟩ := Nat.exists_eq_succ_of_ne_zero (Nat.ne_of_gt enough)
  simp [mergeLoop, leads, isCached]

/-- A turn of the merging loop needs one more unit of fuel. -/
theorem mergeLoop_goesOn
    {moved cached : MergeState}
    {adjusted : LoserTree}
    {next turns : Nat}
    (leads : state.tree.loser_[0]? = some champion)
    (isCached : state.tree.leaf_[champion]? = some least)
    (notDone : least ≠ intMax)
    (wasMoved : output state = some moved)
    (stillLeads : moved.tree.loser_[0]? = some next)
    (wasCached : input moved next = some cached)
    (wasAdjusted : adjust cached.tree next = some adjusted)
    (completed :
      ∀ fuel, turns < fuel →
        mergeLoop fuel { cached with tree := adjusted } = some final)
    (fuel : Nat)
    (enough : turns + 1 < fuel) :
    mergeLoop fuel state = some final := by
  obtain ⟨fuel, rfl⟩ :=
    Nat.exists_eq_succ_of_ne_zero (Nat.ne_zero_of_lt enough)
  simpa [mergeLoop, leads, isCached, notDone, wasMoved, stillLeads,
    wasCached, wasAdjusted] using completed fuel (by omega)

end Loop

/-- The merging loop puts out everything that remains. -/
theorem mergeLoop_spec
    {original : List ListNode}
    {chains rest : List (List NodePtr)}
    {state : MergeState}
    {done : List NodePtr}
    {winner : Nat → Nat}
    (invariant : MergeInvariant original chains state done rest winner) :
    ∃ final merged left,
      (∀ fuel, rest.flatten.length < fuel →
        mergeLoop fuel state = some final) ∧
        Spliced original final merged left ∧
        Merging (valueAt original) chains merged left ∧
        ∀ cells ∈ left, cells = [] := by
  induction remaining : rest.flatten.length using Nat.strongRecOn
      generalizing state done rest winner with
  | ind remaining inductionHypothesis =>
      obtain ⟨cells, atChampion, isCached, least⟩ :=
        invariant.loop.champion
      have leads := invariant.standing.champion
      cases cells with
      | nil =>
          refine ⟨state, done, rest, ?_, invariant.spliced,
            invariant.merging, invariant.exhausted least⟩
          intro fuel enough
          exact mergeLoop_stops leads isCached fuel (by omega)
      | cons node left =>
          have inRange :=
            invariant.inRange _ (List.mem_of_getElem? atChampion) node
              (List.mem_cons_self ..)
          obtain ⟨moved, cached, adjusted, next, wasMoved, stillLeads,
              wasCached, wasAdjusted, continued⟩ :=
            invariant.turn atChampion least
          have fewer :
              rest.flatten.length =
                (rest.set (winner 1) left).flatten.length + 1 :=
            (flatten_set_perm atChampion).length_eq
          obtain ⟨final, merged, behind, completed, spliced, merging,
              nothingLeft⟩ :=
            inductionHypothesis _ (by omega) continued rfl
          refine ⟨final, merged, behind, ?_, spliced, merging,
            nothingLeft⟩
          intro fuel enough
          exact mergeLoop_goesOn leads isCached (ne_of_lt inRange.2)
            wasMoved stillLeads wasCached wasAdjusted completed fuel
            (by omega)

/-- Before the first turn every node is in its own list. -/
theorem Spliced.start
    {nodes : List ListNode}
    {lists : List (Option NodePtr)}
    {chains : List (List NodePtr)}
    (tree : LoserTree)
    (represented :
      List.Forall₂
        (fun head cells => Segment (nextAt nodes) head cells none)
        lists chains)
    (unshared : chains.flatten.Nodup) :
    Spliced nodes
      { tree := tree
        nodes := nodes
        lists := lists
        dummyNext := none
        tail := none }
      [] chains where
  values _ :=
    rfl
  ways :=
    represented.length_eq
  remaining way head cells listed present := by
    obtain ⟨listBound, rfl⟩ := List.getElem?_eq_some_iff.mp listed
    obtain ⟨chainBound, rfl⟩ := List.getElem?_eq_some_iff.mp present
    exact represented.get listBound chainBound
  distinct := by
    simpa using unshared
  output :=
    ⟨none, rfl, .inl rfl⟩
  tail :=
    rfl

/-- When every list is exhausted, the output is a complete list. -/
theorem Spliced.result
    {original : List ListNode}
    {state : MergeState}
    {done : List NodePtr}
    {rest : List (List NodePtr)}
    (spliced : Spliced original state done rest)
    (exhausted : ∀ cells ∈ rest, cells = []) :
    Segment (nextAt state.nodes) state.dummyNext done none := by
  obtain ⟨stop, segment, ends⟩ := spliced.output
  rcases ends with rfl | listed
  · exact segment
  · obtain ⟨way, stored⟩ := List.mem_iff_getElem?.mp listed
    have inBounds : way < rest.length :=
      spliced.ways ▸ (List.getElem?_eq_some_iff.mp stored).1
    have present : rest[way]? = some rest[way] :=
      List.getElem?_eq_getElem inBounds
    have empty := exhausted _ (List.mem_of_getElem? present)
    have last := spliced.remaining way stop _ stored present
    rw [empty] at last
    obtain rfl : stop = none := last
    exact segment

theorem resize_length
    {α : Type}
    (vector : List α)
    (size : Nat)
    (zero : α) :
    (resize vector size zero).length = size := by
  simp only [resize, List.length_append, List.length_take,
    List.length_replicate]
  omega

/-- The local variables of `mergeKLists` before its first loop. -/
def begun
    (tree : LoserTree)
    (nodes : List ListNode)
    (lists : List (Option NodePtr)) : MergeState where
  tree :=
    { loser_ := resize tree.loser_ lists.length 0
      leaf_ := resize tree.leaf_ (lists.length + 1) 0 }
  nodes :=
    nodes
  lists :=
    lists
  dummyNext :=
    none
  tail :=
    none

section Begin

variable
  {nodes : List ListNode}
  {lists : List (Option NodePtr)}
  {chains : List (List NodePtr)}

/-- The first loop of `mergeKLists` caches the head values of all lists. -/
theorem begin_cached
    (tree : LoserTree)
    (represented :
      List.Forall₂
        (fun head cells => Segment (nextAt nodes) head cells none)
        lists chains)
    (unshared : chains.flatten.Nodup) :
    ∃ entered,
      inputWays (begun tree nodes lists) 0 lists.length =
          some { begun tree nodes lists with tree := entered } ∧
        entered.leaf_.length = chains.length + 1 ∧
        entered.loser_.length = chains.length ∧
        Caching nodes entered chains chains.length := by
  have ways := represented.length_eq
  have leaves :
      (resize tree.leaf_ (lists.length + 1) 0).length =
        chains.length + 1 := by
    rw [resize_length, ways]
  obtain ⟨entered, wasEntered, losers, length, caching⟩ :=
    inputWays_spec
      (Spliced.start (begun tree nodes lists).tree represented unshared)
      (fun way cells impossible => absurd impossible (Nat.not_lt_zero way))
      ((Nat.zero_add lists.length).trans ways) leaves
  refine ⟨entered, wasEntered, length, ?_, caching⟩
  rw [losers, begun, resize_length, ways]

/-- Above the minimum the part before the second loop sets up the loop. -/
theorem begin_loop
    (tree : LoserTree)
    (represented :
      List.Forall₂
        (fun head cells => Segment (nextAt nodes) head cells none)
        lists chains)
    (unshared : chains.flatten.Nodup)
    (aboveMinimum :
      ∀ cells ∈ chains, intMin < headValue nodes cells)
    (nonempty : 0 < chains.length) :
    ∃ entered created winner,
      inputWays (begun tree nodes lists) 0 lists.length = some entered ∧
        createLoserTree entered.tree = some created ∧
        LoopInvariant nodes { entered with tree := created } [] chains
          winner ∧
        ∀ node, 0 < node → node < chains.length →
          Senior (keyAt created.leaf_) winner chains.length node := by
  obtain ⟨entered, wasEntered, leaves, losers, caching⟩ :=
    begin_cached tree represented unshared
  have cached :
      ∀ way (playing : way < chains.length),
        keyAt entered.leaf_ way = headValue nodes chains[way] := by
    intro way playing
    exact caching way _ playing (List.getElem?_eq_getElem playing)
  obtain ⟨created, winner, wasCreated, sameKeys, standing, allEntered,
      senior⟩ :=
    createLoserTree_spec leaves losers nonempty fun way playing =>
      cached way playing ▸ aboveMinimum _ (List.getElem_mem playing)
  refine ⟨_, created, winner, wasEntered, wasCreated, ?_, senior⟩
  exact {
    spliced := Spliced.start created represented unshared
    caching := fun way cells inBounds present =>
      (sameKeys way inBounds).trans (caching way cells inBounds present)
    standing := standing
    entered := allEntered
    nonempty := nonempty
  }

/-- The part of `mergeKLists` before its second loop sets up the merge. -/
theorem begin_spec
    (tree : LoserTree)
    (represented :
      List.Forall₂
        (fun head cells => Segment (nextAt nodes) head cells none)
        lists chains)
    (unshared : chains.flatten.Nodup)
    (inRange : InRange nodes chains)
    (nonempty : 0 < chains.length) :
    ∃ entered created winner,
      inputWays (begun tree nodes lists) 0 lists.length = some entered ∧
        createLoserTree entered.tree = some created ∧
        MergeInvariant nodes chains { entered with tree := created }
          [] chains winner := by
  have aboveMinimum : ∀ cells ∈ chains, intMin < headValue nodes cells := by
    intro cells member
    cases cells with
    | nil =>
        exact (by decide : intMin < intMax)
    | cons node behind =>
        exact (inRange _ member node List.mem_cons_self).1
  obtain ⟨entered, created, winner, wasEntered, wasCreated, loop, -⟩ :=
    begin_loop tree represented unshared aboveMinimum nonempty
  exact ⟨entered, created, winner, wasEntered, wasCreated, {
    spliced := loop.spliced
    merging := Merging.start
    inRange := inRange
    caching := loop.caching
    standing := loop.standing
    entered := loop.entered
    nonempty := loop.nonempty
  }⟩

end Begin

/--
`mergeKLists` on any number of finite lists without shared nodes, whose values
lie strictly inside the `int` range, and on an object left in any state: with
more fuel than there are nodes it returns one list of exactly the given nodes,
which keeps the order of every input list, and is sorted if they all were.
-/
theorem mergeKLists_correct
    (tree : LoserTree)
    (nodes : List ListNode)
    (lists : List (Option NodePtr))
    (chains : List (List NodePtr))
    (represented :
      List.Forall₂
        (fun head cells => Segment (nextAt nodes) head cells none)
        lists chains)
    (unshared : chains.flatten.Nodup)
    (inRange :
      ∀ cells ∈ chains, ∀ node ∈ cells,
        intMin < valueAt nodes node ∧ valueAt nodes node < intMax) :
    ∃ result merged,
      (∀ fuel, chains.flatten.length < fuel →
        mergeKLists fuel tree nodes lists = some result) ∧
        Segment (nextAt result.nodes) result.head merged none ∧
        merged.Perm chains.flatten ∧
        merged.Nodup ∧
        (∀ cells ∈ chains, cells.Sublist merged) ∧
        (∀ node, valueAt result.nodes node = valueAt nodes node) ∧
        ((∀ cells ∈ chains,
            SortedBy (valueAt nodes) cells) →
          SortedBy (valueAt result.nodes) merged) := by
  have ways := represented.length_eq
  by_cases noLists : lists = []
  · subst noLists
    obtain rfl : chains = [] := List.eq_nil_of_length_eq_zero ways.symm
    refine ⟨{ head := none, nodes := nodes, lists := [], tree := tree }, [],
      fun fuel _ => by simp [mergeKLists], rfl, .refl [],
      List.nodup_nil, by simp, fun _ => rfl, fun _ => .nil⟩
  · have nonempty : 0 < chains.length :=
      ways ▸ List.length_pos_of_ne_nil noLists
    obtain ⟨entered, created, winner, wasEntered, wasCreated, invariant⟩ :=
      begin_spec tree represented unshared inRange nonempty
    obtain ⟨final, merged, left, completed, spliced, merging,
        nothingLeft⟩ :=
      mergeLoop_spec invariant
    obtain ⟨complete, ordered, sorted⟩ := merging.finish nothingLeft
    have sameValues :
        ∀ node, valueAt final.nodes node = valueAt nodes node := by
      intro node
      unfold valueAt
      rw [spliced.values node]
    refine ⟨{ head := final.dummyNext, nodes := final.nodes,
              lists := final.lists, tree := final.tree },
      merged, ?_, spliced.result nothingLeft, complete,
      complete.nodup_iff.mpr unshared, ordered, sameValues, ?_⟩
    · intro fuel enough
      unfold begun at wasEntered
      simp [mergeKLists, noLists, wasEntered, wasCreated,
        completed fuel enough]
    · intro inputsSorted
      change SortedBy (valueAt final.nodes) merged
      rw [funext sameValues]
      exact sorted inputsSorted

/-- The guarantee is met by three lists, one empty, and a used object. -/
theorem mergeKLists_correct_threeLists :
    ∃ result merged,
      (∀ fuel, 5 < fuel →
        mergeKLists fuel
          { loser_ := [7, 1], leaf_ := [3, -4, 9, 9, 9, 9] }
          [⟨4, some 2⟩, ⟨1, some 3⟩, ⟨6, none⟩, ⟨4, some 4⟩, ⟨9, none⟩]
          [some 0, none, some 1] = some result) ∧
        Segment (nextAt result.nodes) result.head merged none ∧
        merged.Perm [0, 2, 1, 3, 4] ∧
        SortedBy (valueAt result.nodes) merged := by
  obtain ⟨result, merged, returned, isList, complete, -, -, -, sorted⟩ :=
    mergeKLists_correct
      { loser_ := [7, 1], leaf_ := [3, -4, 9, 9, 9, 9] }
      [⟨4, some 2⟩, ⟨1, some 3⟩, ⟨6, none⟩, ⟨4, some 4⟩, ⟨9, none⟩]
      [some 0, none, some 1] [[0, 2], [], [1, 3, 4]]
      (by simp [Segment, nextAt])
      (by decide) (by decide)
  exact ⟨result, merged, returned, isList, complete,
    sorted (by simp [SortedBy, valueAt])⟩

/-- The head of that merge is the node with the least value. -/
example :
    (mergeKLists 6 { loser_ := [7, 1], leaf_ := [3, -4, 9, 9, 9, 9] }
      [⟨4, some 2⟩, ⟨1, some 3⟩, ⟨6, none⟩, ⟨4, some 4⟩, ⟨9, none⟩]
      [some 0, none, some 1]).map MergeResult.head = some (some 1) := by
  decide +kernel

end CsPrimer.Merge
