import CsPrimer.Merge.MergeKLists

namespace CsPrimer.Merge

open Library
open Library.Tournament

/-!
# The virtual leaf and `INT_MIN`

`CreateLoserTree` fills the tree with a virtual leaf of value `INT_MIN` that
the first replays push out.  A way whose own value is `INT_MIN` does not push
it out: it passes through to the top and is dropped by the next replay.  Only
the last way to enter, the first list, may start with `INT_MIN`.
-/

/-- The body of the second loop of `mergeKLists`. -/
def mergeTurn (state : MergeState) : Option MergeState := do
  let moved ← output state
  let next ← moved.tree.loser_[0]?
  let cached ← input moved next
  let adjusted ← adjust cached.tree next
  return { cached with tree := adjusted }

/-- The second loop of `mergeKLists` tests the champion and takes a turn. -/
theorem mergeLoop_succ (fuel : Nat) (state : MergeState) :
    mergeLoop (fuel + 1) state =
      state.tree.loser_[0]?.bind fun champion =>
        state.tree.leaf_[champion]?.bind fun least =>
          if least ≠ intMax then
            (mergeTurn state).bind (mergeLoop fuel)
          else
            some state := by
  simp only [mergeLoop, mergeTurn, Option.bind_eq_bind, Option.pure_def,
    Option.bind_assoc, Option.bind_some]

/-- The part of `mergeKLists` up to the return of `CreateLoserTree`. -/
def mergeBegin
    (tree : LoserTree)
    (nodes : List ListNode)
    (lists : List (Option NodePtr)) : Option MergeState := do
  let entered ← inputWays (begun tree nodes lists) 0 lists.length
  let created ← createLoserTree entered.tree
  return { entered with tree := created }

/-- `mergeKLists` is its beginning and its second loop. -/
theorem mergeKLists_eq
    (fuel : Nat)
    (tree : LoserTree)
    (nodes : List ListNode)
    {lists : List (Option NodePtr)}
    (nonempty : lists ≠ []) :
    mergeKLists fuel tree nodes lists =
      (mergeBegin tree nodes lists).bind fun start =>
        (mergeLoop fuel start).map fun merged =>
          { head := merged.dummyNext
            nodes := merged.nodes
            lists := merged.lists
            tree := merged.tree } := by
  simp only [mergeKLists, nonempty, if_false, mergeBegin, begun,
    Option.bind_eq_bind, Option.pure_def, Option.bind_assoc,
    Option.bind_some, Option.map_eq_bind]
  rfl

/-- The states in which the second loop tests its condition. -/
inductive LoopState (start : MergeState) : MergeState → Prop where
  | start :
      LoopState start start
  | turn
      {state next : MergeState}
      {champion : Nat}
      {least : Int}
      (earlier : LoopState start state)
      (leads : state.tree.loser_[0]? = some champion)
      (isLeast : state.tree.leaf_[champion]? = some least)
      (goesOn : least ≠ intMax)
      (turned : mergeTurn state = some next) :
      LoopState start next

/--
The champion is a way whenever `CreateLoserTree` or `Adjust` has returned, and
no turn of the loop accesses anything outside the vectors.
-/
structure StaysInWays (kWays : Nat) (start : MergeState) : Prop where
  champion :
    ∀ state, LoopState start state →
      ∃ champion, state.tree.loser_[0]? = some champion ∧
        champion < kWays
  turns :
    ∀ state champion least, LoopState start state →
      state.tree.loser_[0]? = some champion →
      state.tree.leaf_[champion]? = some least →
      least ≠ intMax → (mergeTurn state).isSome

/-- No list but the first one starts with `INT_MIN`. -/
def MinimumOnlyFirst
    (nodes : List ListNode)
    (chains : List (List NodePtr)) : Prop :=
  ∀ way cells, 0 < way → chains[way]? = some cells →
    headValue nodes cells ≠ intMin

namespace LoopInvariant

variable
  {original : List ListNode}
  {state : MergeState}
  {done : List NodePtr}
  {rest : List (List NodePtr)}
  {winner : Nat → Nat}

/-- As long as the champion has a value there is a turn. -/
theorem exists_turn
    (invariant : LoopInvariant original state done rest winner)
    {champion : Nat}
    {least : Int}
    (leads : state.tree.loser_[0]? = some champion)
    (isLeast : state.tree.leaf_[champion]? = some least)
    (goesOn : least ≠ intMax) :
    ∃ next moved left final,
      mergeTurn state = some next ∧ left.length = rest.length ∧
        LoopInvariant original next moved left final := by
  obtain rfl : winner 1 = champion :=
    Option.some.inj (invariant.standing.champion.symm.trans leads)
  obtain ⟨cells, first, cached, -⟩ := invariant.champion
  cases cells with
  | nil =>
      rw [cached] at isLeast
      exact absurd (Option.some.inj isLeast).symm goesOn
  | cons node left =>
      obtain ⟨moved, cached, adjusted, final, wasMoved, stillLeads,
          wasCached, wasAdjusted, continued, -, -⟩ := invariant.turn first
      refine ⟨_, _, _, _, ?_, ?_, continued⟩
      · simp [mergeTurn, wasMoved, stillLeads, wasCached, wasAdjusted]
      · exact List.length_set

/-- Without a virtual leaf in the tree the loop stays in its ways. -/
theorem staysInWays
    (invariant : LoopInvariant original state done rest winner) :
    StaysInWays rest.length state := by
  have everywhere :
      ∀ later, LoopState state later →
        ∃ done left winner, left.length = rest.length ∧
          LoopInvariant original later done left winner := by
    intro later reached
    induction reached with
    | start =>
        exact ⟨done, rest, winner, rfl, invariant⟩
    | turn earlier leads isLeast goesOn turned inductionHypothesis =>
        obtain ⟨done, left, winner, ways, holds⟩ := inductionHypothesis
        obtain ⟨next, moved, after, final, isNext, sameWays, continued⟩ :=
          holds.exists_turn leads isLeast goesOn
        obtain rfl := Option.some.inj (turned.symm.trans isNext)
        exact ⟨moved, after, final, sameWays.trans ways, continued⟩
  constructor
  · intro later reached
    obtain ⟨done, left, winner, ways, holds⟩ := everywhere later reached
    refine ⟨winner 1, holds.standing.champion, ?_⟩
    rw [← ways]
    exact holds.standing.recorded.champion_lt holds.entered holds.nonempty
  · intro later champion least reached leads isLeast goesOn
    obtain ⟨done, left, winner, ways, holds⟩ := everywhere later reached
    obtain ⟨next, -, -, -, isNext, -, -⟩ :=
      holds.exists_turn leads isLeast goesOn
    rw [isNext]
    rfl

end LoopInvariant

/-- The first way in the place of the virtual leaf. -/
def firstForVirtual (winner : Nat → Nat) (size node : Nat) : Nat :=
  if winner node = size then 0 else winner node

theorem firstForVirtual_of_eq
    {winner : Nat → Nat}
    {size node : Nat}
    (isVirtual : winner node = size) :
    firstForVirtual winner size node = 0 :=
  if_pos isVirtual

theorem firstForVirtual_of_ne
    {winner : Nat → Nat}
    {size node : Nat}
    (isWay : winner node ≠ size) :
    firstForVirtual winner size node = winner node :=
  if_neg isWay

namespace Entering

variable
  {tree : LoserTree}
  {winner : Nat → Nat}
  {size : Nat}

/-- When all other ways are greater, the virtual leaf wins for the first one. -/
theorem onPath_of_virtual
    (entering : Entering tree size 0 winner)
    (greater :
      ∀ way, 0 < way → way < size →
        keyAt tree.leaf_ size < keyAt tree.leaf_ way)
    (node : Nat)
    (positive : 0 < node)
    (inTree : node < 2 * size)
    (isVirtual : winner node = size) :
    OnPath size node := by
  obtain ⟨player, playing, isVacant, onPath⟩ :=
    entering.seated.exists_vacant positive inTree isVirtual
  rcases Nat.eq_zero_or_pos player with rfl | later
  · exact onPath
  · exact absurd ⟨Nat.zero_le _, greater player later playing⟩ isVacant

/-- The virtual leaf does not lose, since it would have beaten itself. -/
theorem loser_ne_virtual
    (entering : Entering tree size 0 winner)
    (greater :
      ∀ way, 0 < way → way < size →
        keyAt tree.leaf_ size < keyAt tree.leaf_ way)
    (node : Nat)
    (positive : 0 < node)
    (inner : node < size) :
    loserAt tree.loser_ node ≠ size := by
  obtain ⟨paired, inOrder⟩ :=
    entering.seated.recorded node positive inner
  intro isVirtual
  rw [isVirtual] at inOrder
  have nodeVirtual : winner node = size :=
    (entering.seated.winner_cases positive (by omega)).resolve_right
      (not_lt_of_ge inOrder)
  have children :
      winner (2 * node) = size ∧ winner (2 * node + 1) = size := by
    rcases paired with ⟨won, lost⟩ | ⟨won, lost⟩
    · exact ⟨won.symm.trans nodeVirtual, lost.symm.trans isVirtual⟩
    · exact ⟨lost.symm.trans isVirtual, won.symm.trans nodeVirtual⟩
  have onLeft :=
    entering.onPath_of_virtual greater _ (by omega) (by omega) children.1
  have onRight :=
    entering.onPath_of_virtual greater _ (by omega) (by omega) children.2
  have same := onLeft.sibling_eq onRight (by omega) (by omega)
  omega

/-- The games stay recorded when the first way has the virtual value. -/
theorem recorded_firstForVirtual
    (entering : Entering tree size 0 winner)
    (atMinimum : keyAt tree.leaf_ 0 = keyAt tree.leaf_ size)
    (greater :
      ∀ way, 0 < way → way < size →
        keyAt tree.leaf_ size < keyAt tree.leaf_ way) :
    Recorded (keyAt tree.leaf_) (loserAt tree.loser_)
      (firstForVirtual winner size) size := by
  intro node positive inner
  obtain ⟨paired, inOrder⟩ :=
    entering.seated.recorded node positive inner
  have isWay := entering.loser_ne_virtual greater node positive inner
  have sameKey :
      keyAt tree.leaf_ (firstForVirtual winner size node) =
        keyAt tree.leaf_ (winner node) := by
    by_cases isVirtual : winner node = size
    · rw [firstForVirtual_of_eq isVirtual, isVirtual, atMinimum]
    · rw [firstForVirtual_of_ne isVirtual]
  refine ⟨?_, by rw [sameKey]; exact inOrder⟩
  rcases paired with ⟨won, lost⟩ | ⟨won, lost⟩
  · rw [lost] at isWay
    exact .inl ⟨by rw [firstForVirtual, won, firstForVirtual],
      by rw [firstForVirtual_of_ne isWay, lost]⟩
  · rw [lost] at isWay
    exact .inr ⟨by rw [firstForVirtual, won, firstForVirtual],
      by rw [firstForVirtual_of_ne isWay, lost]⟩

/--
When the first way alone has the value of the virtual leaf, it stands where
the virtual leaf wins.
-/
theorem firstAtMinimum
    (entering : Entering tree size 0 winner)
    (topped : Topped tree size 0 winner)
    (nonempty : 0 < size)
    (atMinimum : keyAt tree.leaf_ 0 = keyAt tree.leaf_ size)
    (greater :
      ∀ way, 0 < way → way < size →
        keyAt tree.leaf_ size < keyAt tree.leaf_ way) :
    ∃ final, Standing tree size final ∧ Entered final size := by
  have seated := entering.seated
  have notGreater :
      ¬ keyAt tree.leaf_ size < keyAt tree.leaf_ 0 :=
    not_lt_of_ge (le_of_eq atMinimum)
  have leafVirtual : winner (size + 0) = size :=
    seated.vacant 0 nonempty fun isSeated => notGreater isSeated.2
  refine ⟨firstForVirtual winner size,
    ⟨entering.leaves, entering.losers,
      entering.recorded_firstForVirtual atMinimum greater, ?_, ?_⟩, ?_⟩
  · have rootVirtual : winner 1 = size :=
      seated.virtual_path (OnPath.root (size + 0) (by omega))
        (by omega) Nat.one_pos leafVirtual
    rw [Topped, if_neg notGreater] at topped
    rwa [firstForVirtual_of_eq rootVirtual]
  · intro node
    rw [firstForVirtual]
    split
    · exact Nat.zero_le size
    · exact seated.bounded node
  · intro player playing
    rcases Nat.eq_zero_or_pos player with rfl | later
    · exact firstForVirtual_of_eq leafVirtual
    · have isSeated :=
        seated.entered player playing
          ⟨Nat.zero_le _, greater player later playing⟩
      rw [firstForVirtual_of_ne (by omega), isSeated]

/-- The ways stand if all but the first one exceed the virtual leaf. -/
theorem standing_of_greater
    (entering : Entering tree size 0 winner)
    (topped : Topped tree size 0 winner)
    (nonempty : 0 < size)
    (least : keyAt tree.leaf_ size ≤ keyAt tree.leaf_ 0)
    (greater :
      ∀ way, 0 < way → way < size →
        keyAt tree.leaf_ size < keyAt tree.leaf_ way) :
    ∃ final, Standing tree size final ∧ Entered final size := by
  rcases lt_or_eq_of_le least with above | same
  · refine ⟨winner, entering.standing topped nonempty ?_⟩
    intro way playing
    rcases Nat.eq_zero_or_pos way with rfl | later
    · exact above
    · exact greater way later playing
  · exact entering.firstAtMinimum topped nonempty same.symm greater

/-- Only the first way has to enter again when its value has changed. -/
theorem reopen
    {changed : LoserTree}
    {value : Int}
    (entering : Entering tree size 0 winner)
    (atMinimum : ¬ keyAt tree.leaf_ size < keyAt tree.leaf_ 0)
    (nonempty : 0 < size)
    (sameLosers : changed.loser_ = tree.loser_)
    (updated : changed.leaf_ = tree.leaf_.set 0 value) :
    Entering changed size 1 winner := by
  have seated := entering.seated
  have sameKey :
      ∀ way, way ≠ 0 →
        keyAt changed.leaf_ way = keyAt tree.leaf_ way := by
    intro way other
    rw [updated]
    exact keyAt_set_of_ne value other
  have sizeReal : size ≠ 0 := Nat.ne_of_gt nonempty
  have winnerReal :
      ∀ node, 0 < node → node < 2 * size → winner node ≠ 0 := by
    intro node positive inTree isFirst
    rcases seated.winner_cases positive inTree with isVirtual | greater
    · exact sizeReal (isVirtual.symm.trans isFirst)
    · rw [isFirst] at greater
      exact atMinimum greater
  constructor
  · simpa [updated] using entering.leaves
  · rw [sameLosers]
    exact entering.losers
  · rw [sameLosers]
    refine ⟨?_, ?_, ?_, ?_, seated.bounded⟩
    · intro node positive inner
      obtain ⟨paired, inOrder⟩ := seated.recorded node positive inner
      have loserReal : loserAt tree.loser_ node ≠ 0 := by
        rcases paired with ⟨-, lost⟩ | ⟨-, lost⟩ <;> rw [lost]
        · exact winnerReal _ (by omega) (by omega)
        · exact winnerReal _ (by omega) (by omega)
      refine ⟨paired, ?_⟩
      rw [sameKey _ (winnerReal node positive (by omega)),
        sameKey _ loserReal]
      exact inOrder
    · intro way playing isVacant
      apply seated.vacant way playing
      rintro ⟨-, greater⟩
      have other : way ≠ 0 := by
        rintro rfl
        exact atMinimum greater
      apply isVacant
      rw [sameKey size sizeReal, sameKey way other]
      exact ⟨Nat.pos_of_ne_zero other, greater⟩
    · rintro way playing ⟨later, greater⟩
      rw [sameKey size sizeReal, sameKey way (by omega)] at greater
      exact seated.entered way playing ⟨Nat.zero_le _, greater⟩
    · exact fun way _ isSeated => isSeated.2
  · intro node positive inner _
    obtain ⟨childPositive, childInTree, -⟩ :=
      seniorChild_bounds positive inner
    unfold Senior
    rw [sameKey _ (winnerReal node positive (by omega)),
      sameKey _ (winnerReal _ childPositive childInTree)]
    exact entering.senior node positive inner (Nat.zero_le _)

end Entering

/-- The values of all nodes are of type `int`. -/
def IntValues (nodes : List ListNode) : Prop :=
  ∀ object ∈ nodes, intMin ≤ object.val ∧ object.val ≤ intMax

instance (nodes : List ListNode) : Decidable (IntValues nodes) :=
  inferInstanceAs
    (Decidable
      (∀ object ∈ nodes, intMin ≤ object.val ∧ object.val ≤ intMax))

theorem IntValues.headValue
    {nodes : List ListNode}
    (isInt : IntValues nodes)
    (cells : List NodePtr) :
    intMin ≤ headValue nodes cells := by
  cases cells with
  | nil =>
      exact (by decide : intMin ≤ intMax)
  | cons node behind =>
      change intMin ≤ valueAt nodes node
      unfold valueAt
      cases stored : nodes[node]? with
      | none =>
          exact (by decide : intMin ≤ 0)
      | some object =>
          exact (isInt object (List.mem_of_getElem? stored)).1

/-- The virtual leaf is still in the tree, below the way that lost its place. -/
structure Undermined
    (original : List ListNode)
    (state : MergeState)
    (done : List NodePtr)
    (rest : List (List NodePtr))
    (winner : Nat → Nat)
    (way : Nat) : Prop where
  spliced :
    Spliced original state done rest
  caching :
    Caching original state.tree rest rest.length
  entering :
    Entering state.tree rest.length 0 winner
  topped :
    Topped state.tree rest.length 0 winner
  minimum :
    keyAt state.tree.leaf_ rest.length = intMin
  lost :
    0 < way ∧ way < rest.length ∧ keyAt state.tree.leaf_ way = intMin

namespace Undermined

variable
  {original : List ListNode}
  {state : MergeState}
  {done : List NodePtr}
  {rest : List (List NodePtr)}
  {winner : Nat → Nat}
  {way : Nat}

/-- Without a least value of the first way the virtual leaf is on top. -/
theorem virtual_leads
    (undermined : Undermined original state done rest winner way)
    (greater :
      keyAt state.tree.leaf_ rest.length < keyAt state.tree.leaf_ 0) :
    state.tree.loser_[0]? = some rest.length := by
  have seated := undermined.entering.seated
  obtain ⟨later, playing, atMinimum⟩ := undermined.lost
  have leafVirtual : winner (rest.length + way) = rest.length := by
    apply seated.vacant way playing
    rintro ⟨-, isGreater⟩
    rw [atMinimum, undermined.minimum] at isGreater
    exact lt_irrefl _ isGreater
  have rootVirtual :=
    seated.virtual_path (OnPath.root (rest.length + way) (by omega))
      (by omega) Nat.one_pos leafVirtual
  have topped := undermined.topped
  rwa [Topped, if_pos greater, rootVirtual] at topped

/-- With a least value the first way moves on and leaves the tree as it is. -/
theorem turn
    (undermined : Undermined original state done rest winner way)
    (isInt : IntValues original)
    (notGreater :
      ¬ keyAt state.tree.leaf_ rest.length < keyAt state.tree.leaf_ 0) :
    ∃ node left next final,
      rest[0]? = some (node :: left) ∧
        state.tree.loser_[0]? = some 0 ∧
        state.tree.leaf_[0]? = some intMin ∧
        mergeTurn state = some next ∧
        Undermined original next (done ++ [node]) (rest.set 0 left) final
          way := by
  obtain ⟨later, playing, atMinimum⟩ := undermined.lost
  have nonempty : 0 < rest.length := by omega
  have entering := undermined.entering
  have present : rest[0]? = some rest[0] :=
    List.getElem?_eq_getElem nonempty
  have isCached := undermined.caching 0 _ nonempty present
  have isMinimum : keyAt state.tree.leaf_ 0 = intMin := by
    rw [undermined.minimum] at notGreater
    exact le_antisymm (le_of_not_gt notGreater)
      (isCached ▸ isInt.headValue _)
  have leaves := entering.leaves
  have leads : state.tree.loser_[0]? = some 0 := by
    have topped := undermined.topped
    rwa [Topped, if_neg notGreater] at topped
  cases isFirst : rest[0] with
  | nil =>
      rw [isMinimum, isFirst] at isCached
      exact absurd isCached (by decide : intMin ≠ intMax)
  | cons node left =>
      rw [isFirst] at present
      obtain ⟨moved, wasMoved, sameTree, spliced, -⟩ :=
        output_spec undermined.spliced leads present
      have presentNext : (rest.set 0 left)[0]? = some left := by
        simp [nonempty]
      obtain ⟨cached, wasCached, sameLosers, updated⟩ :=
        input_spec spliced presentNext (by rw [sameTree]; omega)
      rw [sameTree] at sameLosers updated
      have keptKey :
          ∀ other, other ≠ 0 →
            keyAt cached.leaf_ other = keyAt state.tree.leaf_ other := by
        intro other different
        rw [updated]
        exact keyAt_set_of_ne _ different
      have sizeKey : keyAt cached.leaf_ rest.length = intMin :=
        (keptKey _ (by omega)).trans undermined.minimum
      have caching :
          Caching original cached (rest.set 0 left) rest.length :=
        undermined.caching.change nonempty (by omega) updated
      have least :
          ∀ other, other ≤ rest.length →
            keyAt cached.leaf_ rest.length ≤ keyAt cached.leaf_ other := by
        intro other inRange
        rcases Nat.eq_or_lt_of_le inRange with rfl | isWay
        · exact le_refl _
        · have stored :=
            List.getElem?_eq_getElem (l := rest.set 0 left)
              (by simpa using isWay)
          rw [sizeKey, caching other _ isWay stored]
          exact isInt.headValue _
      obtain ⟨adjusted, final, wasAdjusted, sameLeaves, entered, topped⟩ :=
        (entering.reopen notGreater nonempty sameLosers updated).next
          nonempty least
      have sameLength : (rest.set 0 left).length = rest.length :=
        List.length_set
      refine ⟨node, left, { moved with tree := adjusted }, final, present,
        leads, ?_, ?_, ?_⟩
      · rw [getElem?_eq_keyAt (by omega), isMinimum]
      · rw [← sameTree] at leads
        simp [mergeTurn, wasMoved, leads, wasCached, wasAdjusted]
      · constructor
        · exact spliced.with_tree adjusted
        · rw [sameLength]
          unfold Caching
          rw [sameLeaves]
          exact caching
        · rwa [sameLength]
        · rwa [sameLength]
        · rw [sameLength]
          exact (congrArg (keyAt · _) sameLeaves).trans sizeKey
        · rw [sameLength]
          refine ⟨later, playing, ?_⟩
          exact (congrArg (keyAt · _) sameLeaves).trans
            ((keptKey way (by omega)).trans atMinimum)

/-- When the first list has no least value left, the virtual leaf leads. -/
theorem reaches_virtual
    (undermined : Undermined original state done rest winner way)
    (isInt : IntValues original)
    {start : MergeState}
    (reached : LoopState start state) :
    ∃ final, LoopState start final ∧
      final.tree.loser_[0]? = some rest.length := by
  induction left : (rest[0]?.getD []).length
      generalizing state done rest winner with
  | zero =>
      refine ⟨state, reached, undermined.virtual_leads ?_⟩
      by_contra notGreater
      obtain ⟨node, behind, -, -, first, -⟩ :=
        undermined.turn isInt notGreater
      simp [first] at left
  | succ count inductionHypothesis =>
      by_cases greater :
          keyAt state.tree.leaf_ rest.length < keyAt state.tree.leaf_ 0
      · exact ⟨state, reached, undermined.virtual_leads greater⟩
      · obtain ⟨node, behind, next, final, first, leads, isLeast, turned,
            continued⟩ := undermined.turn isInt greater
        have inBounds : 0 < rest.length :=
          (List.getElem?_eq_some_iff.mp first).1
        have shorter :
            ((rest.set 0 behind)[0]?.getD []).length = count := by
          rw [first] at left
          simpa [inBounds] using left
        obtain ⟨last, lastReached, virtual⟩ :=
          inductionHypothesis continued
            (reached.turn leads isLeast (by decide) turned) shorter
        exact ⟨last, lastReached, by simpa using virtual⟩

end Undermined

/-- `CreateLoserTree` leaves the ways cached and the virtual leaf below. -/
theorem mergeBegin_entering
    {nodes : List ListNode}
    {lists : List (Option NodePtr)}
    {chains : List (List NodePtr)}
    (tree : LoserTree)
    (represented :
      List.Forall₂
        (fun head cells => Segment (nextAt nodes) head cells none)
        lists chains)
    (unshared : chains.flatten.Nodup)
    (isInt : IntValues nodes) :
    ∃ created winner,
      mergeBegin tree nodes lists =
          some { begun tree nodes lists with tree := created } ∧
        Caching nodes created chains chains.length ∧
        keyAt created.leaf_ chains.length = intMin ∧
        Entering created chains.length 0 winner ∧
        (0 < chains.length → Topped created chains.length 0 winner) := by
  obtain ⟨entered, wasEntered, leaves, losers, caching⟩ :=
    begin_cached tree represented unshared
  have notBelow :
      ∀ way, way < chains.length → intMin ≤ keyAt entered.leaf_ way := by
    intro way playing
    rw [caching way _ playing (List.getElem?_eq_getElem playing)]
    exact isInt.headValue _
  obtain ⟨created, winner, wasCreated, sameKeys, minimum, entering,
      topped⟩ :=
    createLoserTree_entering leaves losers notBelow
  refine ⟨created, winner, ?_, ?_, minimum, entering, topped⟩
  · simp [mergeBegin, wasEntered, wasCreated]
  · intro way cells inBounds present
    exact (sameKeys way inBounds).trans (caching way cells inBounds present)

/--
On any number of finite lists of `int` values without shared nodes, sorted or
not, the champion is always one of the ways exactly if no list but the first
one starts with `INT_MIN`.
-/
theorem mergeKLists_staysInWays_iff
    (tree : LoserTree)
    (nodes : List ListNode)
    (lists : List (Option NodePtr))
    (chains : List (List NodePtr))
    (represented :
      List.Forall₂
        (fun head cells => Segment (nextAt nodes) head cells none)
        lists chains)
    (unshared : chains.flatten.Nodup)
    (isInt : IntValues nodes)
    (nonempty : lists ≠ []) :
    ∃ start,
      mergeBegin tree nodes lists = some start ∧
        (StaysInWays lists.length start ↔
          MinimumOnlyFirst nodes chains) := by
  have ways := represented.length_eq
  have positive : 0 < chains.length :=
    ways ▸ List.length_pos_of_ne_nil nonempty
  obtain ⟨created, winner, begins, caching, minimum, entering, topped⟩ :=
    mergeBegin_entering tree represented unshared isInt
  have createdKey :
      ∀ way (playing : way < chains.length),
        keyAt created.leaf_ way = headValue nodes chains[way] := by
    intro way playing
    exact caching way _ playing (List.getElem?_eq_getElem playing)
  refine ⟨{ begun tree nodes lists with tree := created }, begins, ?_⟩
  rw [ways]
  constructor
  · intro stays way cells later present atMinimum
    obtain ⟨playing, isCells⟩ := List.getElem?_eq_some_iff.mp present
    have undermined :
        Undermined nodes { begun tree nodes lists with tree := created }
          [] chains winner way := by
      refine ⟨Spliced.start created represented unshared, caching,
        entering, topped positive, minimum, later, playing, ?_⟩
      rw [← atMinimum, ← isCells]
      exact createdKey way playing
    obtain ⟨final, reached, virtual⟩ :=
      undermined.reaches_virtual isInt .start
    obtain ⟨champion, leads, isWay⟩ := stays.champion final reached
    rw [virtual, Option.some.injEq] at leads
    omega
  · intro onlyFirst
    have greater :
        ∀ way, 0 < way → way < chains.length →
          keyAt created.leaf_ chains.length < keyAt created.leaf_ way := by
      intro way later playing
      have different :=
        onlyFirst way _ later (List.getElem?_eq_getElem playing)
      rw [minimum, createdKey way playing]
      exact lt_of_le_of_ne (isInt.headValue _) (Ne.symm different)
    have least :
        keyAt created.leaf_ chains.length ≤ keyAt created.leaf_ 0 := by
      rw [minimum, createdKey 0 positive]
      exact isInt.headValue _
    obtain ⟨final, standing, allEntered⟩ :=
      entering.standing_of_greater (topped positive) positive least greater
    have invariant :
        LoopInvariant nodes { begun tree nodes lists with tree := created }
          [] chains final :=
      ⟨Spliced.start created represented unshared, caching,
        standing, allEntered, positive⟩
    exact invariant.staysInWays

/-- Lists that start with or contain `INT_MIN`, in no order. -/
theorem mergeKLists_staysInWays_iff_unsorted :
    ∃ start,
      mergeBegin { loser_ := [], leaf_ := [] }
          [⟨intMin, some 1⟩, ⟨4, none⟩, ⟨7, some 3⟩, ⟨intMin, none⟩]
          [some 0, some 2, none] = some start ∧
        StaysInWays 3 start := by
  obtain ⟨start, begins, stays⟩ :=
    mergeKLists_staysInWays_iff { loser_ := [], leaf_ := [] }
      [⟨intMin, some 1⟩, ⟨4, none⟩, ⟨7, some 3⟩, ⟨intMin, none⟩]
      [some 0, some 2, none] [[0, 1], [2, 3], []]
      (by simp [Segment, nextAt]) (by decide) (by decide) (by decide)
  refine ⟨start, begins, stays.mpr ?_⟩
  intro way cells later present
  obtain ⟨playing, -⟩ := List.getElem?_eq_some_iff.mp present
  have isThird : way < 3 := playing
  obtain rfl | rfl : way = 1 ∨ way = 2 := by
    omega
  · obtain rfl : [2, 3] = cells := by simpa using present
    decide
  · obtain rfl : [] = cells := by simpa using present
    decide

/-- With the lists 5 and `INT_MIN` the virtual leaf is the champion. -/
theorem mergeKLists_not_staysInWays :
    ¬ ∀ (tree : LoserTree) nodes lists chains,
      List.Forall₂
          (fun head cells => Segment (nextAt nodes) head cells none)
          lists chains →
      chains.flatten.Nodup → IntValues nodes → lists ≠ [] →
      ∃ start, mergeBegin tree nodes lists = some start ∧
        StaysInWays lists.length start := by
  intro always
  obtain ⟨start, begins, stays⟩ :=
    always { loser_ := [], leaf_ := [] } [⟨5, none⟩, ⟨intMin, none⟩]
      [some 0, some 1] [[0], [1]] (by simp [Segment, nextAt])
      (by decide) (by decide) (by decide)
  have virtual :
      (mergeBegin { loser_ := [], leaf_ := [] }
          [⟨5, none⟩, ⟨intMin, none⟩] [some 0, some 1]).bind
        (fun start => start.tree.loser_[0]?) = some 2 := by
    decide +kernel
  rw [begins, Option.bind_some] at virtual
  obtain ⟨champion, leads, isWay⟩ := stays.champion start .start
  rw [virtual, Option.some.injEq] at leads
  exact absurd isWay (by simp [← leads])

end CsPrimer.Merge
