import Mathlib.Data.Int.Order.Basic
import CsPrimer.Library.StickyMerge
import CsPrimer.Merge.LoserTree

namespace CsPrimer.Merge

open Library.Tournament

/-!
# `Adjust` and `CreateLoserTree` keep the tournament

The two vectors are read as the keys of the players and the losers at the
nodes.  `Adjust` is one replay of the tournament library, so it turns a tree
that is wrong on one path into a recorded one, and `CreateLoserTree` is a
sequence of replays that enters the ways one by one behind the virtual
minimum.
-/

/-- The cached value of a way. -/
def keyAt (leaf_ : List Int) (way : Nat) : Int :=
  leaf_.getD way 0

/-- The loser at a node. -/
def loserAt (loser_ : List Nat) (node : Nat) : Nat :=
  loser_.getD node 0

theorem getElem?_eq_keyAt
    {leaf_ : List Int}
    {way : Nat}
    (inBounds : way < leaf_.length) :
    leaf_[way]? = some (keyAt leaf_ way) := by
  simp [keyAt, inBounds]

theorem getElem?_eq_loserAt
    {loser_ : List Nat}
    {node : Nat}
    (inBounds : node < loser_.length) :
    loser_[node]? = some (loserAt loser_ node) := by
  simp [loserAt, inBounds]

/-- Storing into a vector updates the function it represents. -/
theorem loserAt_set
    {loser_ : List Nat}
    {node value : Nat}
    (inBounds : node < loser_.length) :
    loserAt (loser_.set node value) =
      Function.update (loserAt loser_) node value := by
  funext other
  by_cases isNode : other = node
  · subst isNode
    simp [loserAt, inBounds]
  · simp [loserAt, isNode, List.getElem?_set_ne (Ne.symm isNode)]

theorem keyAt_set_self
    {leaf_ : List Int}
    {way : Nat}
    {value : Int}
    (inBounds : way < leaf_.length) :
    keyAt (leaf_.set way value) way = value := by
  simp [keyAt, inBounds]

theorem keyAt_set_of_ne
    {leaf_ : List Int}
    {way other : Nat}
    (value : Int)
    (different : other ≠ way) :
    keyAt (leaf_.set way value) other = keyAt leaf_ other := by
  simp [keyAt, List.getElem?_set_ne different.symm]

/-- The loser recorded where a replay stands is a player or the virtual one. -/
theorem opponent_le
    {key : Nat → Int}
    {loser winner : Nat → Nat}
    {size child previous : Nat}
    (replaying : Replaying key loser winner size child previous)
    (bounded : ∀ node, winner node ≤ size)
    (positive : 0 < child / 2)
    (inner : child / 2 < size) :
    loser (child / 2) ≤ size := by
  rcases replaying.children positive inner with
    ⟨-, opponent⟩ | ⟨-, opponent⟩
  · exact opponent ▸ bounded _
  · exact opponent ▸ bounded _

theorem bounded_update
    {winner : Nat → Nat}
    {size node player : Nat}
    (bounded : ∀ node, winner node ≤ size)
    (playing : player ≤ size) :
    ∀ other, Function.update winner node player other ≤ size := by
  intro other
  by_cases isNode : other = node
  · subst isNode
    simpa using playing
  · simpa [isNode] using bounded other

/-- The walk of `Adjust` completes a replay and ends with the champion. -/
theorem adjustLoop_spec
    {leaf_ : List Int}
    {loser_ : List Nat}
    {winner : Nat → Nat}
    {size child previous : Nat}
    (leaves : leaf_.length = size + 1)
    (losers : loser_.length = size)
    (bounded : ∀ node, winner node ≤ size)
    (replaying :
      Replaying (keyAt leaf_) (loserAt loser_) winner
        size child previous)
    (positive : 0 < child)
    (inTree : child < 2 * size) :
    ∃ replayed final,
      adjustLoop leaf_ loser_ (winner child) (child / 2) =
          some (replayed, final 1) ∧
        replayed.length = size ∧
        Recorded (keyAt leaf_) (loserAt replayed) final size ∧
        Replayed (keyAt leaf_) winner final child ∧
        ∀ node, final node ≤ size := by
  induction child using Nat.strongRecOn generalizing loser_ winner with
  | ind child inductionHypothesis =>
      rw [adjustLoop]
      by_cases inner : 0 < child / 2
      · have parentLess : child / 2 < child := by omega
        have parentInner : child / 2 < size := by omega
        have opponentBound :=
          opponent_le replaying bounded inner parentInner
        have ownAt : leaf_[winner child]? = some (keyAt leaf_ (winner child)) :=
          getElem?_eq_keyAt
            (leaves ▸ Nat.lt_succ_of_le (bounded child))
        have opponentAt :
            loser_[child / 2]? = some (loserAt loser_ (child / 2)) :=
          getElem?_eq_loserAt (losers ▸ parentInner)
        have otherAt :
            leaf_[loserAt loser_ (child / 2)]? =
              some (keyAt leaf_ (loserAt loser_ (child / 2))) :=
          getElem?_eq_keyAt (leaves ▸ Nat.lt_succ_of_le opponentBound)
        simp only [inner, if_true, ownAt, opponentAt, otherAt,
          Option.bind_eq_bind, Option.bind_some]
        have parentIsWinner :
            ∀ player,
              Function.update winner (child / 2) player (child / 2) =
                player :=
          fun player => Function.update_self ..
        by_cases loses :
            keyAt leaf_ (winner child) >
              keyAt leaf_ (loserAt loser_ (child / 2))
        · -- The candidate stays behind as the loser of this node.
          have advanced :=
            replaying.advance inner parentInner
              (.inr ⟨rfl, rfl⟩) (le_of_lt loses)
          rw [← loserAt_set (losers ▸ parentInner)] at advanced
          have sameLength :
              (loser_.set (child / 2) (winner child)).length = size := by
            simpa using losers
          obtain ⟨replayed, final, walked, length, recorded, later, least⟩ :=
            inductionHypothesis (child / 2) parentLess sameLength
              (bounded_update bounded opponentBound)
              advanced inner (by omega)
          rw [parentIsWinner] at walked
          rw [if_pos loses]
          exact ⟨replayed, final, walked, length, recorded,
            later.cons inner (.inr loses), least⟩
        · -- The recorded loser loses again.
          have advanced :=
            replaying.advance inner parentInner
              (.inl ⟨rfl, rfl⟩) (le_of_not_gt loses)
          rw [Function.update_eq_self] at advanced
          obtain ⟨replayed, final, walked, length, recorded, later, least⟩ :=
            inductionHypothesis (child / 2) parentLess losers
              (bounded_update bounded (bounded child))
              advanced inner (by omega)
          rw [parentIsWinner] at walked
          rw [if_neg loses]
          exact ⟨replayed, final, walked, length, recorded,
            later.cons inner (.inl rfl), least⟩
      · obtain rfl : child = 1 := by omega
        exact ⟨loser_, winner, by simp, losers,
          replaying.recorded (by omega), .root winner (by omega), bounded⟩

/-- A tree of losers over `size` ways, with `winner` at its nodes. -/
structure Standing
    (tree : LoserTree)
    (size : Nat)
    (winner : Nat → Nat) : Prop where
  leaves :
    tree.leaf_.length = size + 1
  losers :
    tree.loser_.length = size
  recorded :
    Recorded (keyAt tree.leaf_) (loserAt tree.loser_) winner size
  champion :
    tree.loser_[0]? = some (winner 1)
  bounded :
    ∀ node, winner node ≤ size

/-- Index 0 of the tree of losers is not a node of the tournament. -/
theorem recorded_set_zero
    {key : Nat → Int}
    {loser_ : List Nat}
    {winner : Nat → Nat}
    {size champion : Nat}
    (recorded : Recorded key (loserAt loser_) winner size) :
    Recorded key (loserAt (loser_.set 0 champion)) winner size := by
  intro node positive inner
  have sameLoser :
      loserAt (loser_.set 0 champion) node = loserAt loser_ node := by
    simp [loserAt, List.getElem?_set_ne (Nat.ne_of_lt positive)]
  obtain ⟨paired, inOrder⟩ := recorded node positive inner
  exact ⟨paired.congr sameLoser rfl rfl rfl, sameLoser ▸ inOrder⟩

/-- `Adjust` of a way whose path is to be replayed restores the tree. -/
theorem adjust_spec
    {tree : LoserTree}
    {winner : Nat → Nat}
    {size way previous : Nat}
    (leaves : tree.leaf_.length = size + 1)
    (losers : tree.loser_.length = size)
    (bounded : ∀ node, winner node ≤ size)
    (playing : way < size)
    (occupied : winner (size + way) = way)
    (replaying :
      Replaying (keyAt tree.leaf_) (loserAt tree.loser_) winner
        size (size + way) previous) :
    ∃ adjusted final,
      adjust tree way = some adjusted ∧
        adjusted.leaf_ = tree.leaf_ ∧
        Standing adjusted size final ∧
        Replayed (keyAt tree.leaf_) winner final (size + way) := by
  obtain ⟨replayed, final, walked, length, recorded, path, finalBounded⟩ :=
    adjustLoop_spec leaves losers bounded replaying (by omega) (by omega)
  rw [occupied, Nat.add_comm size way] at walked
  have nonempty : 0 < replayed.length :=
    length ▸ Nat.lt_of_le_of_lt (Nat.zero_le way) playing
  refine ⟨{ tree with loser_ := replayed.set 0 (final 1) }, final,
    ?_, rfl, ?_, path⟩
  · simp [adjust, assign, losers, walked, nonempty]
  · exact {
      leaves := leaves
      losers := by simpa using length
      recorded := recorded_set_zero recorded
      champion := by simp [nonempty]
      bounded := finalBounded
    }

/-- A way whose value is a least one walks to the root without a change. -/
theorem adjustLoop_idle
    {leaf_ : List Int}
    {loser_ : List Nat}
    {size way : Nat}
    (leaves : leaf_.length = size + 1)
    (losers : loser_.length = size)
    (bounded : ∀ node, 0 < node → node < size → loserAt loser_ node ≤ size)
    (least : ∀ player, player ≤ size → keyAt leaf_ way ≤ keyAt leaf_ player)
    (playing : way < size)
    (p : Nat)
    (inTree : p < size) :
    adjustLoop leaf_ loser_ way p = some (loser_, way) := by
  induction p using Nat.strongRecOn with
  | ind p inductionHypothesis =>
      rw [adjustLoop]
      by_cases inner : 0 < p
      · have opponentBound := bounded p inner inTree
        have ownAt : leaf_[way]? = some (keyAt leaf_ way) :=
          getElem?_eq_keyAt (by omega)
        have opponentAt : loser_[p]? = some (loserAt loser_ p) :=
          getElem?_eq_loserAt (losers ▸ inTree)
        have otherAt :
            leaf_[loserAt loser_ p]? =
              some (keyAt leaf_ (loserAt loser_ p)) :=
          getElem?_eq_keyAt (by omega)
        have stays : ¬ keyAt leaf_ way > keyAt leaf_ (loserAt loser_ p) :=
          not_lt_of_ge (least _ opponentBound)
        simp only [inner, if_true, ownAt, opponentAt, otherAt, stays,
          if_false, Option.bind_eq_bind, Option.bind_some]
        exact inductionHypothesis (p / 2) (by omega) (by omega)
      · rw [if_neg inner]

/--
The ways below `filled` still have to enter the tree.  A way with the value of
the virtual leaf never enters: it only passes through to the top.
-/
structure Entering
    (tree : LoserTree)
    (size filled : Nat)
    (winner : Nat → Nat) : Prop where
  leaves :
    tree.leaf_.length = size + 1
  losers :
    tree.loser_.length = size
  seated :
    Seated (keyAt tree.leaf_) (loserAt tree.loser_) winner size
      (fun way => filled ≤ way ∧
        keyAt tree.leaf_ size < keyAt tree.leaf_ way)
  senior :
    ∀ node, 0 < node → node < size → filled ≤ firstEntrant size node →
      Senior (keyAt tree.leaf_) winner size node

/-- What `Adjust` of a way has put on top. -/
def Topped
    (tree : LoserTree)
    (size way : Nat)
    (winner : Nat → Nat) : Prop :=
  tree.loser_[0]? =
    some
      (if keyAt tree.leaf_ size < keyAt tree.leaf_ way then
        winner 1
      else
        way)

namespace Entering

variable
  {tree : LoserTree}
  {winner : Nat → Nat}
  {size filled : Nat}

/-- `Adjust` of the next way enters it above the virtual leaf. -/
theorem above
    (entering : Entering tree size (filled + 1) winner)
    (playing : filled < size)
    (greater : keyAt tree.leaf_ size < keyAt tree.leaf_ filled) :
    ∃ adjusted final,
      adjust tree filled = some adjusted ∧
        adjusted.leaf_ = tree.leaf_ ∧
        Entering adjusted size filled final ∧
        Topped adjusted size filled final := by
  have seated := entering.seated
  have replaying := seated.enter playing fun isSeated => by omega
  have bounded :
      ∀ node, Function.update winner (size + filled) filled node ≤ size :=
    bounded_update seated.bounded (Nat.le_of_lt playing)
  obtain ⟨adjusted, final, taken, sameLeaves, standing, replayed⟩ :=
    adjust_spec entering.leaves entering.losers bounded playing
      (Function.update_self ..) replaying
  have leafOf :
      ∀ way, way ≠ filled →
        final (size + way) = winner (size + way) := by
    intro way other
    rw [replayed.leaf size (by omega) (by omega)]
    exact Function.update_of_ne (by omega) ..
  refine ⟨adjusted, final, taken, sameLeaves,
    ⟨standing.leaves, standing.losers, ?_, ?_⟩, ?_⟩
  · rw [sameLeaves]
    refine ⟨sameLeaves ▸ standing.recorded, ?_, ?_, ?_, standing.bounded⟩
    · intro way inRange isVacant
      have other : way ≠ filled := by
        rintro rfl
        exact isVacant ⟨Nat.le_refl _, greater⟩
      rw [leafOf way other]
      exact seated.vacant way inRange fun isSeated =>
        isVacant ⟨by omega, isSeated.2⟩
    · rintro way inRange ⟨reached, isGreater⟩
      rcases Nat.eq_or_lt_of_le reached with rfl | earlier
      · rw [replayed.leaf size (by omega) (by omega)]
        exact Function.update_self ..
      · rw [leafOf way (Nat.ne_of_gt earlier)]
        exact seated.entered way inRange ⟨earlier, isGreater⟩
    · exact fun way _ isSeated => isSeated.2
  · intro node positive inner reached
    rw [sameLeaves]
    unfold Senior
    rcases Nat.eq_or_lt_of_le reached with isFirst | earlier
    · -- The way that enters last below a node comes from its senior side.
      obtain ⟨childPositive, childInTree, half⟩ :=
        seniorChild_bounds positive inner
      have onPath := onPath_firstEntrant _ childPositive childInTree
      rw [firstEntrant_seniorChild positive inner, ← isFirst] at onPath
      have sticky := replayed.sticky _ onPath (by omega)
      rwa [half] at sticky
    · have offPath :
          ∀ other, other = node ∨ other / 2 = node →
            ¬ OnPath (size + filled) other := by
        rintro other place onPath
        have onNode : OnPath (size + filled) node := by
          rcases place with rfl | rfl
          · exact onPath
          · exact onPath.parent
        have := firstEntrant_le playing onNode positive
        omega
      have kept :
          ∀ other, other = node ∨ other / 2 = node →
            final other = winner other := by
        intro other place
        rw [replayed.kept other fun onPath =>
            offPath other place (OnPath.iff_eq_or_half.mpr (.inr onPath))]
        apply Function.update_of_ne
        rintro rfl
        exact offPath _ place .refl
      rw [kept node (.inl rfl),
        kept _ (.inr (seniorChild_bounds positive inner).2.2)]
      exact entering.senior node positive inner earlier
  · rw [Topped, sameLeaves, if_pos greater]
    exact standing.champion

/-- A way with the value of the virtual leaf passes through to the top. -/
theorem through
    (entering : Entering tree size (filled + 1) winner)
    (playing : filled < size)
    (least :
      ∀ way, way ≤ size → keyAt tree.leaf_ filled ≤ keyAt tree.leaf_ way) :
    ∃ adjusted,
      adjust tree filled = some adjusted ∧
        adjusted.leaf_ = tree.leaf_ ∧
        Entering adjusted size filled winner ∧
        Topped adjusted size filled winner := by
  have seated := entering.seated
  have notGreater :
      ¬ keyAt tree.leaf_ size < keyAt tree.leaf_ filled :=
    not_lt_of_ge (least size (Nat.le_refl size))
  have sameSeats :
      (fun way => filled ≤ way ∧
          keyAt tree.leaf_ size < keyAt tree.leaf_ way) =
        fun way => filled + 1 ≤ way ∧
          keyAt tree.leaf_ size < keyAt tree.leaf_ way := by
    funext way
    apply propext
    constructor
    · rintro ⟨reached, greater⟩
      refine ⟨Nat.lt_of_le_of_ne reached ?_, greater⟩
      rintro rfl
      exact notGreater greater
    · rintro ⟨reached, greater⟩
      exact ⟨Nat.le_of_succ_le reached, greater⟩
  have bounded :
      ∀ node, 0 < node → node < size →
        loserAt tree.loser_ node ≤ size := by
    intro node positive inner
    rcases (seated.recorded node positive inner).1 with
      ⟨-, lost⟩ | ⟨-, lost⟩
    · exact lost ▸ seated.bounded _
    · exact lost ▸ seated.bounded _
  have walked :=
    adjustLoop_idle entering.leaves entering.losers bounded least playing
      ((filled + tree.loser_.length) / 2) (by rw [entering.losers]; omega)
  have nonempty : 0 < tree.loser_.length := by
    rw [entering.losers]
    omega
  refine ⟨{ tree with loser_ := tree.loser_.set 0 filled },
    ?_, rfl, ?_, ?_⟩
  · simp [adjust, assign, walked, nonempty]
  · constructor
    · exact entering.leaves
    · simpa using entering.losers
    · change Seated (keyAt tree.leaf_) _ winner size _
      rw [sameSeats]
      exact ⟨recorded_set_zero seated.recorded, seated.vacant,
        seated.entered, seated.least, seated.bounded⟩
    · intro node positive inner reached
      rcases Nat.eq_or_lt_of_le reached with isFirst | earlier
      · -- The leaf of the way is vacant, so both winners are virtual.
        have leafVirtual :=
          seated.vacant filled playing fun isSeated => by omega
        obtain ⟨childPositive, childInTree, -⟩ :=
          seniorChild_bounds positive inner
        have inTree : node < 2 * size := by omega
        have onNode := onPath_firstEntrant node positive inTree
        have onChild := onPath_firstEntrant _ childPositive childInTree
        rw [← isFirst] at onNode
        rw [firstEntrant_seniorChild positive inner, ← isFirst] at onChild
        left
        rw [seated.virtual_path onNode (by omega) positive leafVirtual,
          seated.virtual_path onChild (by omega) childPositive leafVirtual]
      · exact entering.senior node positive inner earlier
  · rw [Topped, if_neg notGreater]
    simp [nonempty]

/-- `Adjust` of the next way. -/
theorem next
    (entering : Entering tree size (filled + 1) winner)
    (playing : filled < size)
    (least :
      ∀ way, way ≤ size → keyAt tree.leaf_ size ≤ keyAt tree.leaf_ way) :
    ∃ adjusted final,
      adjust tree filled = some adjusted ∧
        adjusted.leaf_ = tree.leaf_ ∧
        Entering adjusted size filled final ∧
        Topped adjusted size filled final := by
  by_cases greater : keyAt tree.leaf_ size < keyAt tree.leaf_ filled
  · exact entering.above playing greater
  · obtain ⟨adjusted, effect⟩ :=
      entering.through playing fun way inRange =>
        le_trans (le_of_not_gt greater) (least way inRange)
    exact ⟨adjusted, winner, effect⟩

/-- The second loop of `CreateLoserTree` enters every remaining way. -/
theorem enterWays
    (entering : Entering tree size filled winner)
    (topped : filled < size → Topped tree size filled winner)
    (least :
      ∀ way, way ≤ size → keyAt tree.leaf_ size ≤ keyAt tree.leaf_ way)
    (inRange : filled ≤ size) :
    ∃ created final,
      Merge.enterWays tree filled = some created ∧
        created.leaf_ = tree.leaf_ ∧
        Entering created size 0 final ∧
        (0 < size → Topped created size 0 final) := by
  induction filled generalizing tree winner with
  | zero =>
      exact ⟨tree, winner, rfl, rfl, entering, topped⟩
  | succ filled inductionHypothesis =>
      obtain ⟨adjusted, between, taken, sameLeaves, entered, onTop⟩ :=
        entering.next inRange least
      rw [← sameLeaves] at least
      obtain ⟨created, final, completed, finalLeaves, all⟩ :=
        inductionHypothesis entered (fun _ => onTop) least
          (Nat.le_of_succ_le inRange)
      refine ⟨created, final, ?_, finalLeaves.trans sameLeaves, all⟩
      simpa [Merge.enterWays, taken] using completed

/-- When every way is above the virtual leaf, the tree is complete. -/
theorem standing
    (entering : Entering tree size 0 winner)
    (topped : Topped tree size 0 winner)
    (nonempty : 0 < size)
    (greater :
      ∀ way, way < size → keyAt tree.leaf_ size < keyAt tree.leaf_ way) :
    Standing tree size winner ∧ Entered winner size := by
  rw [Topped, if_pos (greater 0 nonempty)] at topped
  refine ⟨⟨entering.leaves, entering.losers, entering.seated.recorded,
    topped, entering.seated.bounded⟩, fun way playing => ?_⟩
  exact entering.seated.entered way playing
    ⟨Nat.zero_le way, greater way playing⟩

end Entering

/--
`CreateLoserTree` enters the cached values that are greater than the virtual
minimum, whatever the two vectors held besides them.
-/
theorem createLoserTree_entering
    {tree : LoserTree}
    {size : Nat}
    (leaves : tree.leaf_.length = size + 1)
    (losers : tree.loser_.length = size)
    (notBelow : ∀ way, way < size → intMin ≤ keyAt tree.leaf_ way) :
    ∃ created winner,
      createLoserTree tree = some created ∧
        (∀ way, way < size →
          keyAt created.leaf_ way = keyAt tree.leaf_ way) ∧
        keyAt created.leaf_ size = intMin ∧
        Entering created size 0 winner ∧
        (0 < size → Topped created size 0 winner) := by
  have sizeInBounds : size < tree.leaf_.length := by omega
  have isMinimum : keyAt (tree.leaf_.set size intMin) size = intMin :=
    keyAt_set_self sizeInBounds
  have unchanged :
      ∀ way, way < size →
        keyAt (tree.leaf_.set size intMin) way = keyAt tree.leaf_ way :=
    fun way playing =>
      keyAt_set_of_ne intMin (Nat.ne_of_lt playing)
  have onlyVirtual :
      ∀ node, 0 < node → node < size →
        loserAt (tree.loser_.map fun _ => size) node = size := by
    intro node _ inner
    simp [loserAt, losers, inner]
  have entering :
      Entering
        { leaf_ := tree.leaf_.set size intMin
          loser_ := tree.loser_.map fun _ => size }
        size size (fun _ => size) := by
    constructor
    · simpa using leaves
    · simpa using losers
    · exact .empty onlyVirtual fun way playing isSeated =>
        Nat.not_le_of_lt playing isSeated.1
    · exact fun _ _ _ _ => .inl rfl
  have least :
      ∀ way, way ≤ size →
        keyAt (tree.leaf_.set size intMin) size ≤
          keyAt (tree.leaf_.set size intMin) way := by
    intro way playing
    rcases Nat.eq_or_lt_of_le playing with rfl | isWay
    · exact le_refl _
    · rw [unchanged way isWay, isMinimum]
      exact notBelow way isWay
  obtain ⟨created, winner, completed, sameLeaves, entered⟩ :=
    entering.enterWays
      (fun impossible => absurd impossible (Nat.lt_irrefl size))
      least (Nat.le_refl size)
  refine ⟨created, winner, ?_, ?_, ?_, entered⟩
  · simpa [createLoserTree, assign, losers, sizeInBounds] using completed
  · intro way playing
    rw [sameLeaves]
    exact unchanged way playing
  · rw [sameLeaves]
    exact isMinimum

/--
Above the minimum `CreateLoserTree` builds a tree of losers from the cached
values.
-/
theorem createLoserTree_spec
    {tree : LoserTree}
    {size : Nat}
    (leaves : tree.leaf_.length = size + 1)
    (losers : tree.loser_.length = size)
    (nonempty : 0 < size)
    (aboveMinimum : ∀ way, way < size → intMin < keyAt tree.leaf_ way) :
    ∃ created winner,
      createLoserTree tree = some created ∧
        (∀ way, way < size →
          keyAt created.leaf_ way = keyAt tree.leaf_ way) ∧
        Standing created size winner ∧
        Entered winner size ∧
        ∀ node, 0 < node → node < size →
          Senior (keyAt created.leaf_) winner size node := by
  obtain ⟨created, winner, completed, sameKeys, minimum, entering,
      topped⟩ :=
    createLoserTree_entering leaves losers fun way playing =>
      le_of_lt (aboveMinimum way playing)
  have greater :
      ∀ way, way < size →
        keyAt created.leaf_ size < keyAt created.leaf_ way := by
    intro way playing
    rw [minimum, sameKeys way playing]
    exact aboveMinimum way playing
  obtain ⟨standing, allEntered⟩ :=
    entering.standing (topped nonempty) nonempty greater
  exact ⟨created, winner, completed, sameKeys, standing, allEntered,
    fun node positive inner =>
      entering.senior node positive inner (Nat.zero_le _)⟩

/--
After the cached value of the champion has changed, `Adjust` of the champion
restores the tree.
-/
theorem adjust_champion_spec
    {tree changed : LoserTree}
    {winner : Nat → Nat}
    {size : Nat}
    {value : Int}
    (standing : Standing tree size winner)
    (entered : Entered winner size)
    (nonempty : 0 < size)
    (sameLosers : changed.loser_ = tree.loser_)
    (updated : changed.leaf_ = tree.leaf_.set (winner 1) value) :
    ∃ adjusted final,
      adjust changed (winner 1) = some adjusted ∧
        adjusted.leaf_ = changed.leaf_ ∧
        Standing adjusted size final ∧
        Entered final size ∧
        Replayed (keyAt changed.leaf_) winner final (size + winner 1) := by
  have playing := standing.recorded.champion_lt entered nonempty
  have othersKept :
      ∀ way, way ≠ winner 1 →
        keyAt changed.leaf_ way = keyAt tree.leaf_ way := by
    intro way other
    rw [updated]
    exact keyAt_set_of_ne value other
  have leaves : changed.leaf_.length = size + 1 := by
    simpa [updated] using standing.leaves
  have replaying :=
    Replaying.of_champion standing.recorded entered playing othersKept
  rw [← sameLosers] at replaying
  obtain ⟨adjusted, final, taken, sameLeaves, finalStanding, replayed⟩ :=
    adjust_spec leaves (sameLosers ▸ standing.losers) standing.bounded
      playing (entered (winner 1) playing) replaying
  refine ⟨adjusted, final, taken, sameLeaves, finalStanding, ?_, replayed⟩
  intro way inRange
  rw [replayed.leaf size (by omega) (by omega)]
  exact entered way inRange

end CsPrimer.Merge
