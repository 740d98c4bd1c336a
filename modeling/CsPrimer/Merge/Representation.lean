import CsPrimer.Merge.Replay
import Mathlib.Data.List.Perm.Subperm

namespace CsPrimer.Merge

open Library.Tournament

/-!
# What `loser_` represents

`loser_` holds the champion and the losers of a tournament of all ways, each
way once, and `leaf_` its keys.  `CreateLoserTree` builds such a tree, and
`Adjust` of the champion restores it whatever value the champion's leaf gets.
-/

/-- The ways with their values in a tree of losers. -/
structure Represents (tree : LoserTree) (kWays : Nat) : Prop where
  leaves :
    tree.leaf_.length = kWays + 1
  /-- `loser_[0..kWays)` is a permutation of the ways. -/
  permutation :
    tree.loser_.Perm (List.range kWays)
  least :
    ∃ champion,
      tree.loser_[0]? = some champion ∧
        ∀ way < kWays, keyAt tree.leaf_ champion ≤ keyAt tree.leaf_ way
  /-- At every inner node the winners of the children won and lost. -/
  winners :
    ∃ winner,
      Entered winner kWays ∧
        tree.loser_[0]? = some (winner 1) ∧
        ∀ node, 0 < node → node < kWays →
          Paired (loserAt tree.loser_) winner node ∧
            keyAt tree.leaf_ (winner node) ≤
              keyAt tree.leaf_ (loserAt tree.loser_ node)

/-- Change the leaf of the champion and call `Adjust(loser_[0])`. -/
def changeChampion (tree : LoserTree) (value : Int) : Option LoserTree := do
  let champion ← tree.loser_[0]?
  let leaf_ ← assign tree.leaf_ champion value
  adjust { tree with leaf_ := leaf_ } champion

variable
  {tree : LoserTree}
  {winner : Nat → Nat}
  {size : Nat}

/-- Every way stands in `loser_`, as the champion or as a loser. -/
theorem Standing.mem_loser
    (standing : Standing tree size winner)
    (entered : Entered winner size)
    {way : Nat}
    (playing : way < size) :
    way ∈ tree.loser_ := by
  have isWinner := entered way playing
  rcases standing.recorded.champion_or_loser (by omega : 0 < size + way)
      (by omega) with isChampion | ⟨node, -, inner, lost⟩
  · apply List.mem_of_getElem? (i := 0)
    rw [standing.champion, ← isChampion, isWinner]
  · apply List.mem_of_getElem? (i := node)
    rw [getElem?_eq_loserAt (standing.losers ▸ inner), lost, isWinner]

theorem Standing.represents
    (standing : Standing tree size winner)
    (entered : Entered winner size) :
    Represents tree size where
  leaves :=
    standing.leaves
  permutation := by
    have allWays : List.range size ⊆ tree.loser_ := fun way member =>
      standing.mem_loser entered (List.mem_range.mp member)
    apply List.Perm.symm
    apply (List.subperm_of_subset List.nodup_range allWays).perm_of_length_le
    exact Nat.le_of_eq (standing.losers.trans List.length_range.symm)
  least :=
    ⟨winner 1, standing.champion,
      fun _ playing => standing.recorded.champion_le entered playing⟩
  winners :=
    ⟨winner, entered, standing.champion, standing.recorded⟩

/-- A change of the champion's leaf leaves a complete tree. -/
theorem Standing.changeChampion
    (standing : Standing tree size winner)
    (entered : Entered winner size)
    (nonempty : 0 < size)
    (value : Int) :
    ∃ adjusted final,
      Merge.changeChampion tree value = some adjusted ∧
        Standing adjusted size final ∧
        Entered final size := by
  have inLeaves : winner 1 < tree.leaf_.length := by
    rw [standing.leaves]
    exact Nat.lt_succ_of_lt (standing.recorded.champion_lt entered nonempty)
  have sameLosers :
      ({ tree with leaf_ := tree.leaf_.set (winner 1) value } :
        LoserTree).loser_ = tree.loser_ := rfl
  obtain ⟨adjusted, final, taken, -, finalStanding, finalEntered, -⟩ :=
    adjust_champion_spec standing entered nonempty sameLosers rfl
  refine ⟨adjusted, final, ?_, finalStanding, finalEntered⟩
  simpa [Merge.changeChampion, standing.champion, assign, inLeaves]
    using taken

/-- So does any sequence of changes. -/
theorem Standing.changeChampions
    (standing : Standing tree size winner)
    (entered : Entered winner size)
    (nonempty : 0 < size)
    (values : List Int) :
    ∃ last final,
      values.foldlM Merge.changeChampion tree = some last ∧
        Standing last size final ∧
        Entered final size := by
  induction values generalizing tree winner with
  | nil =>
      exact ⟨tree, winner, rfl, standing, entered⟩
  | cons value values inductionHypothesis =>
      obtain ⟨adjusted, between, taken, adjustedStanding, adjustedEntered⟩ :=
        standing.changeChampion entered nonempty value
      obtain ⟨last, final, completed, all⟩ :=
        inductionHypothesis adjustedStanding adjustedEntered
      refine ⟨last, final, ?_, all⟩
      rw [List.foldlM_cons, taken]
      exact completed

/--
For every number of ways and all leaves above `INT_MIN`: the tree that
`CreateLoserTree` builds over the leaves represents them, and so it does after
any sequence of changes of the champion's leaf, each followed by `Adjust`.
-/
theorem loserTree_represents
    (tree : LoserTree)
    (kWays : Nat)
    (leaves : tree.leaf_.length = kWays + 1)
    (losers : tree.loser_.length = kWays)
    (nonempty : 0 < kWays)
    (aboveMinimum : ∀ way < kWays, intMin < keyAt tree.leaf_ way) :
    ∃ created,
      createLoserTree tree = some created ∧
        (∀ way < kWays, keyAt created.leaf_ way = keyAt tree.leaf_ way) ∧
        ∀ values : List Int,
          ∃ last,
            values.foldlM changeChampion created = some last ∧
              Represents last kWays := by
  obtain ⟨created, winner, completed, sameKeys, standing, entered, -⟩ :=
    createLoserTree_spec leaves losers nonempty aboveMinimum
  refine ⟨created, completed, sameKeys, fun values => ?_⟩
  obtain ⟨last, final, changed, lastStanding, lastEntered⟩ :=
    standing.changeChampions entered nonempty values
  exact ⟨last, changed, lastStanding.represents lastEntered⟩

/-- Three ways with two equal leaves. -/
theorem loserTree_represents_threeWays :
    ∃ created,
      createLoserTree ⟨[0, 0, 0], [4, 2, 4, 0]⟩ = some created ∧
        (∀ way < 3, keyAt created.leaf_ way = keyAt [4, 2, 4, 0] way) ∧
        ∀ values : List Int,
          ∃ last,
            values.foldlM changeChampion created = some last ∧
              Represents last 3 :=
  loserTree_represents ⟨[0, 0, 0], [4, 2, 4, 0]⟩ 3 rfl rfl (by decide)
    (by decide)

end CsPrimer.Merge
