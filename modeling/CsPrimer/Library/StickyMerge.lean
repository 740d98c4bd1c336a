import Mathlib.Data.List.Perm.Basic
import CsPrimer.Library.Tournament

namespace CsPrimer.Library

/-!
# The order in which a tournament merges

A merge of two sequences that resolves ties in favour of the side it has taken
from last goes on with that side as long as its next item is not larger.  A
tournament over the heads of several sequences is such a merge at every node:
the side the champion came from is replayed, and keeps a tie.  At first a tie
goes to the side with the smallest player, which entered last.
-/

section TwoSides

variable {Item Key : Type} [LinearOrder Key]

/-- Merge two sequences; a tie stays with the last side, at first `items`. -/
def stickyMerge (key : Item → Key) : List Item → List Item → List Item
  | [], others =>
      others
  | item :: items, [] =>
      item :: items
  | item :: items, other :: others =>
      if key item ≤ key other then
        item :: stickyMerge key items (other :: others)
      else
        other :: stickyMerge key others (item :: items)
termination_by items others => items.length + others.length

variable
  {key : Item → Key}
  {item : Item}
  {items others : List Item}

@[simp]
theorem stickyMerge_nil_left :
    stickyMerge key [] others = others := by
  simp [stickyMerge]

@[simp]
theorem stickyMerge_nil_right :
    stickyMerge key items [] = items := by
  cases items <;> simp [stickyMerge]

/-- The side taken last goes on while its next item is not larger. -/
theorem stickyMerge_cons
    (least : ∀ other ∈ others.head?, key item ≤ key other) :
    stickyMerge key (item :: items) others =
      item :: stickyMerge key items others := by
  cases others with
  | nil =>
      simp
  | cons other others =>
      have inOrder : key item ≤ key other := least other rfl
      simp [stickyMerge, inOrder]

/-- It does not matter which side was taken last if there is no tie. -/
theorem stickyMerge_swap
    (smaller :
      ∀ item ∈ items.head?, ∀ other ∈ others.head?,
        key other < key item) :
    stickyMerge key items others = stickyMerge key others items := by
  cases items with
  | nil =>
      simp
  | cons item items =>
      cases others with
      | nil =>
          simp
      | cons other others =>
          have before : key other < key item := smaller item rfl other rfl
          rw [stickyMerge, if_neg (not_le_of_gt before)]
          exact (stickyMerge_cons fun head isHead => by
            obtain rfl : item = head := by simpa using isHead
            exact le_of_lt before).symm

/-- What stands first is the first item of the side that wins. -/
theorem head?_stickyMerge
    (least :
      ∀ other ∈ others.head?, ∃ item ∈ items.head?, key item ≤ key other) :
    (stickyMerge key items others).head? = items.head? := by
  cases items with
  | nil =>
      cases others with
      | nil =>
          simp
      | cons other others =>
          obtain ⟨item, absent, -⟩ := least other rfl
          cases absent
  | cons item items =>
      rw [stickyMerge_cons]
      · rfl
      · intro other isHead
        obtain ⟨first, isFirst, inOrder⟩ := least other isHead
        obtain rfl : item = first := by simpa using isFirst
        exact inOrder

end TwoSides

namespace Tournament

section Entrants

/-- The smallest player below a node. -/
def firstEntrant (size node : Nat) : Nat :=
  if 0 < node ∧ node < size then
    min (firstEntrant size (2 * node)) (firstEntrant size (2 * node + 1))
  else
    node - size
termination_by 2 * size - node

variable {size node player : Nat}

/-- The smallest player below a node enters below it. -/
theorem onPath_firstEntrant
    (node : Nat)
    (positive : 0 < node)
    (inTree : node < 2 * size) :
    OnPath (size + firstEntrant size node) node := by
  induction distance : 2 * size - node using Nat.strongRecOn
      generalizing node with
  | ind distance inductionHypothesis =>
      rw [firstEntrant]
      by_cases inner : node < size
      · rw [if_pos ⟨positive, inner⟩]
        rcases Nat.le_total (firstEntrant size (2 * node))
            (firstEntrant size (2 * node + 1)) with isLeft | isRight
        · have below :=
            inductionHypothesis (2 * size - 2 * node) (by omega)
              (2 * node) (by omega) (by omega) rfl
          rw [Nat.min_eq_left isLeft]
          have halfLeft : 2 * node / 2 = node := by omega
          simpa only [halfLeft] using below.parent
        · have below :=
            inductionHypothesis (2 * size - (2 * node + 1)) (by omega)
              (2 * node + 1) (by omega) (by omega) rfl
          rw [Nat.min_eq_right isRight]
          have halfRight : (2 * node + 1) / 2 = node := by omega
          simpa only [halfRight] using below.parent
      · rw [if_neg fun isInner => inner isInner.2,
          Nat.add_sub_of_le (Nat.le_of_not_lt inner)]
        exact .refl

/-- The smallest player below the parent is not larger than below a child. -/
theorem firstEntrant_half_le
    (positive : 0 < node / 2)
    (inTree : node < 2 * size) :
    firstEntrant size (node / 2) ≤ firstEntrant size node := by
  rw [firstEntrant, if_pos ⟨positive, by omega⟩]
  have isChild : node = 2 * (node / 2) ∨ node = 2 * (node / 2) + 1 := by
    omega
  rcases isChild with isLeft | isRight
  · refine Nat.le_trans (Nat.min_le_left _ _) ?_
    exact Nat.le_of_eq (by rw [← isLeft])
  · refine Nat.le_trans (Nat.min_le_right _ _) ?_
    exact Nat.le_of_eq (by rw [← isRight])

/-- No player that enters below a node is smaller. -/
theorem firstEntrant_le
    (playing : player < size)
    (onPath : OnPath (size + player) node)
    (positive : 0 < node) :
    firstEntrant size node ≤ player := by
  induction onPath with
  | refl =>
      rw [firstEntrant, if_neg (by omega)]
      omega
  | @parent node below inductionHypothesis =>
      have nodeLe := below.le
      have inTree : node < 2 * size := by omega
      exact Nat.le_trans (firstEntrant_half_le positive inTree)
        (inductionHypothesis (by omega))

/-- The child of an inner node below which the smallest player enters. -/
def seniorChild (size node : Nat) : Nat :=
  if firstEntrant size (2 * node) ≤ firstEntrant size (2 * node + 1) then
    2 * node
  else
    2 * node + 1

theorem seniorChild_eq (size node : Nat) :
    seniorChild size node = 2 * node ∨
      seniorChild size node = 2 * node + 1 := by
  unfold seniorChild
  split
  · exact .inl rfl
  · exact .inr rfl

/-- The senior child of an inner node is one of its children. -/
theorem seniorChild_bounds
    (positive : 0 < node)
    (inner : node < size) :
    0 < seniorChild size node ∧ seniorChild size node < 2 * size ∧
      seniorChild size node / 2 = node := by
  rcases seniorChild_eq size node with isLeft | isRight <;> omega

theorem firstEntrant_seniorChild
    (positive : 0 < node)
    (inner : node < size) :
    firstEntrant size (seniorChild size node) = firstEntrant size node := by
  rw [firstEntrant.eq_def size node, if_pos ⟨positive, inner⟩]
  unfold seniorChild
  split
  · next isLeft =>
      exact (Nat.min_eq_left isLeft).symm
  · next isRight =>
      exact (Nat.min_eq_right (Nat.le_of_not_le isRight)).symm

end Entrants

section Order

variable {Item Key : Type} [LinearOrder Key]

/--
The items below a node in the order in which a tournament puts them out, where
`leftFirst` says from which side a node is taken to have come.
-/
def putOut
    (key : Item → Key)
    (size : Nat)
    (items : Nat → List Item)
    (leftFirst : Nat → Bool)
    (node : Nat) : List Item :=
  if 0 < node ∧ node < size then
    if leftFirst node then
      stickyMerge key (putOut key size items leftFirst (2 * node))
        (putOut key size items leftFirst (2 * node + 1))
    else
      stickyMerge key (putOut key size items leftFirst (2 * node + 1))
        (putOut key size items leftFirst (2 * node))
  else
    items (node - size)
termination_by 2 * size - node

/-- The order in which all the items are put out. -/
def mergeOrder
    (key : Item → Key)
    (size : Nat)
    (items : Nat → List Item) : List Item :=
  putOut key size items
    (fun node => decide (seniorChild size node = 2 * node)) 1

/-- The side a node has come from is that of its winner. -/
def fromLeft (winner : Nat → Nat) (node : Nat) : Bool :=
  decide (winner node = winner (2 * node))

/-- The keys of the players are those of their next items. -/
structure Heading
    (key : Item → Key)
    (top : Key)
    (size : Nat)
    (items : Nat → List Item)
    (playerKey : Nat → Key) : Prop where
  below :
    ∀ player, player < size → ∀ item ∈ items player, key item < top
  heads :
    ∀ player, player < size →
      playerKey player = ((items player).head?.map key).getD top

variable
  {key : Item → Key}
  {top : Key}
  {size : Nat}
  {items : Nat → List Item}
  {playerKey : Nat → Key}
  {loser winner : Nat → Nat}

theorem putOut_leaf
    {leftFirst : Nat → Bool}
    {node : Nat}
    (isLeaf : size ≤ node) :
    putOut key size items leftFirst node = items (node - size) := by
  rw [putOut, if_neg (by omega)]

/-- Off a path that all changes are on the order stays the same. -/
theorem putOut_congr
    {changed : Nat → List Item}
    {leftFirst otherFirst : Nat → Bool}
    {leaf node : Nat}
    (sameItems :
      ∀ player, size + player ≠ leaf → changed player = items player)
    (sameSide :
      ∀ node, ¬ OnPath leaf node → otherFirst node = leftFirst node)
    (positive : 0 < node)
    (inTree : node < 2 * size)
    (off : ¬ OnPath leaf node) :
    putOut key size changed otherFirst node =
      putOut key size items leftFirst node := by
  induction distance : 2 * size - node using Nat.strongRecOn
      generalizing node with
  | ind distance inductionHypothesis =>
      by_cases isLeaf : size ≤ node
      · have isOther : size + (node - size) ≠ leaf := by
          intro isPlayer
          apply off
          rw [← isPlayer, Nat.add_sub_of_le isLeaf]
          exact .refl
        rw [putOut_leaf isLeaf, putOut_leaf isLeaf, sameItems _ isOther]
      · have inner : 0 < node ∧ node < size := ⟨positive, by omega⟩
        have sameChild :
            ∀ child, child / 2 = node → child < 2 * size →
              putOut key size changed otherFirst child =
                putOut key size items leftFirst child := by
          rintro child rfl childInTree
          apply inductionHypothesis (2 * size - child) (by omega)
            (by omega) childInTree _ rfl
          intro onPath
          exact off onPath.parent
        rw [putOut, putOut.eq_def key size items, if_pos inner,
          if_pos inner, sameSide node off,
          sameChild (2 * node) (by omega) (by omega),
          sameChild (2 * node + 1) (by omega) (by omega)]

/-- The two children of an inner node. -/
structure Siblings (size node child sibling : Nat) : Prop where
  inner :
    0 < node ∧ node < size
  children :
    (child = 2 * node ∧ sibling = 2 * node + 1) ∨
      (child = 2 * node + 1 ∧ sibling = 2 * node)

namespace Siblings

variable {node child sibling : Nat}

theorem half (siblings : Siblings size node child sibling) :
    child / 2 = node ∧ sibling / 2 = node := by
  rcases siblings.children with ⟨rfl, rfl⟩ | ⟨rfl, rfl⟩ <;> omega

theorem bounds (siblings : Siblings size node child sibling) :
    node < child ∧ node < sibling ∧ child < 2 * size ∧
      sibling < 2 * size := by
  have inner := siblings.inner
  rcases siblings.children with ⟨rfl, rfl⟩ | ⟨rfl, rfl⟩ <;> omega

theorem different (siblings : Siblings size node child sibling) :
    child ≠ sibling := by
  rcases siblings.children with ⟨rfl, rfl⟩ | ⟨rfl, rfl⟩ <;> omega

/-- One of the children wins, and the other one is the recorded loser. -/
theorem game
    (siblings : Siblings size node child sibling)
    (recorded : Recorded playerKey loser winner size) :
    (winner node = winner child ∧
        playerKey (winner node) ≤ playerKey (winner sibling)) ∨
      (winner node = winner sibling ∧
        playerKey (winner node) ≤ playerKey (winner child)) := by
  obtain ⟨paired, inOrder⟩ :=
    recorded node siblings.inner.1 siblings.inner.2
  rcases siblings.children with ⟨rfl, rfl⟩ | ⟨rfl, rfl⟩ <;>
    rcases paired with ⟨won, lost⟩ | ⟨won, lost⟩
  · exact .inl ⟨won, lost ▸ inOrder⟩
  · exact .inr ⟨won, lost ▸ inOrder⟩
  · exact .inr ⟨won, lost ▸ inOrder⟩
  · exact .inl ⟨won, lost ▸ inOrder⟩

/-- The two children have different winners. -/
theorem winner_ne
    (siblings : Siblings size node child sibling)
    (recorded : Recorded playerKey loser winner size)
    (entered : Entered winner size) :
    winner child ≠ winner sibling := by
  intro same
  have bounds := siblings.bounds
  have onChild :=
    recorded.onPath_of_winner entered (by omega) bounds.2.2.1 same
  have onSibling :=
    recorded.onPath_of_winner entered (by omega) bounds.2.2.2 rfl
  exact siblings.different
    (onChild.sibling_eq onSibling
      (siblings.half.1 ▸ siblings.inner.1)
      (siblings.half.1.trans siblings.half.2.symm))

/-- A node puts out a merge that comes from the side of its winner. -/
theorem putOut_fromLeft
    (siblings : Siblings size node child sibling)
    (recorded : Recorded playerKey loser winner size)
    (entered : Entered winner size)
    (won : winner node = winner child) :
    putOut key size items (fromLeft winner) node =
      stickyMerge key
        (putOut key size items (fromLeft winner) child)
        (putOut key size items (fromLeft winner) sibling) := by
  have different := siblings.winner_ne recorded entered
  rw [putOut, if_pos siblings.inner]
  rcases siblings.children with ⟨rfl, rfl⟩ | ⟨rfl, rfl⟩
  · rw [if_pos (by simpa [fromLeft] using won)]
  · rw [if_neg (by simpa [fromLeft, won] using different)]

/-- Some sibling pair has a given child. -/
theorem of_child
    (positive : 0 < child / 2)
    (inTree : child < 2 * size) :
    ∃ sibling, Siblings size (child / 2) child sibling := by
  have inner : 0 < child / 2 ∧ child / 2 < size := ⟨positive, by omega⟩
  rcases Nat.mod_two_eq_zero_or_one child with even | odd
  · exact ⟨child + 1, inner, .inl ⟨by omega, by omega⟩⟩
  · exact ⟨child - 1, inner, .inr ⟨by omega, by omega⟩⟩

end Siblings

/-- Either child of an inner node has a sibling. -/
theorem siblings_cases
    {node : Nat}
    (inner : 0 < node ∧ node < size) :
    Siblings size node (2 * node) (2 * node + 1) ∧
      Siblings size node (2 * node + 1) (2 * node) :=
  ⟨⟨inner, .inl ⟨rfl, rfl⟩⟩, ⟨inner, .inr ⟨rfl, rfl⟩⟩⟩

namespace Heading

variable {first second : Nat}

/-- A player that is not beaten has a next item that is not larger. -/
theorem head_le
    (heading : Heading key top size items playerKey)
    (firstPlays : first < size)
    (secondPlays : second < size)
    (inOrder : playerKey first ≤ playerKey second) :
    ∀ other ∈ (items second).head?,
      ∃ item ∈ (items first).head?, key item ≤ key other := by
  intro other isHead
  have otherBelow :=
    heading.below second secondPlays other (List.mem_of_mem_head? isHead)
  rw [heading.heads first firstPlays, heading.heads second secondPlays,
    isHead] at inOrder
  cases isFirst : (items first).head? with
  | none =>
      rw [isFirst] at inOrder
      exact absurd inOrder (not_le_of_gt otherBelow)
  | some item =>
      rw [isFirst] at inOrder
      exact ⟨item, rfl, inOrder⟩

/-- A player that beats another one has a smaller next item. -/
theorem head_lt
    (heading : Heading key top size items playerKey)
    (firstPlays : first < size)
    (secondPlays : second < size)
    (before : playerKey first < playerKey second) :
    ∀ other ∈ (items second).head?, ∀ item ∈ (items first).head?,
      key item < key other := by
  intro other isOther item isItem
  rw [heading.heads first firstPlays, heading.heads second secondPlays,
    isOther, isItem] at before
  exact before

end Heading

/-- A tie at this node went to the senior side. -/
def Senior
    (playerKey : Nat → Key)
    (winner : Nat → Nat)
    (size node : Nat) : Prop :=
  winner node = winner (seniorChild size node) ∨
    playerKey (winner node) < playerKey (winner (seniorChild size node))

/-- A tournament over the next items of its players. -/
structure Contest
    (key : Item → Key)
    (top : Key)
    (size : Nat)
    (items : Nat → List Item)
    (playerKey : Nat → Key)
    (loser winner : Nat → Nat) : Prop where
  recorded :
    Recorded playerKey loser winner size
  entered :
    Entered winner size
  heading :
    Heading key top size items playerKey

namespace Contest

/-- Every winner is a player. -/
theorem winner_lt
    (contest : Contest key top size items playerKey loser winner)
    (node : Nat)
    (positive : 0 < node)
    (inTree : node < 2 * size) :
    winner node < size := by
  obtain ⟨player, playing, won⟩ :=
    contest.recorded.exists_entrant positive inTree
  rw [won, contest.entered player playing]
  exact playing

/-- What a node puts out first is the next item of its winner. -/
theorem head?_putOut
    (contest : Contest key top size items playerKey loser winner)
    (node : Nat)
    (positive : 0 < node)
    (inTree : node < 2 * size) :
    (putOut key size items (fromLeft winner) node).head? =
      (items (winner node)).head? := by
  induction distance : 2 * size - node using Nat.strongRecOn
      generalizing node with
  | ind distance inductionHypothesis =>
      by_cases isLeaf : size ≤ node
      · obtain ⟨player, rfl⟩ := Nat.exists_eq_add_of_le isLeaf
        rw [putOut_leaf isLeaf, contest.entered player (by omega),
          Nat.add_sub_cancel_left]
      · have ofSide :
            ∀ {child sibling}, Siblings size node child sibling →
              winner node = winner child →
              playerKey (winner node) ≤ playerKey (winner sibling) →
              (putOut key size items (fromLeft winner) node).head? =
                (items (winner node)).head? := by
          intro child sibling siblings won inOrder
          have bounds := siblings.bounds
          have childHead :=
            inductionHypothesis (2 * size - child) (by omega)
              child (by omega) (by omega) rfl
          have siblingHead :=
            inductionHypothesis (2 * size - sibling) (by omega)
              sibling (by omega) (by omega) rfl
          rw [siblings.putOut_fromLeft contest.recorded contest.entered won,
            head?_stickyMerge, childHead, won]
          rw [siblingHead, childHead, ← won]
          exact contest.heading.head_le
            (contest.winner_lt _ positive inTree)
            (contest.winner_lt _ (by omega) (by omega)) inOrder
        have inner : 0 < node ∧ node < size := ⟨positive, by omega⟩
        obtain ⟨left, right⟩ := siblings_cases inner
        rcases left.game contest.recorded with
          ⟨won, inOrder⟩ | ⟨won, inOrder⟩
        · exact ofSide left won inOrder
        · exact ofSide right won inOrder

/-- The order does not depend on where the side that wins comes from. -/
theorem putOut_of_side
    (contest : Contest key top size items playerKey loser winner)
    {node child sibling : Nat}
    (siblings : Siblings size node child sibling)
    (side :
      winner node = winner child ∨
        playerKey (winner node) < playerKey (winner child)) :
    putOut key size items (fromLeft winner) node =
      stickyMerge key
        (putOut key size items (fromLeft winner) child)
        (putOut key size items (fromLeft winner) sibling) := by
  have bounds := siblings.bounds
  have inner := siblings.inner
  by_cases won : winner node = winner child
  · exact siblings.putOut_fromLeft contest.recorded contest.entered won
  · have smaller := side.resolve_left won
    rcases siblings.game contest.recorded with
      ⟨absurdly, -⟩ | ⟨otherWon, -⟩
    · exact absurd absurdly won
    · have swapped : Siblings size node sibling child :=
        ⟨inner, siblings.children.symm.imp And.symm And.symm⟩
      rw [swapped.putOut_fromLeft contest.recorded contest.entered otherWon]
      refine (stickyMerge_swap ?_).symm
      rw [contest.head?_putOut _ (by omega) (by omega),
        contest.head?_putOut _ (by omega) (by omega)]
      rw [otherWon] at smaller
      exact contest.heading.head_lt (contest.winner_lt _ (by omega) (by omega))
        (contest.winner_lt _ (by omega) (by omega)) smaller

/-- At first the order is that of the senior sides. -/
theorem mergeOrder_eq
    (contest : Contest key top size items playerKey loser winner)
    (senior :
      ∀ node, 0 < node → node < size → Senior playerKey winner size node)
    (nonempty : 0 < size) :
    mergeOrder key size items =
      putOut key size items (fromLeft winner) 1 := by
  have atEvery :
      ∀ node, 0 < node → node < 2 * size →
        putOut key size items
            (fun node => decide (seniorChild size node = 2 * node)) node =
          putOut key size items (fromLeft winner) node := by
    intro node positive inTree
    induction distance : 2 * size - node using Nat.strongRecOn
        generalizing node with
    | ind distance inductionHypothesis =>
        by_cases isLeaf : size ≤ node
        · rw [putOut_leaf isLeaf, putOut_leaf isLeaf]
        · have inner : 0 < node ∧ node < size := ⟨positive, by omega⟩
          have same :
              ∀ child, node < child → child < 2 * size →
                putOut key size items
                    (fun node =>
                      decide (seniorChild size node = 2 * node)) child =
                  putOut key size items (fromLeft winner) child := by
            intro child below childInTree
            exact inductionHypothesis (2 * size - child) (by omega)
              child (by omega) childInTree rfl
          have side := senior node positive inner.2
          unfold Senior at side
          obtain ⟨left, right⟩ := siblings_cases inner
          rw [putOut, if_pos inner, same _ (by omega) (by omega),
            same _ (by omega) (by omega)]
          rcases seniorChild_eq size node with isLeft | isRight
          · rw [isLeft] at side
            rw [contest.putOut_of_side left side, if_pos (by simp [isLeft])]
          · rw [isRight] at side
            rw [contest.putOut_of_side right side,
              if_neg (by simp [isRight])]
  exact atEvery 1 Nat.one_pos (by omega)

/-- What the other side puts out is not smaller than the champion's item. -/
theorem item_le
    {item : Item}
    {left : List Item}
    {node child sibling : Nat}
    (contest : Contest key top size items playerKey loser winner)
    (siblings : Siblings size node child sibling)
    (won : winner node = winner 1)
    (next : items (winner 1) = item :: left) :
    ∀ other ∈ (putOut key size items (fromLeft winner) sibling).head?,
      key item ≤ key other := by
  have inner := siblings.inner
  have bounds := siblings.bounds
  have inOrder : playerKey (winner node) ≤ playerKey (winner sibling) := by
    rcases siblings.game contest.recorded with
      ⟨-, inOrder⟩ | ⟨otherWon, -⟩
    · exact inOrder
    · exact le_of_eq (congrArg playerKey otherWon)
  rw [contest.head?_putOut _ (by omega) (by omega)]
  intro other isHead
  obtain ⟨first, isFirst, firstLe⟩ :=
    contest.heading.head_le (contest.winner_lt _ inner.1 (by omega))
      (contest.winner_lt sibling (by omega) (by omega)) inOrder other isHead
  rw [won, next] at isFirst
  obtain rfl : item = first := by simpa using isFirst
  exact firstLe

/--
When the champion's first item has been taken and its path has been replayed,
the rest of the order is what the tournament puts out now.
-/
theorem turn
    {item : Item}
    {left : List Item}
    {changedKey : Nat → Key}
    {changedLoser final : Nat → Nat}
    (contest : Contest key top size items playerKey loser winner)
    (after :
      Contest key top size (Function.update items (winner 1) left)
        changedKey changedLoser final)
    (next : items (winner 1) = item :: left)
    (replayed : Replayed changedKey winner final (size + winner 1))
    (nonempty : 0 < size) :
    putOut key size items (fromLeft winner) 1 =
      item ::
        putOut key size (Function.update items (winner 1) left)
          (fromLeft final) 1 := by
  have playing := contest.winner_lt 1 Nat.one_pos (by omega)
  have keptWinner :
      ∀ node, ¬ OnPath (size + winner 1) node →
        final node = winner node := by
    intro node off
    apply replayed.kept node
    intro onPath
    exact off (OnPath.iff_eq_or_half.mpr (.inr onPath))
  have keptSide :
      ∀ node, ¬ OnPath (size + winner 1) node →
        fromLeft final node = fromLeft winner node := by
    intro node off
    have offLeft : ¬ OnPath (size + winner 1) (2 * node) := by
      intro onPath
      have below := onPath.parent
      rw [Nat.mul_div_cancel_left node Nat.two_pos] at below
      exact off below
    rw [fromLeft, keptWinner node off, keptWinner (2 * node) offLeft,
      fromLeft]
  have keptItems :
      ∀ player, size + player ≠ size + winner 1 →
        Function.update items (winner 1) left player = items player := by
    intro player isOther
    apply Function.update_of_ne
    rintro rfl
    exact isOther rfl
  -- Every node on the path of the champion puts out the item first.
  have onPath :
      ∀ node, 0 < node → OnPath (size + winner 1) node →
        putOut key size items (fromLeft winner) node =
          item ::
            putOut key size (Function.update items (winner 1) left)
              (fromLeft final) node := by
    intro node positive on
    induction on with
    | refl =>
        rw [putOut_leaf (Nat.le_add_right ..),
          putOut_leaf (Nat.le_add_right ..), Nat.add_sub_cancel_left,
          Function.update_self]
        exact next
    | @parent child below inductionHypothesis =>
        have childLe := below.le
        have childInTree : child < 2 * size := by omega
        obtain ⟨sibling, siblings⟩ := Siblings.of_child positive childInTree
        have bounds := siblings.bounds
        have siblingOff : ¬ OnPath (size + winner 1) sibling := by
          intro onSibling
          exact siblings.different
            (below.sibling_eq onSibling positive siblings.half.2.symm)
        have ownWon :=
          contest.recorded.champion_path contest.entered positive
            (by omega) below.parent
        have childWon :=
          contest.recorded.champion_path contest.entered
            (Nat.zero_lt_of_lt bounds.1) childInTree below
        have won : winner (child / 2) = winner child :=
          ownWon.trans childWon.symm
        rw [contest.putOut_of_side siblings (.inl won),
          inductionHypothesis (by omega),
          after.putOut_of_side siblings
            (replayed.sticky child below positive),
          putOut_congr keptItems keptSide (by omega) (by omega) siblingOff]
        exact stickyMerge_cons (contest.item_le siblings ownWon next)
  exact onPath 1 Nat.one_pos (OnPath.root _ (by omega))

end Contest

end Order

end Tournament

end CsPrimer.Library
