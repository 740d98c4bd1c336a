import Mathlib.Order.Lattice
import Mathlib.Logic.Function.Basic

namespace CsPrimer.Library.Tournament

/-!
# Tournaments recorded by their losers

A tournament over `size` players is a complete binary tree with nodes
`1, …, 2 * size - 1`: player `i` enters at leaf `size + i`, and the parent of a
node is its half.  The record keeps, for every inner node, the player that lost
there.  `winner` assigns the winning player to every node; it is not stored,
but a record is only meaningful relative to such an assignment.

Replaying the games on the path from one leaf to the root only needs the
recorded losers when the previous occupant of that leaf had won the whole path:
the loser recorded on the path is then the winner of the sibling subtree.
-/

/-- The nodes on the way from a node to the root, that node included. -/
inductive OnPath (leaf : Nat) : Nat → Prop where
  | refl :
      OnPath leaf leaf
  | parent
      {node : Nat}
      (below : OnPath leaf node) :
      OnPath leaf (node / 2)

namespace OnPath

theorem le
    {leaf node : Nat}
    (onPath : OnPath leaf node) :
    node ≤ leaf := by
  induction onPath with
  | refl =>
      exact Nat.le_refl leaf
  | parent below inductionHypothesis =>
      omega

theorem trans
    {leaf middle node : Nat}
    (first : OnPath leaf middle)
    (second : OnPath middle node) :
    OnPath leaf node := by
  induction second with
  | refl =>
      exact first
  | parent below inductionHypothesis =>
      exact inductionHypothesis.parent

/-- A path is its first node followed by the path of the parent. -/
theorem iff_eq_or_half
    {leaf node : Nat} :
    OnPath leaf node ↔ node = leaf ∨ OnPath (leaf / 2) node := by
  constructor
  · intro onPath
    induction onPath with
    | refl =>
        exact .inl rfl
    | parent below inductionHypothesis =>
        rcases inductionHypothesis with isLeaf | above
        · rw [isLeaf]
          exact .inr .refl
        · exact .inr above.parent
  · rintro (rfl | above)
    · exact .refl
    · exact (OnPath.refl.parent).trans above

/-- Two nodes of one path lie on the path of one of them. -/
theorem total
    {leaf first second : Nat}
    (toFirst : OnPath leaf first)
    (toSecond : OnPath leaf second) :
    OnPath first second ∨ OnPath second first := by
  induction toFirst with
  | refl =>
      exact .inl toSecond
  | parent below inductionHypothesis =>
      rcases inductionHypothesis with above | under
      · rcases iff_eq_or_half.mp above with same | strict
        · rw [same]
          exact .inr OnPath.refl.parent
        · exact .inl strict
      · exact .inr under.parent

/-- A path does not contain two nodes with the same nonzero parent. -/
theorem sibling_eq
    {leaf first second : Nat}
    (toFirst : OnPath leaf first)
    (toSecond : OnPath leaf second)
    (positive : 0 < first / 2)
    (siblings : first / 2 = second / 2) :
    first = second := by
  have strict :
      ∀ {upper lower : Nat}, OnPath lower upper → upper ≠ lower →
        upper ≤ lower / 2 := by
    intro upper lower onPath different
    rcases iff_eq_or_half.mp onPath with same | above
    · exact (different same).elim
    · exact above.le
  by_contra different
  rcases toFirst.total toSecond with above | above
  · have := strict above (Ne.symm different)
    omega
  · have := strict above different
    omega

/-- The root is on every path. -/
theorem root
    (leaf : Nat)
    (positive : 0 < leaf) :
    OnPath leaf 1 := by
  induction leaf using Nat.strongRecOn with
  | ind leaf inductionHypothesis =>
      by_cases isRoot : leaf = 1
      · rw [isRoot]
        exact .refl
      · exact iff_eq_or_half.mpr
          (.inr (inductionHypothesis (leaf / 2)
            (by omega) (by omega)))

end OnPath

/-- The winner and the loser at a node are the winners of its children. -/
def Paired (loser winner : Nat → Nat) (node : Nat) : Prop :=
  (winner node = winner (2 * node) ∧
      loser node = winner (2 * node + 1)) ∨
    (winner node = winner (2 * node + 1) ∧
      loser node = winner (2 * node))

namespace Paired

/-- The winner of a child of a node won or lost at the node. -/
theorem child
    {loser winner : Nat → Nat}
    {node : Nat}
    (paired : Paired loser winner (node / 2)) :
    winner node = winner (node / 2) ∨ winner node = loser (node / 2) := by
  have isChild : node = 2 * (node / 2) ∨ node = 2 * (node / 2) + 1 := by
    omega
  rcases paired with ⟨won, lost⟩ | ⟨won, lost⟩ <;>
    rcases isChild with isLeft | isRight
  · exact .inl ((congrArg winner isLeft).trans won.symm)
  · exact .inr ((congrArg winner isRight).trans lost.symm)
  · exact .inr ((congrArg winner isLeft).trans lost.symm)
  · exact .inl ((congrArg winner isRight).trans won.symm)

/-- A pairing only depends on the node and its two children. -/
theorem congr
    {loser winner otherLoser otherWinner : Nat → Nat}
    {node : Nat}
    (paired : Paired loser winner node)
    (sameLoser : otherLoser node = loser node)
    (sameNode : otherWinner node = winner node)
    (sameLeft : otherWinner (2 * node) = winner (2 * node))
    (sameRight : otherWinner (2 * node + 1) = winner (2 * node + 1)) :
    Paired otherLoser otherWinner node := by
  unfold Paired
  rw [sameLoser, sameNode, sameLeft, sameRight]
  exact paired

end Paired

section Order

variable {Key : Type} [LinearOrder Key]

/-- Every inner node records a game that its winner did not lose. -/
def Recorded
    (key : Nat → Key)
    (loser winner : Nat → Nat)
    (size : Nat) : Prop :=
  ∀ node, 0 < node → node < size →
    Paired loser winner node ∧ key (winner node) ≤ key (loser node)

/-- Every player entered at its own leaf. -/
def Entered (winner : Nat → Nat) (size : Nat) : Prop :=
  ∀ player, player < size → winner (size + player) = player

variable
  {key : Nat → Key}
  {loser winner : Nat → Nat}
  {size : Nat}

/-- Keys of winners do not grow towards the root. -/
theorem Recorded.winner_le
    (recorded : Recorded key loser winner size)
    {lower upper : Nat}
    (onPath : OnPath lower upper)
    (inTree : lower < 2 * size)
    (positive : 0 < upper) :
    key (winner upper) ≤ key (winner lower) := by
  induction onPath with
  | refl =>
      exact le_refl _
  | @parent node below inductionHypothesis =>
      have nodeLe := below.le
      obtain ⟨paired, inOrder⟩ :=
        recorded (node / 2) positive (by omega)
      have lowerStep : key (winner (node / 2)) ≤ key (winner node) := by
        rcases paired.child with won | lost
        · rw [won]
        · rw [lost]
          exact inOrder
      exact lowerStep.trans (inductionHypothesis (by omega))

/-- The champion has a least key. -/
theorem Recorded.champion_le
    (recorded : Recorded key loser winner size)
    (entered : Entered winner size)
    {player : Nat}
    (playing : player < size) :
    key (winner 1) ≤ key player := by
  have least :=
    recorded.winner_le (OnPath.root (size + player) (by omega))
      (by omega) Nat.one_pos
  rwa [entered player playing] at least

/-- A player only wins on the path from its own leaf. -/
theorem Recorded.onPath_of_winner
    (recorded : Recorded key loser winner size)
    (entered : Entered winner size)
    {node player : Nat}
    (positive : 0 < node)
    (inTree : node < 2 * size)
    (won : winner node = player) :
    OnPath (size + player) node := by
  induction distance : 2 * size - node using Nat.strongRecOn
      generalizing node with
  | ind distance inductionHypothesis =>
      by_cases isLeaf : size ≤ node
      · obtain ⟨entrant, rfl⟩ := Nat.exists_eq_add_of_le isLeaf
        rw [entered entrant (by omega)] at won
        rw [won]
        exact .refl
      · have inner : node < size := by omega
        have halfLeft : 2 * node / 2 = node := by omega
        have halfRight : (2 * node + 1) / 2 = node := by omega
        rcases (recorded node positive inner).1 with
          ⟨fromLeft, -⟩ | ⟨fromRight, -⟩
        · have onLeft :=
            inductionHypothesis (2 * size - 2 * node) (by omega)
              (by omega) (by omega) (fromLeft.symm.trans won) rfl
          simpa [halfLeft] using onLeft.parent
        · have onRight :=
            inductionHypothesis (2 * size - (2 * node + 1)) (by omega)
              (by omega) (by omega) (fromRight.symm.trans won) rfl
          simpa [halfRight] using onRight.parent

/-- Every winner entered the tournament at some leaf. -/
theorem Recorded.exists_entrant
    (recorded : Recorded key loser winner size)
    {node : Nat}
    (positive : 0 < node)
    (inTree : node < 2 * size) :
    ∃ player, player < size ∧ winner node = winner (size + player) := by
  induction distance : 2 * size - node using Nat.strongRecOn
      generalizing node with
  | ind distance inductionHypothesis =>
      by_cases isLeaf : size ≤ node
      · exact ⟨node - size, by omega, by
          rw [Nat.add_sub_of_le isLeaf]⟩
      · rcases (recorded node positive (by omega)).1 with
          ⟨fromChild, -⟩ | ⟨fromChild, -⟩
        · obtain ⟨player, playing, same⟩ :=
            inductionHypothesis (2 * size - 2 * node) (by omega)
              (by omega) (by omega) rfl
          exact ⟨player, playing, fromChild.trans same⟩
        · obtain ⟨player, playing, same⟩ :=
            inductionHypothesis (2 * size - (2 * node + 1)) (by omega)
              (by omega) (by omega) rfl
          exact ⟨player, playing, fromChild.trans same⟩

/-- The champion is a player, not a virtual one. -/
theorem Recorded.champion_lt
    (recorded : Recorded key loser winner size)
    (entered : Entered winner size)
    (nonempty : 0 < size) :
    winner 1 < size := by
  obtain ⟨player, playing, same⟩ :=
    recorded.exists_entrant Nat.one_pos (by omega)
  rw [same, entered player playing]
  exact playing

/-- Whoever wins anywhere is the champion or loses somewhere. -/
theorem Recorded.champion_or_loser
    (recorded : Recorded key loser winner size)
    {node : Nat}
    (positive : 0 < node)
    (inTree : node < 2 * size) :
    winner node = winner 1 ∨
      ∃ inner, 0 < inner ∧ inner < size ∧ loser inner = winner node := by
  induction node using Nat.strongRecOn with
  | ind node inductionHypothesis =>
      by_cases isRoot : node = 1
      · exact .inl (congrArg winner isRoot)
      · have parentPositive : 0 < node / 2 := by omega
        have parentInner : node / 2 < size := by omega
        rcases (recorded (node / 2) parentPositive parentInner).1.child with
          won | lost
        · rw [won]
          exact inductionHypothesis (node / 2) (by omega) parentPositive
            (by omega)
        · exact .inr ⟨node / 2, parentPositive, parentInner, lost.symm⟩

/-- The champion won every game on the path from its leaf. -/
theorem Recorded.champion_path
    (recorded : Recorded key loser winner size)
    (entered : Entered winner size)
    {node : Nat}
    (positive : 0 < node)
    (inTree : node < 2 * size)
    (onPath : OnPath (size + winner 1) node) :
    winner node = winner 1 := by
  induction node using Nat.strongRecOn with
  | ind node inductionHypothesis =>
      by_cases isRoot : node = 1
      · rw [isRoot]
      · have parentPositive : 0 < node / 2 := by omega
        have parentWon :=
          inductionHypothesis (node / 2) (by omega)
            parentPositive (by omega) onPath.parent
        rcases (recorded (node / 2) parentPositive (by omega)).1 with
          ⟨fromChild, -⟩ | ⟨fromChild, -⟩
        all_goals
          have childOnPath :=
            recorded.onPath_of_winner entered
              (by omega) (by omega) (fromChild.symm.trans parentWon)
          have sameNode :=
            onPath.sibling_eq childOnPath parentPositive (by omega)
          rw [sameNode, ← fromChild, parentWon]

/--
The state of a replay that has reached `child`: the games off the path above
`child` are recorded, and those on it still show `previous` as the winner.
-/
structure Replaying
    (key : Nat → Key)
    (loser winner : Nat → Nat)
    (size child previous : Nat) : Prop where
  settled :
    ∀ node, 0 < node → node < size → ¬ OnPath (child / 2) node →
      Paired loser winner node ∧ key (winner node) ≤ key (loser node)
  pending :
    ∀ node, 0 < node → node < size → OnPath (child / 2) node →
      Paired loser (Function.update winner child previous) node
  won :
    ∀ node, 0 < node → OnPath (child / 2) node →
      winner node = previous

namespace Replaying

variable {child previous : Nat}

/-- A replay that has reached the root has recorded every game. -/
theorem recorded
    (replaying : Replaying key loser winner size child previous)
    (atRoot : child / 2 = 0) :
    Recorded key loser winner size := by
  intro node positive inner
  apply replaying.settled node positive inner
  intro onPath
  have := onPath.le
  omega

/-- At the next node, `child` plays the recorded loser. -/
theorem children
    (replaying : Replaying key loser winner size child previous)
    (positive : 0 < child / 2)
    (inner : child / 2 < size) :
    (winner (2 * (child / 2)) = winner child ∧
        winner (2 * (child / 2) + 1) = loser (child / 2)) ∨
      (winner (2 * (child / 2) + 1) = winner child ∧
        winner (2 * (child / 2)) = loser (child / 2)) := by
  have paired := replaying.pending (child / 2) positive inner .refl
  have parentWon := replaying.won (child / 2) positive .refl
  have parentOther : child / 2 ≠ child := by omega
  have parity : child = 2 * (child / 2) ∨ child = 2 * (child / 2) + 1 := by
    omega
  generalize child / 2 = node at *
  rcases parity with rfl | rfl
  · refine .inl ⟨rfl, ?_⟩
    have siblingOther : 2 * node + 1 ≠ 2 * node := by omega
    rcases paired with ⟨-, lost⟩ | ⟨won, lost⟩
    · simpa [siblingOther] using lost.symm
    · simp [parentOther, parentWon] at won lost
      rw [lost, won]
  · refine .inr ⟨rfl, ?_⟩
    have siblingOther : 2 * node ≠ 2 * node + 1 := by omega
    rcases paired with ⟨won, lost⟩ | ⟨-, lost⟩
    · simp [parentOther, parentWon] at won lost
      rw [lost, won]
    · simpa [siblingOther] using lost.symm

/-- One replayed game moves the replay to the parent of `child`. -/
theorem advance
    (replaying : Replaying key loser winner size child previous)
    (positive : 0 < child / 2)
    (inner : child / 2 < size)
    {victor defeated : Nat}
    (game :
      (victor = winner child ∧ defeated = loser (child / 2)) ∨
        (victor = loser (child / 2) ∧ defeated = winner child))
    (inOrder : key victor ≤ key defeated) :
    Replaying key
      (Function.update loser (child / 2) defeated)
      (Function.update winner (child / 2) victor)
      size (child / 2) previous := by
  have parentWon := replaying.won (child / 2) positive .refl
  have childParent : child / 2 ≠ child := by omega
  have agrees :
      ∀ other, other ≠ child →
        Function.update (Function.update winner (child / 2) victor)
            (child / 2) previous other =
          Function.update winner child previous other := by
    intro other notChild
    by_cases isNode : other = child / 2
    · rw [isNode, Function.update_self,
        Function.update_of_ne childParent, parentWon]
    · rw [Function.update_of_ne isNode, Function.update_of_ne isNode,
        Function.update_of_ne notChild]
  constructor
  · intro other otherPositive otherInner offPath
    by_cases isNode : other = child / 2
    · rw [isNode, Function.update_self, Function.update_self]
      refine ⟨?_, inOrder⟩
      unfold Paired
      rw [Function.update_self, Function.update_self,
        Function.update_of_ne (by omega : 2 * (child / 2) ≠ child / 2),
        Function.update_of_ne (by omega : 2 * (child / 2) + 1 ≠ child / 2)]
      rcases replaying.children positive inner with
        ⟨own, opponent⟩ | ⟨own, opponent⟩ <;>
        rw [own, opponent]
      · exact game
      · exact game.symm
    · have offOldPath : ¬ OnPath (child / 2) other := by
        intro onPath
        rcases OnPath.iff_eq_or_half.mp onPath with same | above
        · exact isNode same
        · exact offPath above
      have notParent : child / 2 / 2 ≠ other := by
        rintro rfl
        exact offPath .refl
      obtain ⟨paired, settledOrder⟩ :=
        replaying.settled other otherPositive otherInner offOldPath
      rw [Function.update_of_ne isNode, Function.update_of_ne isNode]
      exact ⟨paired.congr
        (Function.update_of_ne isNode ..)
        (Function.update_of_ne isNode ..)
        (Function.update_of_ne (by omega) ..)
        (Function.update_of_ne (by omega) ..), settledOrder⟩
  · intro other otherPositive otherInner onPath
    have otherLe := onPath.le
    have paired :=
      replaying.pending other otherPositive otherInner
        (OnPath.iff_eq_or_half.mpr (.inr onPath))
    exact paired.congr
      (Function.update_of_ne (by omega) ..)
      (agrees _ (by omega))
      (agrees _ (by omega))
      (agrees _ (by omega))
  · intro other otherPositive onPath
    have otherLe := onPath.le
    rw [Function.update_of_ne (by omega : other ≠ child / 2)]
    exact replaying.won other otherPositive
      (OnPath.iff_eq_or_half.mpr (.inr onPath))

/-- After the champion's key changed, its whole path has to be replayed. -/
theorem of_champion
    (recorded : Recorded key loser winner size)
    (entered : Entered winner size)
    (playing : winner 1 < size)
    {changed : Nat → Key}
    (same : ∀ player, player ≠ winner 1 → changed player = key player) :
    Replaying changed loser winner size
      (size + winner 1) (winner 1) := by
  constructor
  · intro node positive inner offPath
    have offLeafPath : ¬ OnPath (size + winner 1) node := by
      intro onPath
      rcases OnPath.iff_eq_or_half.mp onPath with same | above
      · omega
      · exact offPath above
    have notChampion :
        ∀ below, 0 < below → below < 2 * size →
          below = node ∨ below / 2 = node → winner below ≠ winner 1 := by
      rintro below belowPositive inTree place won
      have onPath :=
        recorded.onPath_of_winner entered belowPositive inTree won
      rcases place with rfl | rfl
      · exact offLeafPath onPath
      · exact offLeafPath onPath.parent
    obtain ⟨paired, inOrder⟩ := recorded node positive inner
    have loserOther : loser node ≠ winner 1 := by
      rcases paired with ⟨-, lost⟩ | ⟨-, lost⟩ <;> rw [lost]
      · exact notChampion _ (by omega) (by omega) (.inr (by omega))
      · exact notChampion _ (by omega) (by omega) (.inr (by omega))
    refine ⟨paired, ?_⟩
    rw [same _ (notChampion node positive (by omega) (.inl rfl)),
      same _ loserOther]
    exact inOrder
  · intro node positive inner _
    have unchanged :
        Function.update winner (size + winner 1) (winner 1) = winner := by
      rw [Function.update_eq_self_iff]
      exact (entered (winner 1) playing).symm
    rw [unchanged]
    exact (recorded node positive inner).1
  · intro node positive onPath
    have nodeLe := onPath.le
    exact recorded.champion_path entered positive (by omega)
      (OnPath.iff_eq_or_half.mpr (.inr onPath))

end Replaying

/--
What a replay from `child` does to the winners: only those above `child`
change, and a tie stays with the side the replay comes from.
-/
structure Replayed
    (key : Nat → Key)
    (before after : Nat → Nat)
    (child : Nat) : Prop where
  kept :
    ∀ node, ¬ OnPath (child / 2) node → after node = before node
  sticky :
    ∀ node, OnPath child node → 0 < node / 2 →
      after (node / 2) = after node ∨
        key (after (node / 2)) < key (after node)

namespace Replayed

variable
  {before after : Nat → Nat}
  {child : Nat}

/-- At the root nothing is left to replay. -/
theorem root
    (winner : Nat → Nat)
    (atRoot : child / 2 = 0) :
    Replayed key winner winner child where
  kept _ _ :=
    rfl
  sticky node onPath positive := by
    rcases OnPath.iff_eq_or_half.mp onPath with rfl | above
    · omega
    · have nodeLe := above.le
      omega

/-- A replay goes on from the parent with the winner of one game. -/
theorem cons
    {victor : Nat}
    (later :
      Replayed key (Function.update before (child / 2) victor) after
        (child / 2))
    (positive : 0 < child / 2)
    (sticky : victor = before child ∨ key victor < key (before child)) :
    Replayed key before after child := by
  have above :
      ∀ {node}, OnPath (child / 2 / 2) node → node < child / 2 := by
    intro node onPath
    have nodeLe := onPath.le
    omega
  have own : after (child / 2) = victor := by
    rw [later.kept _ fun onPath => Nat.lt_irrefl _ (above onPath),
      Function.update_self]
  have kept :
      ∀ node, ¬ OnPath (child / 2) node → after node = before node := by
    intro node offPath
    have notParent : node ≠ child / 2 := by
      rintro rfl
      exact offPath .refl
    rw [later.kept node fun onPath =>
      offPath (OnPath.iff_eq_or_half.mpr (.inr onPath)),
      Function.update_of_ne notParent]
  refine ⟨kept, fun node onPath parentPositive => ?_⟩
  rcases OnPath.iff_eq_or_half.mp onPath with rfl | higher
  · have childKept : after node = before node := by
      apply kept
      intro onOwnPath
      have nodeLe := onOwnPath.le
      omega
    rw [own, childKept]
    exact sticky
  · exact later.sticky node higher parentPositive

/-- A replay changes no leaf. -/
theorem leaf
    (replayed : Replayed key before after child)
    (size : Nat)
    (inTree : child < 2 * size)
    {node : Nat}
    (isLeaf : size ≤ node) :
    after node = before node := by
  apply replayed.kept
  intro onPath
  have nodeLe := onPath.le
  omega

end Replayed

/--
A tournament in which some players are seated at their leaves; the virtual
player `size`, whose key is below theirs, occupies the other leaves.
-/
structure Seated
    (key : Nat → Key)
    (loser winner : Nat → Nat)
    (size : Nat)
    (seated : Nat → Prop) : Prop where
  recorded :
    Recorded key loser winner size
  vacant :
    ∀ player, player < size → ¬ seated player →
      winner (size + player) = size
  entered :
    ∀ player, player < size → seated player →
      winner (size + player) = player
  least :
    ∀ player, player < size → seated player → key size < key player
  bounded :
    ∀ node, winner node ≤ size

namespace Seated

variable {seated : Nat → Prop}

/-- Before any player is seated, the virtual player wins everywhere. -/
theorem empty
    (onlyVirtual : ∀ node, 0 < node → node < size → loser node = size)
    (nobody : ∀ player, player < size → ¬ seated player) :
    Seated key loser (fun _ => size) size seated where
  recorded node positive inner := by
    have lost := onlyVirtual node positive inner
    exact ⟨.inl ⟨rfl, lost⟩, by rw [lost]⟩
  vacant _ _ _ :=
    rfl
  entered player playing isSeated :=
    absurd isSeated (nobody player playing)
  least player playing isSeated :=
    absurd isSeated (nobody player playing)
  bounded _ :=
    Nat.le_refl size

/-- The winner at a node is virtual or above the virtual player. -/
theorem winner_cases
    (tournament : Seated key loser winner size seated)
    {node : Nat}
    (positive : 0 < node)
    (inTree : node < 2 * size) :
    winner node = size ∨ key size < key (winner node) := by
  obtain ⟨player, playing, won⟩ :=
    tournament.recorded.exists_entrant positive inTree
  by_cases isSeated : seated player
  · rw [won, tournament.entered player playing isSeated]
    exact .inr (tournament.least player playing isSeated)
  · rw [won, tournament.vacant player playing isSeated]
    exact .inl rfl

/-- The virtual player wins on every path from a node where it wins. -/
theorem virtual_path
    (tournament : Seated key loser winner size seated)
    {lower upper : Nat}
    (onPath : OnPath lower upper)
    (inTree : lower < 2 * size)
    (positive : 0 < upper)
    (isVirtual : winner lower = size) :
    winner upper = size := by
  induction onPath with
  | refl =>
      exact isVirtual
  | @parent node below inductionHypothesis =>
      have nodeLe := below.le
      have nodeVirtual := inductionHypothesis (by omega)
      obtain ⟨paired, inOrder⟩ :=
        tournament.recorded (node / 2) positive (by omega)
      rcases paired.child with won | lost
      · rw [← won, nodeVirtual]
      · rw [← lost, nodeVirtual] at inOrder
        rcases tournament.winner_cases positive (by omega) with
          isVirtual | greater
        · exact isVirtual
        · exact absurd inOrder (not_le_of_gt greater)

/-- Where the virtual player wins, it does so from a vacant leaf. -/
theorem exists_vacant
    (tournament : Seated key loser winner size seated)
    {node : Nat}
    (positive : 0 < node)
    (inTree : node < 2 * size)
    (isVirtual : winner node = size) :
    ∃ player, player < size ∧ ¬ seated player ∧
      OnPath (size + player) node := by
  induction distance : 2 * size - node using Nat.strongRecOn
      generalizing node with
  | ind distance inductionHypothesis =>
      by_cases isLeaf : size ≤ node
      · obtain ⟨player, rfl⟩ := Nat.exists_eq_add_of_le isLeaf
        refine ⟨player, by omega, ?_, .refl⟩
        intro isSeated
        rw [tournament.entered player (by omega) isSeated] at isVirtual
        omega
      · have above :
            ∀ child, 0 < child → child < 2 * size → child / 2 = node →
              node < child → winner child = size →
              ∃ player, player < size ∧ ¬ seated player ∧
                OnPath (size + player) node := by
          rintro child childPositive childInTree rfl below childVirtual
          obtain ⟨player, playing, isVacant, onPath⟩ :=
            inductionHypothesis (2 * size - child) (by omega)
              childPositive childInTree childVirtual rfl
          exact ⟨player, playing, isVacant, onPath.parent⟩
        rcases (tournament.recorded node positive (by omega)).1 with
          ⟨fromChild, -⟩ | ⟨fromChild, -⟩
        · exact above (2 * node) (by omega) (by omega) (by omega)
            (by omega) (fromChild.symm.trans isVirtual)
        · exact above (2 * node + 1) (by omega) (by omega) (by omega)
            (by omega) (fromChild.symm.trans isVirtual)

/-- A player that takes a vacant leaf has to replay the path of that leaf. -/
theorem enter
    (tournament : Seated key loser winner size seated)
    {player : Nat}
    (playing : player < size)
    (isVacant : ¬ seated player) :
    Replaying key loser
      (Function.update winner (size + player) player)
      size (size + player) size := by
  have leafVirtual := tournament.vacant player playing isVacant
  constructor
  · intro node positive inner offPath
    have notParent : (size + player) / 2 ≠ node := by
      rintro rfl
      exact offPath .refl
    obtain ⟨paired, inOrder⟩ := tournament.recorded node positive inner
    rw [Function.update_of_ne (by omega : node ≠ size + player)]
    exact ⟨paired.congr rfl
      (Function.update_of_ne (by omega) ..)
      (Function.update_of_ne (by omega) ..)
      (Function.update_of_ne (by omega) ..), inOrder⟩
  · intro node positive inner _
    have restored :
        Function.update
            (Function.update winner (size + player) player)
            (size + player) size = winner := by
      rw [Function.update_idem, Function.update_eq_self_iff]
      exact leafVirtual.symm
    rw [restored]
    exact (tournament.recorded node positive inner).1
  · intro node positive onPath
    have nodeLe := onPath.le
    rw [Function.update_of_ne (by omega : node ≠ size + player)]
    exact tournament.virtual_path
      (OnPath.iff_eq_or_half.mpr (.inr onPath))
      (by omega) positive leafVirtual

end Seated

end Order

end CsPrimer.Library.Tournament
