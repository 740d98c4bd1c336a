import Mathlib.Data.List.Basic
import Mathlib.Data.List.Perm.Basic
import Mathlib.Order.Lattice

namespace CsPrimer.Library

/-!
# Merging several lists

A merge moves, one at a time, the first item of one of the remaining lists
behind the items it has put out.  Whatever lists it chooses from, no item is
lost or duplicated and every input list keeps its order; if it always chooses
an item with a least key among the first ones, sorted inputs give a sorted
output.
-/

section Flatten

variable
  {Item : Type}
  {rest : List (List Item)}
  {way : Nat}
  {item : Item}
  {left : List Item}

/-- Removing the first item of one list removes it from all the items. -/
theorem flatten_set_perm
    (first : rest[way]? = some (item :: left)) :
    rest.flatten.Perm (item :: (rest.set way left).flatten) := by
  induction rest generalizing way with
  | nil =>
      simp at first
  | cons head tail inductionHypothesis =>
      cases way with
      | zero =>
          obtain rfl : head = item :: left := by simpa using first
          simp
      | succ way =>
          have tailPerm :
              tail.flatten.Perm (item :: (tail.set way left).flatten) :=
            inductionHypothesis (by simpa using first)
          have moved :
              (head ++ tail.flatten).Perm
                (head ++ item :: (tail.set way left).flatten) :=
            tailPerm.append_left head
          simpa using moved.trans List.perm_middle

end Flatten

section Merge

variable {Item Key : Type} [LinearOrder Key]

/-- Items follow one another in the order of their keys. -/
def SortedBy (key : Item → Key) (items : List Item) : Prop :=
  items.Pairwise fun earlier later => key earlier ≤ key later

/-- What a merge of `chains` has put out, and what remains of each of them. -/
structure Merging
    (key : Item → Key)
    (chains : List (List Item))
    (done : List Item)
    (rest : List (List Item)) : Prop where
  complete :
    (done ++ rest.flatten).Perm chains.flatten
  ordered :
    ∀ (way : Nat) (chain : List Item), chains[way]? = some chain →
      ∃ taken left : List Item,
        rest[way]? = some left ∧
          chain = taken ++ left ∧
          taken.Sublist done
  sorted :
    (∀ chain ∈ chains, SortedBy key chain) →
      SortedBy key done ∧
        ∀ left ∈ rest, SortedBy key left ∧
          ∀ earlier ∈ done, ∀ later ∈ left, key earlier ≤ key later

namespace Merging

variable
  {key : Item → Key}
  {chains rest : List (List Item)}
  {done left : List Item}
  {item : Item}
  {way : Nat}

/-- A merge begins with nothing put out. -/
theorem start :
    Merging key chains [] chains where
  complete := by
    simp
  ordered way chain present :=
    ⟨[], chain, present, rfl, List.Sublist.refl []⟩
  sorted inputsSorted :=
    ⟨List.Pairwise.nil, fun left member =>
      ⟨inputsSorted left member, by simp⟩⟩

/-- Every remaining item is at least the least first item. -/
theorem least_le
    (restSorted : ∀ left ∈ rest, SortedBy key left)
    (least :
      ∀ other ∈ rest, ∀ candidate, other.head? = some candidate →
        key item ≤ key candidate)
    {other : List Item}
    (remaining : other ∈ rest)
    {later : Item}
    (member : later ∈ other) :
    key item ≤ key later := by
  cases other with
  | nil =>
      simp at member
  | cons candidate behind =>
      have first := least _ remaining candidate rfl
      rcases List.mem_cons.mp member with rfl | isBehind
      · exact first
      · have inOrder := restSorted _ remaining
        exact le_trans first
          ((List.pairwise_cons.mp inOrder).1 later isBehind)

/-- Putting out a least first item continues the merge. -/
theorem advance
    (merging : Merging key chains done rest)
    (first : rest[way]? = some (item :: left))
    (least :
      ∀ other ∈ rest, ∀ candidate, other.head? = some candidate →
        key item ≤ key candidate) :
    Merging key chains (done ++ [item]) (rest.set way left) := by
  have inBounds : way < rest.length :=
    (List.getElem?_eq_some_iff.mp first).1
  have chosen : item :: left ∈ rest := List.mem_of_getElem? first
  constructor
  · have moved :
        (done ++ rest.flatten).Perm
          (done ++ item :: (rest.set way left).flatten) :=
      (flatten_set_perm first).append_left done
    have complete := moved.symm.trans merging.complete
    simpa using complete
  · intro other chain present
    obtain ⟨taken, remaining, stored, split, inOrder⟩ :=
      merging.ordered other chain present
    by_cases isChosen : other = way
    · subst isChosen
      obtain rfl : item :: left = remaining :=
        Option.some.inj (first.symm.trans stored)
      exact ⟨taken ++ [item], left, by simp [inBounds],
        by simpa using split, inOrder.append (List.Sublist.refl [item])⟩
    · exact ⟨taken, remaining,
        by simpa [Ne.symm isChosen] using stored, split,
        inOrder.trans (List.sublist_append_left done [item])⟩
  · intro inputsSorted
    obtain ⟨doneSorted, restSorted⟩ := merging.sorted inputsSorted
    have itemLe :
        ∀ other ∈ rest, ∀ later ∈ other, key item ≤ key later :=
      fun other remaining later member =>
        least_le (fun left member => (restSorted left member).1)
          least remaining member
    have kept :
        ∀ other ∈ rest.set way left, SortedBy key other ∧
          (∀ earlier ∈ done, ∀ later ∈ other, key earlier ≤ key later) ∧
          ∀ later ∈ other, key item ≤ key later := by
      intro other member
      rcases List.mem_or_eq_of_mem_set member with remaining | rfl
      · exact ⟨(restSorted other remaining).1,
          (restSorted other remaining).2, itemLe other remaining⟩
      · obtain ⟨chosenSorted, afterDone⟩ := restSorted _ chosen
        exact ⟨(List.pairwise_cons.mp chosenSorted).2,
          fun earlier before later after =>
            afterDone earlier before later
              (List.mem_cons_of_mem item after),
          (List.pairwise_cons.mp chosenSorted).1⟩
    refine ⟨?_, fun other member => ⟨(kept other member).1, ?_⟩⟩
    · refine List.pairwise_append.mpr
        ⟨doneSorted, List.pairwise_singleton .., ?_⟩
      intro earlier before later isItem
      obtain rfl := List.mem_singleton.mp isItem
      exact (restSorted _ chosen).2 earlier before later
        (List.mem_cons_self ..)
    · intro earlier before later after
      rcases List.mem_append.mp before with isDone | isItem
      · exact (kept other member).2.1 earlier isDone later after
      · obtain rfl := List.mem_singleton.mp isItem
        exact (kept other member).2.2 later after

/-- A merge with nothing remaining has put out every item of every list. -/
theorem finish
    (merging : Merging key chains done rest)
    (exhausted : ∀ left ∈ rest, left = []) :
    done.Perm chains.flatten ∧
      (∀ chain ∈ chains, chain.Sublist done) ∧
      ((∀ chain ∈ chains, SortedBy key chain) → SortedBy key done) := by
  have nothingLeft : rest.flatten = [] :=
    List.flatten_eq_nil_iff.mpr exhausted
  refine ⟨?_, ?_, fun inputsSorted => (merging.sorted inputsSorted).1⟩
  · simpa [nothingLeft] using merging.complete
  · intro chain member
    obtain ⟨way, present⟩ := List.mem_iff_getElem?.mp member
    obtain ⟨taken, left, stored, split, inOrder⟩ :=
      merging.ordered way chain present
    have empty : left = [] := exhausted left (List.mem_of_getElem? stored)
    rw [split, empty, List.append_nil]
    exact inOrder

end Merging

end Merge

end CsPrimer.Library
