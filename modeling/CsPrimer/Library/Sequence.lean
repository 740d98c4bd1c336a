import Mathlib.Data.List.Basic

namespace CsPrimer.Library

/-!
# Sequences with iterators

An iterator is the position it stands at; `end()` is the position behind the
last element, at which nothing can be erased.
-/

variable
  {Element : Type}
  {sequence : List Element}
  {position : Nat}

/-- `erase(position)`, undefined at `end()`. -/
def erase?
    (sequence : List Element)
    (position : Nat) : Option (List Element) :=
  if position < sequence.length then
    some (sequence.eraseIdx position)
  else
    none

theorem erase?_end : erase? sequence sequence.length = none :=
  if_neg (Nat.lt_irrefl _)

variable
  [BEq Element]
  [LawfulBEq Element]
  {element : Element}

/-- To erase at the first occurrence is to delete it. -/
theorem erase?_idxOf (present : element ∈ sequence) :
    erase? sequence (sequence.idxOf element) =
      some (sequence.erase element) := by
  rw [erase?, if_pos (List.idxOf_lt_length_of_mem present),
    ← List.erase_eq_eraseIdx_of_idxOf rfl]

/-- An element that is absent is searched for up to `end()`. -/
theorem erase?_idxOf_of_notMem (absent : element ∉ sequence) :
    erase? sequence (sequence.idxOf element) = none := by
  rw [List.idxOf_eq_length absent, erase?_end]

end CsPrimer.Library
