import Mathlib.Data.List.Basic

namespace CsPrimer.Library

/-!
# Byte streams

A channel that keeps no message boundaries hands its bytes to a reader in
pieces: each call of `read` returns at least one byte and at most as many as
were requested.  A writer may offer its bytes in pieces of which only a first
part is taken.
-/

/-- What a call of `read` returns. -/
inductive ReadResult where
  | data (bytes : List UInt8)
  | endOfFile
  | error
  deriving Repr, DecidableEq

/-- The number a call of `read` returns. -/
def ReadResult.count : ReadResult → Int
  | data bytes => bytes.length
  | endOfFile => 0
  | error => -1

section Reads

/-!
The calls of `read` on a channel may go on for ever, and one that has no result
never returns; the calls behind it are never made.
-/

variable {reads : Nat → Option ReadResult} {n : Nat}

/-- The first calls all return. -/
def Returned
    (reads : Nat → Option ReadResult)
    (n : Nat) : Prop :=
  ∀ i < n, (reads i).isSome

/-- The results of the first calls. -/
def firstReads
    (reads : Nat → Option ReadResult)
    (n : Nat) : List ReadResult :=
  (List.range n).filterMap reads

/-- The sum of the numbers the first calls return. -/
def totalRead (reads : Nat → Option ReadResult) : Nat → Int
  | 0 => 0
  | n + 1 => totalRead reads n + (reads n).elim 0 ReadResult.count

theorem Returned.of_le
    {m : Nat}
    (returned : Returned reads n)
    (earlier : m ≤ n) :
    Returned reads m :=
  fun i before => returned i (Nat.lt_of_lt_of_le before earlier)

/-- If one more call has returned, it has a result. -/
theorem Returned.exists_last
    (returned : Returned reads (n + 1)) :
    ∃ result, reads n = some result :=
  Option.isSome_iff_exists.mp (returned n n.lt_succ_self)

theorem firstReads_succ
    {result : ReadResult}
    (last : reads n = some result) :
    firstReads reads (n + 1) = firstReads reads n ++ [result] := by
  rw [firstReads, List.range_succ, List.filterMap_append]
  simp [firstReads, last]

theorem totalRead_succ
    {result : ReadResult}
    (last : reads n = some result) :
    totalRead reads (n + 1) = totalRead reads n + result.count := by
  rw [totalRead, last]
  rfl

/-- Only a failed call makes the sum negative. -/
theorem exists_error_of_totalRead_neg
    (returned : Returned reads n)
    (negative : totalRead reads n < 0) :
    ∃ i < n, reads i = some .error := by
  induction n with
  | zero =>
      exact absurd negative (Int.lt_irrefl 0)
  | succ n inductionHypothesis =>
      obtain ⟨result, last⟩ := returned.exists_last
      rw [totalRead_succ last] at negative
      cases result with
      | error =>
          exact ⟨n, n.lt_succ_self, last⟩
      | data bytes =>
          obtain ⟨i, before, isError⟩ :=
            inductionHypothesis (returned.of_le n.le_succ)
              (by simp only [ReadResult.count] at negative; omega)
          exact ⟨i, Nat.lt_succ_of_lt before, isError⟩
      | endOfFile =>
          obtain ⟨i, before, isError⟩ :=
            inductionHypothesis (returned.of_le n.le_succ)
              (by simpa [ReadResult.count] using negative)
          exact ⟨i, Nat.lt_succ_of_lt before, isError⟩

end Reads

/-- A way to deliver a stream to reads of at most `limit` bytes. -/
structure Cut
    (limit : Nat)
    (stream : List UInt8)
    (pieces : List (List UInt8)) : Prop where
  whole :
    pieces.flatten = stream
  sizes :
    ∀ piece ∈ pieces, piece ≠ [] ∧ piece.length ≤ limit

/-- The first piece is the start of the stream. -/
theorem Cut.cons_iff
    {limit : Nat}
    {stream piece : List UInt8}
    {pieces : List (List UInt8)} :
    Cut limit stream (piece :: pieces) ↔
      piece ≠ [] ∧ piece.length ≤ limit ∧
        ∃ later, stream = piece ++ later ∧ Cut limit later pieces := by
  constructor
  · rintro ⟨whole, sizes⟩
    obtain ⟨nonempty, bounded⟩ := sizes piece List.mem_cons_self
    refine ⟨nonempty, bounded, pieces.flatten, whole.symm, rfl, ?_⟩
    intro other member
    exact sizes other (List.mem_cons_of_mem piece member)
  · rintro ⟨nonempty, bounded, later, rfl, whole, sizes⟩
    refine ⟨by rw [List.flatten_cons, whole], ?_⟩
    intro other member
    rcases List.mem_cons.mp member with rfl | member
    · exact ⟨nonempty, bounded⟩
    · exact sizes other member

theorem Cut.nil_iff
    {limit : Nat}
    {stream : List UInt8} :
    Cut limit stream [] ↔ stream = [] := by
  constructor
  · rintro ⟨whole, -⟩
    exact whole.symm
  · rintro rfl
    exact ⟨rfl, by simp⟩

section Parts

variable
  {Item : Type}
  {taken offered : Item → List UInt8}

theorem length_flatMap_le_of_prefix
    (parts : ∀ item, taken item <+: offered item)
    (items : List Item) :
    (items.flatMap taken).length ≤ (items.flatMap offered).length := by
  induction items with
  | nil =>
      exact Nat.le_refl 0
  | cons item rest inductionHypothesis =>
      rw [List.flatMap_cons, List.flatMap_cons, List.length_append,
        List.length_append]
      exact Nat.add_le_add (parts item).length_le inductionHypothesis

/-- Of all pieces everything has been taken exactly if it has of each one. -/
theorem flatMap_eq_iff_of_prefix
    (parts : ∀ item, taken item <+: offered item)
    {items : List Item} :
    items.flatMap taken = items.flatMap offered ↔
      ∀ item ∈ items, taken item = offered item := by
  induction items with
  | nil =>
      simp
  | cons item rest inductionHypothesis =>
      rw [List.flatMap_cons, List.flatMap_cons, List.forall_mem_cons,
        ← inductionHypothesis]
      constructor
      · intro all
        have firstLength := (parts item).length_le
        have restLength := length_flatMap_le_of_prefix parts rest
        have lengths := congrArg List.length all
        rw [List.length_append, List.length_append] at lengths
        exact List.append_inj all (by omega)
      · rintro ⟨isFirst, isRest⟩
        rw [isFirst, isRest]

end Parts

end CsPrimer.Library
