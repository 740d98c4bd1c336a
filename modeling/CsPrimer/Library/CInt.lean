import Mathlib.Algebra.Group.Int.Defs
import Mathlib.Algebra.Group.Nat.Defs
import Mathlib.Data.List.Basic

namespace CsPrimer.Library

/-!
# Signed C integers

An `int` has 32 bits.  An arithmetic operation whose exact result does not fit
has no defined outcome, so checked operations are partial; a chain of them
succeeds exactly if all its partial results fit.  Conversions between signed
and unsigned 64-bit words keep the value modulo `2 ^ 64`.
-/

/-- The exact values an `int` can have. -/
def Fits (value : Int) : Prop :=
  -2 ^ 31 ≤ value ∧ value < 2 ^ 31
  deriving Decidable

/-- The `int` of an exact value, if there is one. -/
def int? (value : Int) : Option Int32 :=
  if Fits value then
    some (.ofInt value)
  else
    none

theorem fits_toInt (value : Int32) :
    Fits value.toInt :=
  ⟨value.le_toInt, value.toInt_lt⟩

theorem int?_eq_some_iff
    {value : Int}
    {result : Int32} :
    int? value = some result ↔ Fits value ∧ result.toInt = value := by
  unfold int?
  split
  case isTrue fits =>
    rw [Option.some.injEq]
    constructor
    · rintro rfl
      exact ⟨fits, Int32.toInt_ofInt_of_le fits.1 fits.2⟩
    · rintro ⟨-, rfl⟩
      exact Int32.ofInt_toInt result
  case isFalse overflows =>
    simp [overflows]

/-- A chain of checked steps succeeds exactly if all its partial results fit. -/
theorem foldlM_int?_eq_some_iff
    {α : Type}
    {step : Int → α → Int}
    {start result : Int32}
    {items : List α} :
    items.foldlM (fun result item => int? (step result.toInt item)) start =
        some result ↔
      (∀ value ∈ items.scanl step start.toInt, Fits value) ∧
        result.toInt = items.foldl step start.toInt := by
  induction items generalizing start with
  | nil =>
      simp [fits_toInt, ← Int32.toInt_inj, eq_comm]
  | cons item rest inductionHypothesis =>
      rw [List.foldlM_cons, Option.bind_eq_bind, Option.bind_eq_some_iff]
      simp only [int?_eq_some_iff, inductionHypothesis,
        List.scanl_cons, List.foldl_cons, List.mem_cons,
        forall_eq_or_imp]
      constructor
      · rintro ⟨next, ⟨-, isNext⟩, partials, isResult⟩
        rw [isNext] at partials isResult
        exact ⟨⟨fits_toInt start, partials⟩, isResult⟩
      · rintro ⟨⟨-, partials⟩, isResult⟩
        have fits : Fits (step start.toInt item) :=
          partials _ (by cases rest <;> simp)
        have isNext := Int32.toInt_ofInt_of_le fits.1 fits.2
        refine ⟨_, ⟨fits, isNext⟩, ?_⟩
        rw [isNext]
        exact ⟨partials, isResult⟩

/-- A chain whose partial results fit has a result. -/
theorem exists_foldlM_int?
    {α : Type}
    {step : Int → α → Int}
    {start : Int32}
    {items : List α}
    (partials : ∀ value ∈ items.scanl step start.toInt, Fits value) :
    ∃ result,
      items.foldlM (fun result item => int? (step result.toInt item)) start =
          some result ∧
        result.toInt = items.foldl step start.toInt := by
  have fits := partials _ (List.mem_of_getLast? List.getLast?_scanl)
  have isResult := Int32.toInt_ofInt_of_le fits.1 fits.2
  exact ⟨_, foldlM_int?_eq_some_iff.mpr ⟨partials, isResult⟩, isResult⟩

/-- Combine an `int` with each of a list of operands, from left to right. -/
def foldInt?
    (operation : Int → Int → Int)
    (result : Int32)
    (operands : List Int32) :
    Option Int32 :=
  operands.foldlM
    (fun result operand => int? (operation result.toInt operand.toInt))
    result

/-- A fold whose partial results fit has a result. -/
theorem exists_foldInt?
    {operation : Int → Int → Int}
    {start : Int32}
    {operands : List Int32}
    (partials :
      ∀ value ∈ (operands.map Int32.toInt).scanl operation start.toInt,
        Fits value) :
    ∃ result,
      foldInt? operation start operands = some result ∧
        result.toInt =
          (operands.map Int32.toInt).foldl operation start.toInt := by
  rw [List.scanl_map] at partials
  rw [List.foldl_map]
  exact exists_foldlM_int? partials

section Word64

/-- A signed word as an unsigned one. -/
theorem toNat_toUInt64 (value : Int64) :
    (value.toUInt64.toNat : Int) =
      if 0 ≤ value.toInt then value.toInt else value.toInt + 2 ^ 64 := by
  have signed := BitVec.toInt_eq_toNat_cond value.toBitVec
  have bound := value.toBitVec.isLt
  change value.toInt = _ at signed
  change (value.toBitVec.toNat : Int) = _
  rw [signed]
  split <;> split <;> omega

/-- An unsigned word as a signed one. -/
theorem toInt_toInt64 (word : UInt64) :
    word.toInt64.toInt =
      if word.toNat < 2 ^ 63 then (word.toNat : Int)
      else word.toNat - 2 ^ 64 := by
  have signed := BitVec.toInt_eq_toNat_cond word.toBitVec
  have bound := word.toNat_lt
  change word.toInt64.toInt =
    if 2 * word.toNat < 2 ^ 64 then (word.toNat : Int)
    else word.toNat - (2 ^ 64 : Nat) at signed
  rw [signed]
  split <;> split <;> omega

/-- Adding a signed word to an unsigned one wraps. -/
theorem toNat_add_toUInt64 (word : UInt64) (value : Int64) :
    ((word + value.toUInt64).toNat : Int) =
      (word.toNat + value.toInt) % 2 ^ 64 := by
  have converted := toNat_toUInt64 value
  rw [UInt64.toNat_add]
  split at converted <;> omega

/-- The difference of two unsigned words, read as a signed one, wraps. -/
theorem toInt_toInt64_sub (left right : UInt64) :
    (left - right).toInt64.toInt =
      ((left.toNat : Int) - right.toNat + 2 ^ 63) % 2 ^ 64 - 2 ^ 63 := by
  have leftBound := left.toNat_lt
  have rightBound := right.toNat_lt
  rw [toInt_toInt64, UInt64.toNat_sub]
  split <;> omega

end Word64

end CsPrimer.Library
