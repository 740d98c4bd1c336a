import Mathlib.Algebra.Group.Int.Defs
import Mathlib.Algebra.Group.Nat.Defs
import Mathlib.Order.Basic

namespace CsPrimer.Timers

/-!
# Timestamps and timespans

`Timestamp` counts microseconds since the epoch in an unsigned 64-bit word and
`Timespan` is a signed 64-bit difference.  Both wrap like the source's types.
-/

/-- A signed 64-bit number of microseconds. -/
structure Timespan where
  span_usec_ : Int64
  deriving Repr, DecidableEq

/-- Microseconds since the epoch, in an unsigned 64-bit word. -/
structure Timestamp where
  epoch_usec_ : UInt64
  deriving Repr, DecidableEq

namespace Timestamp

instance : LT Timestamp where
  lt lhs rhs :=
    lhs.epoch_usec_ < rhs.epoch_usec_

instance : DecidableLT Timestamp :=
  fun lhs rhs =>
    inferInstanceAs (Decidable (lhs.epoch_usec_ < rhs.epoch_usec_))

/-- The exact number of microseconds, free of any word size. -/
def usec (timestamp : Timestamp) : Nat :=
  timestamp.epoch_usec_.toNat

/-- The overloaded comparison of two timestamps compares the exact values. -/
theorem lt_iff_usec_lt
    {lhs rhs : Timestamp} :
    lhs < rhs ↔ lhs.usec < rhs.usec :=
  UInt64.lt_iff_toNat_lt

/--
What `AddTimespan` stores: the word sum, or zero when it moved against the sign
of the span.  The function ends without a return statement.
-/
def addTimespan
    (timestamp : Timestamp)
    (timespan : Timespan) : Timestamp :=
  let old_value := timestamp.epoch_usec_
  let epoch_usec_ := old_value + timespan.span_usec_.toUInt64
  let is_positive : Bool := ¬ timespan.span_usec_ ≤ 0
  if is_positive && decide (old_value > epoch_usec_) ||
      !is_positive && decide (old_value < epoch_usec_) then
    ⟨0⟩
  else
    ⟨epoch_usec_⟩

/--
What `AddTimespan` returns.  There is no return statement, so a call has no
defined behaviour beyond the store.
-/
def addTimespanReturned
    (_timestamp : Timestamp)
    (_timespan : Timespan) : Option Timestamp :=
  none

/--
`Timestamp::Swap`, which is declared but not defined: what it leaves in `*this`
and in `other`.
-/
abbrev Swap :=
  Timestamp → Timestamp → Timestamp × Timestamp

/-- `operator=`: a copy of the argument swaps with `*this`. -/
def assign
    (swap : Swap)
    (this timestamp : Timestamp) : Timestamp :=
  (swap timestamp this).2

/-- What `Timespan::Swap` does with its values. -/
def exchange : Swap :=
  fun this other => (other, this)

end Timestamp

end CsPrimer.Timers
