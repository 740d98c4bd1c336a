import CsPrimer.Library.CInt
import CsPrimer.Timers.Time

namespace CsPrimer.Timers

open Library

/-!
# Arithmetic of timestamps and timespans

Timestamps are compared as unsigned words and timespans as signed ones, and a
difference of two timestamps is narrowed in between.  The clock is an argument
of the functions that read it.
-/

namespace Timespan

/-- The exact number of microseconds. -/
def usec (timespan : Timespan) : Int :=
  timespan.span_usec_.toInt

instance : LT Timespan where
  lt lhs rhs :=
    lhs.span_usec_ < rhs.span_usec_

instance : DecidableLT Timespan :=
  fun lhs rhs =>
    inferInstanceAs (Decidable (lhs.span_usec_ < rhs.span_usec_))

/-- The overloaded comparison of two timespans compares the exact values. -/
theorem lt_iff_usec_lt
    {lhs rhs : Timespan} :
    lhs < rhs ↔ lhs.usec < rhs.usec :=
  Int64.lt_iff_toInt_lt

theorem eq_iff_usec_eq
    {lhs rhs : Timespan} :
    lhs = rhs ↔ lhs.usec = rhs.usec := by
  constructor
  · rintro rfl
    rfl
  · intro same
    cases lhs
    cases rhs
    exact congrArg _ (Int64.toInt_inj.mp same)

theorem usec_bounds (timespan : Timespan) :
    -2 ^ 63 ≤ timespan.usec ∧ timespan.usec < 2 ^ 63 :=
  ⟨timespan.span_usec_.le_toInt, timespan.span_usec_.toInt_lt⟩

end Timespan

namespace Timestamp

/-- `operator-`. -/
def sub (lhs rhs : Timestamp) : Timespan :=
  ⟨(lhs.epoch_usec_ - rhs.epoch_usec_).toInt64⟩

/-- `Elapsed`. -/
def elapsed (now timestamp : Timestamp) : Timespan :=
  now.sub timestamp

/-- `IsElapsed`; the overloaded `>=` is `!(diff < timespan)`. -/
def isElapsed (now timestamp : Timestamp) (timespan : Timespan) : Bool :=
  ¬ now.sub timestamp < timespan

theorem usec_lt (timestamp : Timestamp) : timestamp.usec < 2 ^ 64 :=
  timestamp.epoch_usec_.toNat_lt

theorem eq_iff_usec_eq
    {lhs rhs : Timestamp} :
    lhs = rhs ↔ lhs.usec = rhs.usec := by
  constructor
  · rintro rfl
    rfl
  · intro same
    cases lhs
    cases rhs
    exact congrArg _ (UInt64.toNat_inj.mp same)

/-- The difference of two timestamps wraps. -/
theorem usec_sub (lhs rhs : Timestamp) :
    (lhs.sub rhs).usec =
      ((lhs.usec : Int) - rhs.usec + 2 ^ 63) % 2 ^ 64 - 2 ^ 63 :=
  toInt_toInt64_sub lhs.epoch_usec_ rhs.epoch_usec_

/--
`AddTimespan` resets the timestamp exactly if the wrapped sum moved against the
sign of the span.
-/
theorem addTimespan_eq
    {timestamp sum : Timestamp}
    {timespan : Timespan}
    (isSum :
      timestamp.epoch_usec_ + timespan.span_usec_.toUInt64 =
        sum.epoch_usec_) :
    timestamp.addTimespan timespan =
      if 0 < timespan.usec ∧ sum.usec < timestamp.usec ∨
          timespan.usec ≤ 0 ∧ timestamp.usec < sum.usec then
        ⟨0⟩
      else
        sum := by
  have sign : timespan.span_usec_ ≤ 0 ↔ timespan.usec ≤ 0 :=
    Int64.le_iff_toInt_le
  simp [addTimespan, isSum, sign, UInt64.lt_iff_toNat_lt, usec]
  rfl

/--
`AddTimespan` is exact or resets: the stored value is the sum of the timestamp
and the span if that is the value of some timestamp, and 0 otherwise.
-/
theorem addTimespan_exact
    (timestamp : Timestamp)
    (timespan : Timespan) :
    ((timestamp.addTimespan timespan).usec : Int) =
      if 0 ≤ (timestamp.usec : Int) + timespan.usec ∧
          (timestamp.usec : Int) + timespan.usec < 2 ^ 64 then
        timestamp.usec + timespan.usec
      else
        0 := by
  have bound := timestamp.usec_lt
  have bounds := timespan.usec_bounds
  have wrapped :=
    toNat_add_toUInt64 timestamp.epoch_usec_ timespan.span_usec_
  generalize isSum :
    timestamp.epoch_usec_ + timespan.span_usec_.toUInt64 = sum at wrapped
  change ((Timestamp.mk sum).usec : Int) =
    (timestamp.usec + timespan.usec) % 2 ^ 64 at wrapped
  have reset : (Timestamp.mk 0).usec = 0 := rfl
  rw [addTimespan_eq isSum]
  split <;> split <;> omega

/-- Adding back the difference of two timestamps. -/
theorem addTimespan_sub
    (lhs rhs : Timestamp) :
    rhs.addTimespan (lhs.sub rhs) = lhs ↔
      (-2 ^ 63 ≤ (lhs.usec : Int) - rhs.usec ∧
        (lhs.usec : Int) - rhs.usec < 2 ^ 63) ∨
        lhs = ⟨0⟩ := by
  have exact := rhs.addTimespan_exact (lhs.sub rhs)
  have difference := usec_sub lhs rhs
  have lhsBound := lhs.usec_lt
  have rhsBound := rhs.usec_lt
  have reset : (Timestamp.mk 0).usec = 0 := rfl
  rw [eq_iff_usec_eq, eq_iff_usec_eq]
  split at exact <;> omega

/-- A representable advance is what the timestamps differ by. -/
theorem sub_addTimespan
    {timestamp : Timestamp}
    {timespan : Timespan}
    (nonneg : 0 ≤ (timestamp.usec : Int) + timespan.usec)
    (fits : (timestamp.usec : Int) + timespan.usec < 2 ^ 64) :
    (timestamp.addTimespan timespan).sub timestamp = timespan := by
  have exact := timestamp.addTimespan_exact timespan
  rw [if_pos ⟨nonneg, fits⟩] at exact
  have difference := usec_sub (timestamp.addTimespan timespan) timestamp
  have bounds := timespan.usec_bounds
  rw [Timespan.eq_iff_usec_eq]
  omega

/--
Subtracting and adding back cancel exactly if the difference is the value of
some timespan, or the sum is reset to what it should be.
-/
theorem sub_addTimespan_cancel :
    (∀ lhs rhs : Timestamp,
      rhs.addTimespan (lhs.sub rhs) = lhs ↔
        (-2 ^ 63 ≤ (lhs.usec : Int) - rhs.usec ∧
          (lhs.usec : Int) - rhs.usec < 2 ^ 63) ∨
          lhs = ⟨0⟩) ∧
      ∀ (timestamp : Timestamp) (timespan : Timespan),
        0 ≤ (timestamp.usec : Int) + timespan.usec →
          (timestamp.usec : Int) + timespan.usec < 2 ^ 64 →
            (timestamp.addTimespan timespan).sub timestamp = timespan :=
  ⟨addTimespan_sub, fun _ _ nonneg fits => sub_addTimespan nonneg fits⟩

/-- A span of -5 takes the timestamp 7 to 2 and is found again. -/
theorem sub_addTimespan_cancel_backwards :
    (Timestamp.addTimespan ⟨7⟩ ⟨-5⟩).sub ⟨7⟩ = ⟨-5⟩ :=
  sub_addTimespan_cancel.2 ⟨7⟩ ⟨-5⟩ (by decide) (by decide)

/-- A negative difference, as a timespan. -/
theorem sub_neg_iff
    (lhs rhs : Timestamp) :
    lhs.sub rhs < ⟨0⟩ ↔
      ((lhs.usec : Int) - rhs.usec + 2 ^ 63) % 2 ^ 64 < 2 ^ 63 := by
  have difference := usec_sub lhs rhs
  have zero : (Timespan.mk 0).usec = 0 := rfl
  rw [Timespan.lt_iff_usec_lt]
  omega

/-- `IsElapsed` compares the wrapped difference with the span. -/
theorem isElapsed_iff
    (now timestamp : Timestamp)
    (timespan : Timespan) :
    isElapsed now timestamp timespan = true ↔
      timespan.usec ≤
        ((now.usec : Int) - timestamp.usec + 2 ^ 63) % 2 ^ 64 - 2 ^ 63 := by
  unfold isElapsed
  rw [decide_eq_true_iff, Timespan.lt_iff_usec_lt, usec_sub, Int.not_lt]

/--
The sign of `Elapsed` agrees with the order of the timestamps exactly if their
difference is the value of some timespan.  For a span that is not negative,
`IsElapsed` agrees with it there as well, and otherwise only if the difference
is too small and the span is larger than what it wraps to.
-/
theorem isElapsed_agrees
    (timestamp now : Timestamp) :
    let difference := (now.usec : Int) - timestamp.usec
    (∀ timespan : Timespan,
      0 ≤ timespan.usec →
        ((isElapsed now timestamp timespan = true ↔
            (timestamp.usec : Int) + timespan.usec ≤ now.usec) ↔
          (-2 ^ 63 ≤ difference ∧ difference < 2 ^ 63) ∨
            (difference < -2 ^ 63 ∧
              difference + 2 ^ 64 < timespan.usec))) ∧
      ((elapsed now timestamp < ⟨0⟩ ↔ now < timestamp) ↔
        -2 ^ 63 ≤ difference ∧ difference < 2 ^ 63) := by
  intro difference
  have nowBound := now.usec_lt
  have timestampBound := timestamp.usec_lt
  constructor
  · intro timespan nonneg
    have spanBound := timespan.usec_bounds.2
    rw [isElapsed_iff]
    omega
  · rw [elapsed, sub_neg_iff, lt_iff_usec_lt]
    omega

/-- The largest timestamp has already elapsed at the epoch. -/
theorem not_isElapsed_agrees :
    ¬ ∀ timestamp now : Timestamp,
      (∀ timespan : Timespan,
        0 ≤ timespan.usec →
          (isElapsed now timestamp timespan = true ↔
            (timestamp.usec : Int) + timespan.usec ≤ now.usec)) ∧
        (elapsed now timestamp < ⟨0⟩ ↔ now < timestamp) := by
  intro agrees
  have wrong := (agrees ⟨18446744073709551615⟩ ⟨0⟩).1 ⟨1⟩ (by decide)
  exact absurd (wrong.mp (by decide)) (by decide)

end Timestamp

end CsPrimer.Timers
