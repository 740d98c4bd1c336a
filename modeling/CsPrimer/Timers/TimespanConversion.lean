import CsPrimer.Timers.TimeArithmetic

namespace CsPrimer.Timers

/-!
# Conversions of timespans

`ToTimespec` and `ToTimeval` split a timespan into seconds and a remainder.
Their local variables have no initial value, so what they hold at the start is
an argument here, and a function that ends without a return statement returns
nothing.
-/

/-- `struct timespec`. -/
structure Timespec where
  tv_sec : Int64
  tv_nsec : Int64
  deriving Repr, DecidableEq

/-- `struct timeval`. -/
structure Timeval where
  tv_sec : Int64
  tv_usec : Int64
  deriving Repr, DecidableEq

/-- The seconds and nanoseconds are those of a number of microseconds. -/
def Timespec.Represents
    (ts : Timespec)
    (usec : Int) : Prop :=
  ts.tv_sec.toInt * 10 ^ 9 + ts.tv_nsec.toInt = usec * 1000 ∧
    0 ≤ ts.tv_nsec.toInt ∧
    ts.tv_nsec.toInt < 10 ^ 9
  deriving Decidable

/-- The seconds and microseconds are those of a number of microseconds. -/
def Timeval.Represents
    (tv : Timeval)
    (usec : Int) : Prop :=
  tv.tv_sec.toInt * 10 ^ 6 + tv.tv_usec.toInt = usec ∧
    0 ≤ tv.tv_usec.toInt ∧
    tv.tv_usec.toInt < 10 ^ 6
  deriving Decidable

/-- The local variable of a conversion at its end, and what it returned. -/
structure Conversion (α : Type) where
  filled : α
  returned : Option α
  deriving Repr, DecidableEq

namespace Timespan

/-- `kSeconds`. -/
abbrev kSeconds : Int64 := 1000 * 1000

/-- `ToSeconds`. -/
def toSeconds (timespan : Timespan) : Int64 :=
  timespan.span_usec_ / kSeconds

/-- `ToTimespec`. -/
def toTimespec
    (timespan : Timespan)
    (ts : Timespec) : Conversion Timespec :=
  let ts := { ts with tv_sec := timespan.toSeconds }
  let ts := { ts with tv_sec := timespan.span_usec_ % kSeconds * 1000 }
  { filled := ts
    returned := some ts }

/-- `ToTimeval`, which has no return statement. -/
def toTimeval
    (timespan : Timespan)
    (tv : Timeval) : Conversion Timeval :=
  let tv := { tv with tv_sec := timespan.toSeconds }
  let tv := { tv with tv_usec := timespan.span_usec_ % kSeconds }
  { filled := tv
    returned := none }

/-- `ToTimespec` yields the seconds and nanoseconds of the timespan. -/
def ToTimespecExact
    (timespan : Timespan)
    (ts : Timespec) : Prop :=
  ∃ result ∈ (timespan.toTimespec ts).returned,
    result.Represents timespan.usec

/-- `ToTimeval` yields the seconds and microseconds of the timespan. -/
def ToTimevalExact
    (timespan : Timespan)
    (tv : Timeval) : Prop :=
  ∃ result ∈ (timespan.toTimeval tv).returned,
    result.Represents timespan.usec

theorem toInt_toSeconds (timespan : Timespan) :
    timespan.toSeconds.toInt = timespan.usec.tdiv (10 ^ 6) := by
  unfold toSeconds
  rw [Int64.toInt_div_of_ne_right _ _ (by decide)]
  rfl

theorem toInt_remainder (timespan : Timespan) :
    (timespan.span_usec_ % kSeconds).toInt =
      timespan.usec.tmod (10 ^ 6) :=
  Int64.toInt_mod ..

/-- The truncated remainder lies on either side of zero. -/
theorem remainder_bounds (timespan : Timespan) :
    -10 ^ 6 < timespan.usec.tmod (10 ^ 6) ∧
      timespan.usec.tmod (10 ^ 6) < 10 ^ 6 :=
  ⟨Int.lt_tmod_of_pos _ (by decide), Int.tmod_lt_of_pos _ (by decide)⟩

/-- The remainder is small enough to be multiplied. -/
theorem toInt_remainder_mul (timespan : Timespan) :
    (timespan.span_usec_ % kSeconds * 1000).toInt =
      timespan.usec.tmod (10 ^ 6) * 1000 := by
  have bounds := timespan.remainder_bounds
  have factor : (1000 : Int64).toInt = 1000 := rfl
  rw [Int64.toInt_mul, toInt_remainder, factor]
  apply Int.bmod_eq_of_le <;> omega

/--
`ToTimespec` represents the span only if the value that was in `tv_nsec`
happens to make up for the remainder stored in place of the seconds.
-/
theorem toTimespec_represents_iff
    (timespan : Timespan)
    (ts : Timespec) :
    let missing :=
      timespan.usec - 10 ^ 9 * timespan.usec.tmod (10 ^ 6)
    timespan.ToTimespecExact ts ↔
      ts.tv_nsec.toInt = 1000 * missing ∧
        0 ≤ missing ∧ missing < 10 ^ 6 := by
  intro missing
  have seconds := timespan.toInt_remainder_mul
  simp only [ToTimespecExact, toTimespec, Option.mem_some_iff, exists_eq_left',
    Timespec.Represents, seconds]
  omega

/-- The truncated remainder is negative unless the span is exact. -/
theorem remainder_nonneg_iff (timespan : Timespan) :
    0 ≤ timespan.usec.tmod (10 ^ 6) ↔
      0 ≤ timespan.usec ∨ 10 ^ 6 ∣ timespan.usec := by
  have below := Int.emod_lt_of_pos timespan.usec (b := 10 ^ 6) (by decide)
  rw [Int.tmod_eq_emod]
  split
  case isTrue exact =>
    simp only [exact, iff_true]
    omega
  case isFalse inexact =>
    simp only [inexact, iff_false]
    omega

/--
The local variable of `ToTimeval` represents the span exactly if it is not
negative or a whole number of seconds.
-/
theorem toTimeval_filled_represents_iff
    (timespan : Timespan)
    (tv : Timeval) :
    (timespan.toTimeval tv).filled.Represents timespan.usec ↔
      0 ≤ timespan.usec ∨ 10 ^ 6 ∣ timespan.usec := by
  have split := Int.tdiv_mul_add_tmod timespan.usec (10 ^ 6)
  have bounds := timespan.remainder_bounds
  simp only [toTimeval, Timeval.Represents, toInt_toSeconds,
    toInt_remainder, ← remainder_nonneg_iff]
  omega

/--
No timespan is converted exactly by both functions, as `ToTimeval` returns
nothing.  What `ToTimespec` returns is right only by accident of what `tv_nsec`
held, and what `ToTimeval` computes is right unless the remainder is negative.
-/
theorem not_convertsExactly
    (timespan : Timespan)
    (ts : Timespec)
    (tv : Timeval) :
    let missing :=
      timespan.usec - 10 ^ 9 * timespan.usec.tmod (10 ^ 6)
    ¬ (timespan.ToTimespecExact ts ∧ timespan.ToTimevalExact tv) ∧
      (timespan.ToTimespecExact ts ↔
        ts.tv_nsec.toInt = 1000 * missing ∧
          0 ≤ missing ∧ missing < 10 ^ 6) ∧
      ((timespan.toTimeval tv).filled.Represents timespan.usec ↔
        0 ≤ timespan.usec ∨ 10 ^ 6 ∣ timespan.usec) := by
  intro missing
  refine ⟨?_, timespan.toTimespec_represents_iff ts,
    timespan.toTimeval_filled_represents_iff tv⟩
  rintro ⟨-, result, returned, -⟩
  cases returned

/-- One and a half seconds: `tv_sec` is set to 500 000 000. -/
theorem convertsExactly_false :
    ¬ ∀ timespan : Timespan,
      (∃ ts, timespan.ToTimespecExact ts) ∧
        ∃ tv, timespan.ToTimevalExact tv := by
  intro converts
  obtain ⟨⟨ts, represents⟩, -⟩ := converts ⟨1500000⟩
  have missing := (toTimespec_represents_iff ⟨1500000⟩ ts).mp represents
  exact absurd missing.2.1 (by decide)

end Timespan

end CsPrimer.Timers
