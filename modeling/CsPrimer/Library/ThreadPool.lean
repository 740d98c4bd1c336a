import Mathlib.Algebra.BigOperators.Group.Finset.Basic
import Mathlib.Algebra.Order.BigOperators.Group.Finset
import Mathlib.Data.Fintype.Basic

namespace CsPrimer.Library

/-!
# Pools of threads and counting semaphores

A pool maps thread identifiers to local states.  Invariants of programs with
any number of threads are linear equations between shared counters and totals
of weights, where the weight of a thread depends on its local state only; a
step of one thread changes every total by what it changes in that thread.
-/

section Update

variable {Thread Local : Type} [DecidableEq Thread]

/-- What a step keeps for its thread it keeps for all threads. -/
theorem related_update
    {Value : Type}
    (relation : Local → Value → Prop)
    {pool : Thread → Local}
    {thread : Thread}
    {next : Local}
    (kept : ∀ value, relation (pool thread) value → relation next value)
    {other : Thread}
    {value : Value}
    (related : relation (pool other) value) :
    relation (Function.update pool thread next other) value := by
  by_cases same : other = thread
  · subst same
    simpa using kept value related
  · simpa [Function.update_of_ne same] using related

/-- What a step does not change for its thread it does not change at all. -/
theorem related_update_iff
    {Value : Type}
    (relation : Local → Value → Prop)
    {pool : Thread → Local}
    {thread : Thread}
    {next : Local}
    (same : ∀ value, relation next value ↔ relation (pool thread) value)
    (other : Thread)
    (value : Value) :
    relation (Function.update pool thread next other) value ↔
      relation (pool other) value := by
  by_cases isThread : other = thread
  · subst isThread
    simpa using same value
  · simp [Function.update_of_ne isThread]

end Update

section Total

variable {Thread Local : Type} [Fintype Thread]

/-- The sum of a weight over all threads. -/
def total (weight : Local → Nat) (pool : Thread → Local) : Nat :=
  ∑ thread, weight (pool thread)

/-- A thread weighs no more than the whole pool. -/
theorem weight_le_total
    (weight : Local → Nat)
    (pool : Thread → Local)
    (thread : Thread) :
    weight (pool thread) ≤ total weight pool :=
  Finset.single_le_sum_of_canonicallyOrdered
    (f := fun other => weight (pool other)) (Finset.mem_univ thread)

theorem total_eq_zero_iff
    {weight : Local → Nat}
    {pool : Thread → Local} :
    total weight pool = 0 ↔ ∀ thread, weight (pool thread) = 0 := by
  simp [total]

/-- A positive total has a thread that contributes to it. -/
theorem exists_of_total_pos
    {weight : Local → Nat}
    {pool : Thread → Local}
    (positive : 0 < total weight pool) :
    ∃ thread, 0 < weight (pool thread) := by
  by_contra none
  have allZero : ∀ thread, weight (pool thread) = 0 := by
    intro thread
    by_contra nonzero
    exact none ⟨thread, Nat.pos_of_ne_zero nonzero⟩
  exact Nat.ne_of_gt positive (total_eq_zero_iff.mpr allZero)

/-- Before any thread moves, totals of weightless threads vanish. -/
theorem total_const_zero
    {weight : Local → Nat}
    {start : Local}
    (weightless : weight start = 0) :
    total weight (fun _ : Thread => start) = 0 :=
  total_eq_zero_iff.mpr fun _ => weightless

variable [DecidableEq Thread]

/-- A step of one thread changes a total by what it changes in that thread. -/
theorem total_update
    (weight : Local → Nat)
    (pool : Thread → Local)
    (thread : Thread)
    (next : Local) :
    total weight (Function.update pool thread next) +
        weight (pool thread) =
      total weight pool + weight next := by
  have others :
      ∑ other ∈ Finset.univ.erase thread,
          weight (Function.update pool thread next other) =
        ∑ other ∈ Finset.univ.erase thread, weight (pool other) := by
    refine Finset.sum_congr rfl fun other member => ?_
    rw [Function.update_of_ne (Finset.ne_of_mem_erase member)]
  have before :=
    Finset.add_sum_erase Finset.univ
      (fun other => weight (pool other)) (Finset.mem_univ thread)
  have after :=
    Finset.add_sum_erase Finset.univ
      (fun other => weight (Function.update pool thread next other))
      (Finset.mem_univ thread)
  simp only [Function.update_self, others] at after
  unfold total
  omega

/-- Two threads together weigh no more than the pool. -/
theorem pair_le_total
    (weight : Local → Nat)
    (pool : Thread → Local)
    {first second : Thread}
    (different : first ≠ second) :
    weight (pool first) + weight (pool second) ≤ total weight pool := by
  have before :=
    Finset.add_sum_erase Finset.univ
      (fun other => weight (pool other)) (Finset.mem_univ first)
  have other : second ∈ Finset.univ.erase first :=
    Finset.mem_erase.mpr ⟨different.symm, Finset.mem_univ second⟩
  have bound :=
    Finset.single_le_sum_of_canonicallyOrdered other
      (f := fun other => weight (pool other))
  unfold total
  omega

/--
When at most one thread is inside an exclusive region and a weight is only
carried inside it, the thread inside carries the whole total.
-/
theorem total_eq_of_exclusive
    {inside weight : Local → Nat}
    {pool : Thread → Local}
    {thread : Thread}
    (exclusive : total inside pool ≤ 1)
    (isInside : 0 < inside (pool thread))
    (carried : ∀ state, inside state = 0 → weight state = 0) :
    total weight pool = weight (pool thread) := by
  have others :
      ∀ other, other ≠ thread → weight (pool other) = 0 := by
    intro other different
    have bound := pair_le_total inside pool different
    exact carried _ (by omega)
  exact Finset.sum_eq_single thread
    (fun other _ different => others other different)
    (fun absent => absurd (Finset.mem_univ thread) absent)

end Total

section Semaphore

/-- `sem_wait` takes a token, and blocks when there is none. -/
def semWait : Nat → Option Nat
  | 0 =>
      none
  | tokens + 1 =>
      some tokens

/-- `sem_post` adds a token. -/
def semPost (tokens : Nat) : Nat :=
  tokens + 1

theorem semWait_eq_some
    {before after : Nat} :
    semWait before = some after ↔ before = after + 1 := by
  cases before with
  | zero =>
      simp [semWait]
  | succ tokens =>
      simp [semWait]

theorem semWait_eq_none
    {tokens : Nat} :
    semWait tokens = none ↔ tokens = 0 := by
  cases tokens with
  | zero =>
      simp [semWait]
  | succ tokens =>
      simp [semWait]

end Semaphore

end CsPrimer.Library
