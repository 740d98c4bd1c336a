import CsPrimer.PxMutex.ProdCons3Invariant

namespace CsPrimer.PxMutex.ProdCons3

open Library

/-!
# Every run of `mutex_prodcons3.c` is orderly and can be completed
-/

variable
  {nitems : Int}
  {nthreads : Nat}
  {trace : List Event}
  {state : State nthreads}

/-- A producer that cannot step waits for a mutex, or has returned. -/
theorem producer_eq_none
    {shared : Shared}
    {thread : Producer}
    (small : nitems ≤ maxNItems)
    (ok : thread.Ok nitems shared)
    (blocked : producer nitems shared thread = none) :
    thread.pc = .returned ∨
      (thread.pc = .lockPut ∧ shared.putMutex = 0) ∨
      (thread.pc = .lockNready ∧ shared.nreadyMutex = 0) := by
  obtain ⟨pc, count⟩ := thread
  cases pc with
  | lockPut | lockNready =>
      simpa [producer, semWait_eq_none] using blocked
  | testNput =>
      by_cases stored : nitems ≤ shared.nput <;>
        simp [producer, stored] at blocked
  | testNready =>
      by_cases none : shared.nready = 0 <;>
        simp [producer, none] at blocked
  | store i value =>
      obtain ⟨less, rfl, rfl⟩ := ok
      have inBounds : shared.nput < maxNItems := by omega
      simp [producer, Shared.store, inBounds] at blocked
  | returned =>
      exact .inl rfl
  | _ =>
      simp [producer] at blocked

/-- A consumer that cannot step waits, sleeps, or has returned. -/
theorem consumer_eq_none
    {shared : Shared}
    {thread : Consumer}
    (small : nitems ≤ maxNItems)
    (ok : thread.Ok nitems shared)
    (blocked : consumer nitems shared thread = none) :
    thread.pc = .returned ∨
      (thread.pc = .lockNready ∧ shared.nreadyMutex = 0) ∨
      (thread.pc = .waiting ∧
        (shared.sleeping = true ∨ shared.nreadyMutex = 0)) := by
  obtain ⟨pc, i⟩ := thread
  cases pc with
  | testItems =>
      by_cases more : i < nitems <;>
        simp [consumer, more] at blocked
  | lockNready =>
      simpa [consumer, semWait_eq_none] using blocked
  | testNready =>
      by_cases none : shared.nready = 0 <;>
        simp [consumer, none] at blocked
  | waiting =>
      cases asleep : shared.sleeping <;>
        simp_all [consumer, semWait_eq_none]
  | compareBuf =>
      have less : (i : Int) < nitems := ok
      have inBounds : i < maxNItems := by omega
      simp [consumer, Shared.load, inBounds] at blocked
  | report =>
      exact ok.elim
  | returned =>
      exact .inl rfl
  | _ =>
      simp [consumer] at blocked

/-- With no step left but a spurious wake-up, all threads have returned. -/
theorem Invariant.all_returned
    (invariant : Invariant nitems trace state)
    (small : nitems ≤ maxNItems)
    (threads : 0 < nthreads)
    (producersStuck : ∀ thread,
      producer nitems state.shared (state.producers thread) = none)
    (consumerStuck :
      consumer nitems state.shared state.consumer = none) :
    AllReturned state := by
  have producersBlocked :=
    fun thread =>
      producer_eq_none small (invariant.locals thread)
        (producersStuck thread)
  have consumerBlocked :=
    consumer_eq_none small invariant.consumerOk consumerStuck
  have noPut : total Producer.putCrit state.producers = 0 := by
    refine total_eq_zero_iff.mpr fun thread => ?_
    rcases producersBlocked thread with pc | ⟨pc, -⟩ | ⟨pc, -⟩ <;>
      simp [Producer.putCrit, pc]
  have noNready : total Producer.nreadyCrit state.producers = 0 := by
    refine total_eq_zero_iff.mpr fun thread => ?_
    rcases producersBlocked thread with pc | ⟨pc, -⟩ | ⟨pc, -⟩ <;>
      simp [Producer.nreadyCrit, pc]
  have notCrit : state.consumer.crit = 0 := by
    rcases consumerBlocked with pc | ⟨pc, -⟩ | ⟨pc, -⟩ <;>
      simp [Consumer.crit, pc]
  have putMutex := invariant.putMutex
  have nreadyMutex := invariant.nreadyMutex
  have producersDone :
      ∀ thread, (state.producers thread).pc = .returned := by
    intro thread
    rcases producersBlocked thread with pc | ⟨-, taken⟩ | ⟨-, taken⟩
    · exact pc
    · omega
    · omega
  refine ⟨producersDone, ?_⟩
  rcases consumerBlocked with pc | ⟨-, taken⟩ | ⟨pc, asleep⟩
  · exact pc
  · omega
  · -- A sleeping consumer has taken every announcement, and all slots are
    -- filled and announced, so it would not wait for another.
    exfalso
    have isAsleep : state.shared.sleeping = true := by
      rcases asleep with asleep | taken
      · exact asleep
      · omega
    have nready := invariant.nready
    have announced :
        total Producer.unannounced state.producers = 0 :=
      total_eq_zero_iff.mpr fun thread => by
        simp [Producer.unannounced, producersDone thread]
    have stored := invariant.locals ⟨0, threads⟩
    have consumerOk := invariant.consumerOk
    rw [(invariant.asleep isAsleep).2, announced] at nready
    simp only [Producer.Ok, producersDone] at stored
    simp only [Consumer.Ok, pc] at consumerOk
    simp only [Consumer.got, pc] at nready
    omega

/-- Once every thread has returned, every slot is filled, counted and read. -/
theorem Invariant.totals
    (invariant : Invariant nitems trace state)
    (returned : AllReturned state) :
    (state.consumer.seen : Int) = max nitems 0 ∧
      (total Producer.count state.producers : Int) = max nitems 0 := by
  obtain ⟨producersDone, pc⟩ := returned
  have uncounted : total Producer.uncounted state.producers = 0 :=
    total_eq_zero_iff.mpr fun thread => by
      simp [Producer.uncounted, producersDone thread]
  have counted := invariant.counted
  have nready := invariant.nready
  have nonneg := invariant.nonneg
  have bounded := invariant.bounded
  have consumerOk := invariant.consumerOk
  simp only [Consumer.Ok, pc] at consumerOk
  simp only [Consumer.got, pc] at nready
  simp only [Consumer.seen, pc]
  exact ⟨by omega, by omega⟩

/--
`mutex_prodcons3`, for every number of items that fits `buf`, every number of
producers and every interleaving with spurious wake-ups: at its `i`-th
iteration the consumer finds `i` in slot `i`, so the observed events are exactly
these; a consumer that is blocked without a signal has nothing announced to
it; unless every thread has returned, one that has not can take a step that is
no spurious wake-up; and then the counts add up to the number of items.
-/
theorem mutexProdCons3_correct
    (nitems : Int)
    (small : nitems ≤ maxNItems)
    {nthreads : Nat}
    (threads : 0 < nthreads)
    {trace : List Event}
    {state : State nthreads}
    (reaches : (system nitems nthreads).Reaches trace state) :
    trace = (List.range state.consumer.seen).map (fun i => .found i i) ∧
      (state.consumer.pc = .compareBuf →
        state.shared.load state.consumer.i = some state.consumer.i) ∧
      (state.consumer.pc = .waiting → state.shared.sleeping = true →
        ¬ 0 < state.shared.nready) ∧
      (AllReturned state ∨
        (∃ thread, (state.producers thread).pc ≠ .returned ∧
          (system nitems nthreads).Enabled state (.producer thread)) ∨
        (state.consumer.pc ≠ .returned ∧
          (system nitems nthreads).Enabled state .consumer)) ∧
      (AllReturned state →
        (state.consumer.seen : Int) = max nitems 0 ∧
          (total Producer.count state.producers : Int) =
            max nitems 0) := by
  have invariant := Invariant.of_reaches reaches
  refine ⟨invariant.traced, invariant.found, ?_, ?_, invariant.totals⟩
  · intro _ asleep
    rw [(invariant.asleep asleep).2]
    exact Int.lt_irrefl 0
  · by_cases producersStuck :
        ∀ thread,
          producer nitems state.shared (state.producers thread) = none
    · by_cases consumerStuck :
          consumer nitems state.shared state.consumer = none
      · exact .inl
          (invariant.all_returned small threads producersStuck
            consumerStuck)
      · refine .inr (.inr ⟨?_, ?_⟩)
        · intro pc
          exact consumerStuck (by simp [consumer, pc])
        · simpa [System.Enabled, system] using
            Option.isSome_iff_ne_none.mpr consumerStuck
    · obtain ⟨thread, enabled⟩ := not_forall.mp producersStuck
      refine .inr (.inl ⟨thread, ?_, ?_⟩)
      · intro pc
        exact enabled (by simp [producer, pc])
      · simpa [System.Enabled, system] using
          Option.isSome_iff_ne_none.mpr enabled

/--
The consumer sleeps, wakes up spuriously more than once, and is signalled later
by two producers.
-/
theorem mutexProdCons3_correct_fourItems :
    ∃ trace state,
      (system 4 2).Reaches trace state ∧
        AllReturned state ∧
        trace = [.found 0 0, .found 1 1, .found 2 2, .found 3 3] ∧
        total Producer.count state.producers = 4 := by
  obtain ⟨trace, state, reaches, returned⟩ :=
    System.Reaches.exists_of_run?
      (by decide +kernel :
        ((system 4 2).run? (system 4 2).initial
          ([(.consumer, 4), (.spurious, 1), (.consumer, 3),
            (.producer 0, 9), (.spurious, 1), (.consumer, 3),
            (.producer 0, 9), (.consumer, 7), (.producer 0, 9),
            (.producer 1, 11), (.consumer, 1), (.producer 1, 11),
            (.consumer, 7), (.producer 0, 7), (.producer 1, 11),
            (.consumer, 7), (.producer 0, 3), (.producer 1, 3),
            (.consumer, 10)].flatMap
            fun (action, count) => List.replicate count action)).any
          (fun outcome => decide (AllReturned outcome.1)) = true)
  have allReturned : AllReturned state := of_decide_eq_true returned
  obtain ⟨found, -, -, -, final⟩ :=
    mutexProdCons3_correct 4 (by decide) (by decide) reaches
  obtain ⟨seen, counts⟩ := final allReturned
  have allSeen : state.consumer.seen = 4 := by omega
  refine ⟨trace, state, reaches, allReturned, ?_, by omega⟩
  rw [found, allSeen]
  rfl

end CsPrimer.PxMutex.ProdCons3
