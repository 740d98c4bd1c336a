import CsPrimer.PxSem.ProdCons4

namespace CsPrimer.PxSem.ProdCons4

open Library

/-!
# Every run of `sem_prodcons4.c` is orderly and can be completed
-/

variable
  {nitems : Int}
  {nproducers nconsumers : Nat}
  {trace : List Event}
  {state : State nproducers nconsumers}

/-- The invariant holds in every run. -/
theorem Invariant.of_reaches
    (reaches :
      (system nitems nproducers nconsumers).Reaches trace state) :
    Invariant nitems trace state := by
  refine System.Reaches.invariant Invariant.start ?_ reaches
  intro trace events state next action invariant taken
  cases action with
  | producer thread =>
      obtain ⟨⟨shared, after, emitted⟩, stepped, outcome⟩ :=
        Option.map_eq_some_iff.mp taken
      simp only [Prod.mk.injEq] at outcome
      obtain ⟨rfl, rfl⟩ := outcome
      exact invariant.producer_step stepped
  | consumer thread =>
      obtain ⟨⟨shared, after, emitted⟩, stepped, outcome⟩ :=
        Option.map_eq_some_iff.mp taken
      simp only [Prod.mk.injEq] at outcome
      obtain ⟨rfl, rfl⟩ := outcome
      exact invariant.consumer_step stepped

/-- A consumer is between its `nget < nitems` test and `++shared.nget`. -/
def Consumer.Comparing (thread : Consumer) : Prop :=
  match thread.pc with
  | .loadIndex | .compareBuf _ | .compareNgetval _ _ | .report _ => True
  | _ => False

open Consumer in
/-- Comparing happens in the critical section, for a token and an item. -/
theorem Consumer.Comparing.holds
    {shared : Shared}
    {thread : Consumer}
    (compares : thread.Comparing)
    (ok : thread.Ok nitems shared) :
    thread.crit = 1 ∧ thread.token = 1 ∧ thread.lag = 0 ∧
      shared.nget < nitems := by
  obtain ⟨pc, count⟩ := thread
  cases pc with
  | loadIndex =>
      exact ⟨rfl, rfl, rfl, ok⟩
  | compareBuf i =>
      exact ⟨rfl, rfl, rfl, ok.1⟩
  | compareNgetval i value =>
      exact ⟨rfl, rfl, rfl, ok.1⟩
  | report i =>
      exact ok.elim
  | _ =>
      exact compares.elim

/-- A thread that has returned has no weight left but its count. -/
theorem Invariant.totals
    (invariant : Invariant nitems trace state)
    (consumers : 0 < nconsumers)
    (returned : AllReturned state) :
    (state.shared.nget : Int) = max nitems 0 ∧
      total Producer.count state.producers = state.shared.nget ∧
      total Consumer.count state.consumers = state.shared.nget ∧
      total Consumer.seen state.consumers = 0 := by
  obtain ⟨producersDone, consumersDone⟩ := returned
  have uncountedProducers := total_uncounted_of_returned producersDone
  have consumerPc : ∀ thread, (state.consumers thread).pc = .returned :=
    consumersDone
  have uncountedConsumers :
      total Consumer.uncounted state.consumers = 0 :=
    total_eq_zero_iff.mpr fun thread => by
      simp [Consumer.uncounted, consumerPc thread]
  have unseen : total Consumer.seen state.consumers = 0 :=
    total_eq_zero_iff.mpr fun thread => by
      simp [Consumer.seen, consumerPc thread]
  have allConsumed : nitems ≤ state.shared.nget := by
    have ok := invariant.locals ⟨0, consumers⟩
    simpa [Consumer.Ok, consumerPc] using ok
  have behind := invariant.producing.behind
  have bounded := invariant.producing.bounded
  have producerCounts := invariant.producing.counted
  have consumerCounts := invariant.counted
  simp only [environment] at behind
  refine ⟨by omega, by omega, by omega, unseen⟩

/--
`sem_prodcons4`, for every number of items, producers and consumers and every
interleaving: a slot is only stored into when everything stored in it before
has been consumed; a consumer past its test finds `ngetval` in the slot of
`nget`, so no error is reported; the values consumed are `0, 1, 2, …` in order,
out of the values stored in the same order; and the counts of both sides are
the number of items once every thread has returned.
-/
theorem prodCons4_orderly
    (nitems : Int)
    {nproducers nconsumers : Nat}
    (consumers : 0 < nconsumers)
    {trace : List Event}
    {state : State nproducers nconsumers}
    (reaches :
      (system nitems nproducers nconsumers).Reaches trace state) :
    NoOverwrite trace ∧
      (∀ thread, (state.consumers thread).Comparing →
        state.shared.ring.buf (slot nbuff state.shared.nget) =
          state.shared.ngetval) ∧
      (∀ place value, .error place value ∉ trace) ∧
      (∃ stored consumed,
        consumed ≤ stored ∧
          (storedItems trace).map Prod.snd = List.range stored ∧
          (consumedItems trace).map Prod.snd = List.range consumed) ∧
      (AllReturned state →
        (consumedItems trace).map Prod.snd =
            List.range (max nitems 0).toNat ∧
          (total Producer.count state.producers : Int) = max nitems 0 ∧
          (total Consumer.count state.consumers : Int) = max nitems 0) := by
  have invariant := Invariant.of_reaches reaches
  have orderly := invariant.producing.orderly
  have consumedValues :
      (consumedItems trace).map Prod.snd =
        List.range (state.shared.nget +
          total Consumer.seen state.consumers) := by
    simpa [environment] using orderly.consumed_values
  have storedValues :
      (storedItems trace).map Prod.snd =
        List.range (state.shared.ring.nput +
          total Producer.ahead state.producers) := by
    simpa using orderly.stored_values
  refine ⟨orderly.noOverwrite, ?_, orderly.noError, ?_, ?_⟩
  · intro thread compares
    obtain ⟨inside, holds, noLag, less⟩ :=
      compares.holds (invariant.locals thread)
    rw [invariant.ngetval_eq inside noLag]
    exact invariant.found holds less
  · exact ⟨_, _, Nat.le_trans invariant.producing.behind
      (Nat.le_add_right ..), storedValues, consumedValues⟩
  · intro returned
    obtain ⟨all, producerCounts, consumerCounts, unseen⟩ :=
      invariant.totals consumers returned
    refine ⟨?_, ?_, ?_⟩
    · rw [consumedValues, unseen, Nat.add_zero, ← all, Int.toNat_natCast]
    · rw [producerCounts, all]
    · rw [consumerCounts, all]

/--
A producer fills the buffer; two producers and two consumers pass two items
more than it holds, and return.
-/
theorem prodCons4_orderly_twelveItems :
    ∃ trace state,
      (system 12 2 2).Reaches trace state ∧
        AllReturned state ∧
        (consumedItems trace).map Prod.snd = List.range 12 ∧
        total Producer.count state.producers = 12 ∧
        total Consumer.count state.consumers = 12 := by
  obtain ⟨trace, state, reaches, returned⟩ :=
    System.Reaches.exists_of_run?
      (by decide +kernel :
        ((system 12 2 2).run? (system 12 2 2).initial
          ([(.producer 0, 130), (.consumer 0, 20), (.producer 1, 1),
            (.consumer 1, 1), (.consumer 0, 20), (.producer 1, 13),
            (.consumer 1, 13), (.producer 0, 19), (.consumer 0, 103),
            (.producer 1, 5), (.consumer 1, 4), (.consumer 0, 5)].flatMap
            fun (action, count) => List.replicate count action)).any
          (fun outcome => decide (AllReturned outcome.1)) = true)
  have allReturned : AllReturned state := of_decide_eq_true returned
  obtain ⟨-, -, -, -, final⟩ := prodCons4_orderly 12 (by decide) reaches
  obtain ⟨consumed, producerCounts, consumerCounts⟩ := final allReturned
  exact ⟨trace, state, reaches, allReturned, consumed,
    by omega, by omega⟩

/-- In a state without enabled steps everyone waits for an item or a slot. -/
theorem Invariant.quiet
    (invariant : Invariant nitems trace state)
    (stuck : ∀ action,
      (system nitems nproducers nconsumers).step? state action = none) :
    (∀ thread, (state.producers thread).Returned ∨
        ((state.producers thread).pc = .waitNempty ∧
          state.shared.ring.nempty = 0)) ∧
      ∀ thread, (state.consumers thread).Returned ∨
        ((state.consumers thread).pc = .waitNstored ∧
          state.shared.ring.nstored = 0) := by
  have producersBlocked :
      ∀ thread,
        producerStep exits nitems state.shared.ring
          (state.producers thread) = none := by
    intro thread
    have blocked := stuck (.producer thread)
    simpa only [system, producer, Option.map_eq_none_iff] using blocked
  have consumersBlocked :
      ∀ thread, (state.consumers thread).Returned ∨
        ((state.consumers thread).pc = .waitNstored ∧
          state.shared.ring.nstored = 0) ∨
        ((state.consumers thread).pc = .waitMutex ∧
          state.shared.ring.mutex = 0) := by
    intro thread
    have blocked := stuck (.consumer thread)
    simp only [system, Option.map_eq_none_iff] at blocked
    exact consumer_eq_none blocked
  have noProducer := total_crit_of_blocked producersBlocked
  have noConsumer : total Consumer.crit state.consumers = 0 := by
    refine total_eq_zero_iff.mpr fun thread => ?_
    rcases consumersBlocked thread with pc | ⟨pc, -⟩ | ⟨pc, -⟩ <;>
      unfold Consumer.crit <;> rw [pc]
  have mutexFree : state.shared.ring.mutex = 1 := by
    have mutex := invariant.producing.mutex
    simp only [environment] at mutex
    omega
  refine ⟨quiet_of_blocked producersBlocked mutexFree, fun thread => ?_⟩
  rcases consumersBlocked thread with returned | waits | ⟨-, taken⟩
  · exact .inl returned
  · exact .inr waits
  · exact absurd (mutexFree.symm.trans taken) Nat.one_ne_zero

/-- Consumers that wait for `nstored` or have returned hold and owe nothing. -/
theorem consumers_quiet_totals
    (quiet :
      ∀ thread, (state.consumers thread).Returned ∨
        ((state.consumers thread).pc = .waitNstored ∧
          state.shared.ring.nstored = 0)) :
    total Consumer.token state.consumers = 0 ∧
      total Consumer.debt state.consumers = 0 := by
  have pcs :
      ∀ thread, (state.consumers thread).pc = .returned ∨
        (state.consumers thread).pc = .waitNstored :=
    fun thread => (quiet thread).imp id And.left
  refine ⟨?_, ?_⟩ <;>
    refine total_eq_zero_iff.mpr fun thread => ?_ <;>
    rcases pcs thread with pc | pc
  · simp [Consumer.token, pc]
  · simp [Consumer.token, pc]
  · simp [Consumer.debt, pc]
  · simp [Consumer.debt, pc]

/-- Producers that have all returned have left an extra `nstored` token. -/
theorem promised_of_returned
    (producers : 0 < nproducers)
    (returned : ∀ thread, (state.producers thread).Returned) :
    0 < total (Producer.promised exits) state.producers := by
  have first := weight_le_total (Producer.promised exits)
    state.producers ⟨0, producers⟩
  have pc : (state.producers ⟨0, producers⟩).pc = .leave [] :=
    returned ⟨0, producers⟩
  have posts : (state.producers ⟨0, producers⟩).promised exits = 1 := by
    simp only [Producer.promised, pc]
    rfl
  omega

/-- With no step left, all threads have returned. -/
theorem Invariant.all_returned
    (invariant : Invariant nitems trace state)
    (producers : 0 < nproducers)
    (consumers : 0 < nconsumers)
    (stuck : ∀ action,
      (system nitems nproducers nconsumers).step? state action = none) :
    AllReturned state := by
  obtain ⟨producersQuiet, consumersQuiet⟩ := invariant.quiet stuck
  obtain ⟨noSlot, noPending, noUnposted⟩ := quiet_totals producersQuiet
  obtain ⟨noToken, noDebt⟩ := consumers_quiet_totals consumersQuiet
  have nempty := invariant.producing.nempty
  have nstored := invariant.producing.nstored
  have behind := invariant.producing.behind
  have bounded := invariant.producing.bounded
  simp only [environment, nbuff] at nempty nstored behind
  have noneWaits :
      ∀ thread, (state.producers thread).Returned := by
    intro thread
    rcases producersQuiet thread with returned | ⟨-, nemptyZero⟩
    · exact returned
    · -- A full ring is drained by a waiting consumer; all consumers gone
      -- means that all items are consumed and the ring cannot be full.
      exfalso
      rcases consumersQuiet ⟨0, consumers⟩ with
        returned | ⟨-, nstoredZero⟩
      · have ok := invariant.locals ⟨0, consumers⟩
        have pc : (state.consumers ⟨0, consumers⟩).pc = .returned :=
          returned
        simp only [Consumer.Ok, pc] at ok
        omega
      · omega
  refine ⟨noneWaits, fun thread => ?_⟩
  rcases consumersQuiet thread with returned | ⟨-, nstoredZero⟩
  · exact returned
  · -- The last producer's extra token is still there.
    have extra := promised_of_returned producers noneWaits
    omega

/--
`sem_prodcons4` never deadlocks: in every reachable state either every thread
has returned, or some thread that has not returned can take a step.
-/
theorem prodCons4_progress
    (nitems : Int)
    {nproducers nconsumers : Nat}
    (producers : 0 < nproducers)
    (consumers : 0 < nconsumers)
    {trace : List Event}
    {state : State nproducers nconsumers}
    (reaches :
      (system nitems nproducers nconsumers).Reaches trace state) :
    AllReturned state ∨
      (∃ thread, ¬ (state.producers thread).Returned ∧
        (system nitems nproducers nconsumers).Enabled state
          (.producer thread)) ∨
      ∃ thread, ¬ (state.consumers thread).Returned ∧
        (system nitems nproducers nconsumers).Enabled state
          (.consumer thread) := by
  by_cases stuck :
      ∀ action,
        (system nitems nproducers nconsumers).step? state action = none
  · exact .inl
      ((Invariant.of_reaches reaches).all_returned producers consumers stuck)
  · obtain ⟨action, enabled⟩ := not_forall.mp stuck
    have isEnabled :
        (system nitems nproducers nconsumers).Enabled state action :=
      Option.isSome_iff_ne_none.mpr enabled
    cases action with
    | producer thread =>
        refine .inr (.inl ⟨thread, ?_, isEnabled⟩)
        intro returned
        have pc : (state.producers thread).pc = .leave [] := returned
        exact enabled (by simp [system, producer, producerStep, pc])
    | consumer thread =>
        refine .inr (.inr ⟨thread, ?_, isEnabled⟩)
        intro returned
        have pc : (state.consumers thread).pc = .returned := returned
        exact enabled (by simp [system, consumer, pc])

/-- While the buffer is full and a producer is blocked there is a step left. -/
theorem prodCons4_progress_fullBuffer :
    ∃ trace state,
      (system 12 2 2).Reaches trace state ∧
        state.shared.ring.nempty = 0 ∧
        (system 12 2 2).step? state (.producer 0) = none ∧
        ¬ AllReturned state ∧
        ∃ action, (system 12 2 2).Enabled state action := by
  obtain ⟨trace, state, reaches, observed⟩ :=
    System.Reaches.exists_of_run?
      (by decide +kernel :
        ((system 12 2 2).run? (system 12 2 2).initial
          ([(.producer 0, 130), (.consumer 0, 7),
            (.consumer 1, 1)].flatMap
            fun (action, count) => List.replicate count action)).any
          (fun outcome =>
            decide (outcome.1.shared.ring.nempty = 0 ∧
              ¬ AllReturned outcome.1) &&
              ((system 12 2 2).step? outcome.1
                (.producer 0)).isNone) = true)
  obtain ⟨isFull, isBlocked⟩ := (Bool.and_eq_true _ _).mp observed
  obtain ⟨isFull, notReturned⟩ := of_decide_eq_true isFull
  refine ⟨trace, state, reaches, isFull, Option.isNone_iff_eq_none.mp isBlocked,
    notReturned, ?_⟩
  rcases prodCons4_progress 12 (by decide) (by decide) reaches with
    returned | ⟨thread, -, enabled⟩ | ⟨thread, -, enabled⟩
  · exact (notReturned returned).elim
  · exact ⟨_, enabled⟩
  · exact ⟨_, enabled⟩

end CsPrimer.PxSem.ProdCons4
