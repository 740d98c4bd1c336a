import CsPrimer.PxSem.ProdCons3

namespace CsPrimer.PxSem.ProdCons3

open Library

/-!
# Every run of `sem_prodcons3.c` is orderly and can be completed
-/

variable
  {nitems : Int}
  {nproducers : Nat}
  {trace : List Event}
  {state : State nproducers}

/-- With no step left, everyone waits for an item or a slot. -/
theorem Invariant.quiet
    (invariant : Invariant nitems trace state)
    (stuck : ∀ action,
      (system nitems nproducers).step? state action = none) :
    (∀ thread, (state.producers thread).Returned ∨
        ((state.producers thread).pc = .waitNempty ∧
          state.shared.nempty = 0)) ∧
      (state.consumer.pc = .returned ∨
        (state.consumer.pc = .waitNstored ∧ state.shared.nstored = 0)) := by
  have producersBlocked :
      ∀ thread,
        producerStep exits nitems state.shared
          (state.producers thread) = none := by
    intro thread
    have blocked := stuck (.producer thread)
    simpa only [system, producer, Option.map_eq_none_iff] using blocked
  have consumerBlocked := stuck .consumer
  simp only [system, Option.map_eq_none_iff] at consumerBlocked
  have consumerWaits := consumer_eq_none consumerBlocked
  have noProducer := total_crit_of_blocked producersBlocked
  have noConsumer : state.consumer.crit = 0 := by
    rcases consumerWaits with pc | ⟨pc, -⟩ | ⟨pc, -⟩ <;>
      simp [Consumer.crit, pc]
  have mutexFree : state.shared.mutex = 1 := by
    have mutex := invariant.producing.mutex
    simp only [environment] at mutex
    omega
  refine ⟨quiet_of_blocked producersBlocked mutexFree, ?_⟩
  rcases consumerWaits with returned | waits | ⟨-, taken⟩
  · exact .inl returned
  · exact .inr waits
  · exact absurd (mutexFree.symm.trans taken) Nat.one_ne_zero

/-- With no step left, all threads have returned. -/
theorem Invariant.all_returned
    (invariant : Invariant nitems trace state)
    (producers : 0 < nproducers)
    (stuck : ∀ action,
      (system nitems nproducers).step? state action = none) :
    AllReturned state := by
  obtain ⟨producersQuiet, consumerQuiet⟩ := invariant.quiet stuck
  obtain ⟨noSlot, noPending, noUnposted⟩ := quiet_totals producersQuiet
  have nempty := invariant.producing.nempty
  have nstored := invariant.producing.nstored
  have behind := invariant.producing.behind
  have bounded := invariant.producing.bounded
  have ok := invariant.consuming
  rw [promised_eq_zero] at nstored
  simp only [environment, nbuff] at nempty nstored behind
  rcases consumerQuiet with pc | ⟨pc, nstoredZero⟩
  · -- The consumer has read every item, so the ring is empty.
    refine ⟨fun thread => ?_, pc⟩
    rcases producersQuiet thread with returned | ⟨-, nemptyZero⟩
    · exact returned
    · simp only [Consumer.Ok, Consumer.got, Consumer.debt, pc]
        at ok nempty behind
      omega
  · -- The consumer has read all that is stored, so the ring is empty, and
    -- the producers have not returned before storing the next item.
    exfalso
    simp only [Consumer.Ok, Consumer.got, Consumer.debt, Consumer.token,
      pc] at ok nempty nstored behind
    rcases producersQuiet ⟨0, producers⟩ with returned | ⟨-, nemptyZero⟩
    · have producerOk := invariant.producing.locals ⟨0, producers⟩
      have producerPc :
          (state.producers ⟨0, producers⟩).pc = .leave [] := returned
      simp only [Producer.Ok, producerPc] at producerOk
      omega
    · omega

/-- Once every thread has returned, every item has been counted and read. -/
theorem Invariant.totals
    (invariant : Invariant nitems trace state)
    (returned : AllReturned state) :
    (state.consumer.got : Int) = max nitems 0 ∧
      (total Producer.count state.producers : Int) = max nitems 0 := by
  obtain ⟨producersDone, pc⟩ := returned
  have uncounted := total_uncounted_of_returned producersDone
  have counted := invariant.producing.counted
  have behind := invariant.producing.behind
  have bounded := invariant.producing.bounded
  have ok := invariant.consuming
  simp only [environment] at behind
  simp only [Consumer.Ok, Consumer.got, pc] at ok behind ⊢
  exact ⟨by omega, by omega⟩

/--
`sem_prodcons3`, for every number of items and of producers and every
interleaving: the values read are `0, 1, 2, …` in order, so no error is
reported and the item about to be compared is in its slot; a slot is only
stored into when everything stored in it before has been read; some thread that
has not returned can take a step unless all have returned; and then the counts
of the producers add up to the number of items.
-/
theorem semProdCons3_correct
    (nitems : Int)
    {nproducers : Nat}
    (producers : 0 < nproducers)
    {trace : List Event}
    {state : State nproducers}
    (reaches : (system nitems nproducers).Reaches trace state) :
    (consumedItems trace).map Prod.snd =
        List.range state.consumer.got ∧
      (state.consumer.pc = .compareBuf →
        state.shared.buf (slot nbuff state.consumer.i) =
          state.consumer.i) ∧
      (∀ place value, .error place value ∉ trace) ∧
      NoOverwrite trace ∧
      (AllReturned state ∨
        (∃ thread, ¬ (state.producers thread).Returned ∧
          (system nitems nproducers).Enabled state (.producer thread)) ∨
        (state.consumer.pc ≠ .returned ∧
          (system nitems nproducers).Enabled state .consumer)) ∧
      (AllReturned state →
        (consumedItems trace).map Prod.snd =
            List.range (max nitems 0).toNat ∧
          (total Producer.count state.producers : Int) =
            max nitems 0) := by
  have invariant := Invariant.of_reaches reaches
  have orderly := invariant.producing.orderly
  have consumedValues :
      (consumedItems trace).map Prod.snd =
        List.range state.consumer.got := by
    simpa [environment] using orderly.consumed_values
  refine ⟨consumedValues, ?_, orderly.noError, orderly.noOverwrite,
    ?_, ?_⟩
  · intro pc
    have found := invariant.found (by simp [Consumer.token, pc])
    simpa [Consumer.got, pc] using found
  · by_cases stuck :
        ∀ action, (system nitems nproducers).step? state action = none
    · exact .inl (invariant.all_returned producers stuck)
    · obtain ⟨action, enabled⟩ := not_forall.mp stuck
      have isEnabled : (system nitems nproducers).Enabled state action :=
        Option.isSome_iff_ne_none.mpr enabled
      cases action with
      | producer thread =>
          refine .inr (.inl ⟨thread, ?_, isEnabled⟩)
          intro returned
          have pc : (state.producers thread).pc = .leave [] := returned
          exact enabled (by simp [system, producer, producerStep, pc])
      | consumer =>
          refine .inr (.inr ⟨?_, isEnabled⟩)
          intro returned
          exact enabled (by simp [system, consumer, returned])
  · intro returned
    obtain ⟨all, counts⟩ := invariant.totals returned
    refine ⟨?_, counts⟩
    rw [consumedValues, ← all, Int.toNat_natCast]

/--
A producer fills the buffer; three producers and the consumer pass two items
more than it holds, and return.
-/
theorem semProdCons3_correct_twelveItems :
    ∃ trace state,
      (system 12 3).Reaches trace state ∧
        AllReturned state ∧
        (consumedItems trace).map Prod.snd = List.range 12 ∧
        total Producer.count state.producers = 12 := by
  obtain ⟨trace, state, reaches, returned⟩ :=
    System.Reaches.exists_of_run?
      (by decide +kernel :
        ((system 12 3).run? (system 12 3).initial
          ([(.producer 0, 130), (.consumer, 20), (.producer 1, 13),
            (.producer 2, 7), (.producer 0, 1), (.consumer, 3),
            (.producer 2, 6), (.producer 0, 4), (.consumer, 20),
            (.producer 1, 5), (.producer 2, 5), (.consumer, 42)].flatMap
            fun (action, count) => List.replicate count action)).any
          (fun outcome => decide (AllReturned outcome.1)) = true)
  have allReturned : AllReturned state := of_decide_eq_true returned
  obtain ⟨-, -, -, -, -, final⟩ :=
    semProdCons3_correct 12 (by decide) reaches
  obtain ⟨consumed, counts⟩ := final allReturned
  exact ⟨trace, state, reaches, allReturned, consumed, by omega⟩

end CsPrimer.PxSem.ProdCons3
