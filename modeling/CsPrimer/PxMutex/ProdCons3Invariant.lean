import CsPrimer.PxMutex.ProdCons3

namespace CsPrimer.PxMutex.ProdCons3

open Library

/-!
# The invariant of `mutex_prodcons3.c`

Every filled slot is either taken by the consumer, announced in `nready`, or
held by one producer that has not announced it yet.  The announcements need not
be made in the order in which the slots were filled: all that counts is their
number.
-/

/-- A store in `buf` changes one slot. -/
theorem store_spec
    {before after : Shared}
    {i value : Nat}
    (stored : before.store i value = some after) :
    after.load i = some value ∧
      (∀ other, other ≠ i → after.load other = before.load other) ∧
      after =
        { before with buf := after.buf } := by
  unfold Shared.store at stored
  split at stored
  · rename_i inBounds
    obtain rfl := Option.some.inj stored
    refine ⟨by simp [Shared.load, inBounds], ?_, rfl⟩
    intro other different
    unfold Shared.load
    split
    · simp only [Option.some.injEq]
      exact Function.update_of_ne (fun same =>
        different (congrArg Fin.val same)) ..
    · rfl
  · simp at stored

/-- What one step of a producer changes. -/
structure ProducerEffect
    (nitems : Int)
    (before after : Shared)
    (thread next : Producer) : Prop where
  ok :
    next.Ok nitems after
  putMutex :
    after.putMutex + next.putCrit = before.putMutex + thread.putCrit
  nreadyMutex :
    after.nreadyMutex + next.nreadyCrit =
      before.nreadyMutex + thread.nreadyCrit
  nready :
    after.nready + next.unannounced + before.nput =
      before.nready + thread.unannounced + after.nput
  counted :
    next.count + next.uncounted + before.nput =
      thread.count + thread.uncounted + after.nput
  grows :
    before.nput ≤ after.nput
  bounded :
    after.nput = before.nput ∨ (after.nput : Int) ≤ nitems
  announces :
    before.nready ≤ after.nready
  asleep :
    after.sleeping = true →
      before.sleeping = true ∧ after.nready = before.nready
  filled :
    Filled before before.nput → Filled after after.nput
  outsidePut :
    thread.putCrit = 0 →
      after.nput = before.nput ∧ ∀ i, after.load i = before.load i
  outsideNready :
    thread.nreadyCrit = 0 →
      after.nready = before.nready ∧ after.sleeping = before.sleeping

open Producer in
/-- A producer that fills the next slot has not moved `nput` yet. -/
theorem store_effect
    {nitems : Int}
    {before after : Shared}
    {i value count : Nat}
    (ok : Producer.Ok nitems before { pc := .store i value, count := count })
    (stored : before.store i value = some after) :
    ProducerEffect nitems before after
      { pc := .store i value, count := count }
      { pc := .loadNput, count := count } := by
  obtain ⟨less, rfl, rfl⟩ := ok
  obtain ⟨self, others, same⟩ := store_spec stored
  have sameNput : after.nput = before.nput := by rw [same]
  have sameNready : after.nready = before.nready := by rw [same]
  have sameSleeping : after.sleeping = before.sleeping := by rw [same]
  have samePutMutex : after.putMutex = before.putMutex := by rw [same]
  have sameNreadyMutex :
      after.nreadyMutex = before.nreadyMutex := by rw [same]
  constructor
  · exact ⟨sameNput ▸ less, sameNput ▸ self⟩
  · simp [putCrit, samePutMutex]
  · simp [nreadyCrit, sameNreadyMutex]
  · simp [unannounced, sameNput, sameNready]
  · simp [uncounted, sameNput]
  · exact Nat.le_of_eq sameNput.symm
  · exact .inl sameNput
  · exact Int.le_of_eq sameNready.symm
  · exact fun asleep => ⟨sameSleeping ▸ asleep, sameNready⟩
  · intro filled other below
    rw [sameNput] at below
    rw [others other (Nat.ne_of_lt below)]
    exact filled other below
  · intro outside
    simp [putCrit] at outside
  · exact fun _ => ⟨sameNready, sameSleeping⟩

open Producer in
/-- Every step of a producer has the effect its weights account for. -/
theorem producer_effect
    {nitems : Int}
    {before after : Shared}
    {thread next : Producer}
    (ok : thread.Ok nitems before)
    (quiet : before.sleeping = true → before.nready = 0)
    (taken : producer nitems before thread = some (after, next)) :
    ProducerEffect nitems before after thread next := by
  obtain ⟨pc, count⟩ := thread
  cases pc with
  | lockPut | lockNready =>
      obtain ⟨free, available, outcome⟩ := Option.map_eq_some_iff.mp taken
      have held := semWait_eq_some.mp available
      simp only [Prod.mk.injEq] at outcome
      obtain ⟨rfl, rfl⟩ := outcome
      constructor <;> simp [Ok, putCrit, nreadyCrit, unannounced,
        uncounted, held, Filled, Shared.load]
  | testNput =>
      by_cases stored : nitems ≤ before.nput
      · simp only [producer, if_pos stored, Option.some.injEq,
          Prod.mk.injEq] at taken
        obtain ⟨rfl, rfl⟩ := taken
        constructor <;> simp [Ok, putCrit, nreadyCrit, unannounced,
          uncounted, Filled, stored]
      · simp only [producer, if_neg stored, Option.some.injEq,
          Prod.mk.injEq] at taken
        obtain ⟨rfl, rfl⟩ := taken
        constructor <;> simp [Ok, putCrit, nreadyCrit, unannounced,
          uncounted, Filled]
        exact Int.not_le.mp stored
  | testNready =>
      by_cases none : before.nready = 0
      · simp only [producer, if_pos none, Option.some.injEq,
          Prod.mk.injEq] at taken
        obtain ⟨rfl, rfl⟩ := taken
        constructor <;> simp [Ok, putCrit, nreadyCrit, unannounced,
          uncounted, Filled]
      · have awake : before.sleeping = false := by
          simpa using fun asleep => none (quiet asleep)
        simp only [producer, if_neg none, Option.some.injEq,
          Prod.mk.injEq] at taken
        obtain ⟨rfl, rfl⟩ := taken
        constructor <;> simp [Ok, putCrit, nreadyCrit, unannounced,
          uncounted, Filled, awake]
  | store i value =>
      obtain ⟨shared, stored, outcome⟩ := Option.map_eq_some_iff.mp taken
      simp only [Prod.mk.injEq] at outcome
      obtain ⟨rfl, rfl⟩ := outcome
      exact store_effect ok stored
  | storeNput nput =>
      obtain ⟨less, self, rfl⟩ := ok
      simp only [producer, Option.some.injEq, Prod.mk.injEq] at taken
      obtain ⟨rfl, rfl⟩ := taken
      constructor <;> simp [Ok, putCrit, nreadyCrit, unannounced,
        uncounted]
      · omega
      · omega
      · exact less
      · intro filled other below
        rcases Nat.lt_succ_iff_lt_or_eq.mp below with earlier | rfl
        · exact filled other earlier
        · exact self
  | storeNready nready =>
      obtain ⟨awake, rfl⟩ := ok
      simp only [producer, Option.some.injEq, Prod.mk.injEq] at taken
      obtain ⟨rfl, rfl⟩ := taken
      constructor <;> simp [Ok, putCrit, nreadyCrit, unannounced,
        uncounted, Filled, Shared.load, awake]
  | returned =>
      simp [producer] at taken
  | _ =>
      simp only [producer, Option.some.injEq, Prod.mk.injEq] at taken
      obtain ⟨rfl, rfl⟩ := taken
      constructor <;> simp_all [Ok, putCrit, nreadyCrit, unannounced,
        uncounted, Filled, Shared.load, semPost]

/-- What one step of the consumer changes. -/
structure ConsumerEffect
    (nitems : Int)
    (before after : Shared)
    (thread next : Consumer)
    (events : List Event) : Prop where
  ok :
    next.Ok nitems after
  put :
    after.putMutex = before.putMutex ∧ after.nput = before.nput ∧
      after.buf = before.buf
  nreadyMutex :
    after.nreadyMutex + next.crit = before.nreadyMutex + thread.crit
  nready :
    after.nready + next.got = before.nready + thread.got
  nonneg :
    0 ≤ before.nready → 0 ≤ after.nready
  asleep :
    after.sleeping = true → next.pc = .waiting ∧ after.nready = 0
  outside :
    thread.crit = 0 →
      after.nready = before.nready ∧ after.sleeping = before.sleeping
  reads :
    (events = [] ∧ next.seen = thread.seen) ∨
      (events = [.found thread.seen thread.seen] ∧
        next.seen = thread.seen + 1)

open Consumer in
/--
Every step of the consumer has the effect its weights account for, as long as
it only reads filled slots.
-/
theorem consumer_effect
    {nitems : Int}
    {before after : Shared}
    {thread next : Consumer}
    {events : List Event}
    (ok : thread.Ok nitems before)
    (sleeper :
      before.sleeping = true → thread.pc = .waiting ∧ before.nready = 0)
    (filled :
      thread.pc = .compareBuf → before.load thread.i = some thread.i)
    (taken : consumer nitems before thread = some (after, next, events)) :
    ConsumerEffect nitems before after thread next events := by
  obtain ⟨pc, i⟩ := thread
  cases pc with
  | testItems =>
      by_cases more : i < nitems
      · simp only [consumer, if_pos more, Option.some.injEq,
          Prod.mk.injEq] at taken
        obtain ⟨rfl, rfl, rfl⟩ := taken
        constructor <;> simp_all [Ok, crit, got, seen]
      · simp only [consumer, if_neg more, Option.some.injEq,
          Prod.mk.injEq] at taken
        obtain ⟨rfl, rfl, rfl⟩ := taken
        constructor <;> simp_all [Ok, crit, got, seen]
  | lockNready =>
      obtain ⟨free, available, outcome⟩ := Option.map_eq_some_iff.mp taken
      have held := semWait_eq_some.mp available
      simp only [Prod.mk.injEq] at outcome
      obtain ⟨rfl, rfl, rfl⟩ := outcome
      constructor <;> simp_all [Ok, crit, got, seen]
  | testNready =>
      by_cases none : before.nready = 0
      · simp only [consumer, if_pos none, Option.some.injEq,
          Prod.mk.injEq] at taken
        obtain ⟨rfl, rfl, rfl⟩ := taken
        constructor <;> simp_all [Ok, crit, got, seen]
      · simp only [consumer, if_neg none, Option.some.injEq,
          Prod.mk.injEq] at taken
        obtain ⟨rfl, rfl, rfl⟩ := taken
        constructor <;> simp_all [Ok, crit, got, seen]
  | waiting =>
      by_cases asleep : before.sleeping
      · simp [consumer, asleep] at taken
      · simp only [consumer, if_neg asleep] at taken
        obtain ⟨free, available, outcome⟩ :=
          Option.map_eq_some_iff.mp taken
        have held := semWait_eq_some.mp available
        simp only [Prod.mk.injEq] at outcome
        obtain ⟨rfl, rfl, rfl⟩ := outcome
        constructor <;> simp_all [Ok, crit, got, seen]
  | compareBuf =>
      have found : before.load i = some i := filled rfl
      simp only [consumer, found, Option.map_some, ne_eq,
        not_true_eq_false, if_false, Option.some.injEq,
        Prod.mk.injEq] at taken
      obtain ⟨rfl, rfl, rfl⟩ := taken
      constructor <;> simp_all [Ok, crit, got, seen]
  | report =>
      exact ok.elim
  | returned =>
      simp [consumer] at taken
  | _ =>
      simp only [consumer, Option.some.injEq, Prod.mk.injEq] at taken
      obtain ⟨rfl, rfl, rfl⟩ := taken
      constructor <;> simp_all [Ok, crit, got, seen, semPost] <;> omega

/-- What a producer knows survives the steps of the other threads. -/
theorem Producer.Ok.frame
    {nitems : Int}
    {before after : Shared}
    {thread : Producer}
    (ok : thread.Ok nitems before)
    (grows : before.nput ≤ after.nput)
    (insidePut :
      0 < thread.putCrit →
        after.nput = before.nput ∧ ∀ i, after.load i = before.load i)
    (insideNready :
      0 < thread.nreadyCrit →
        after.nready = before.nready ∧
          (after.sleeping = true → before.sleeping = true)) :
    thread.Ok nitems after := by
  obtain ⟨pc, count⟩ := thread
  cases pc with
  | leaveUnlock | returned =>
      exact Int.le_trans ok (Int.ofNat_le.mpr grows)
  | loadNready =>
      have awake := (insideNready Nat.one_pos).2
      simp_all [Ok]
  | storeNready nready =>
      have awake := insideNready Nat.one_pos
      simp_all [Ok]
  | _ =>
      simp_all [Ok, putCrit]

/-- What the consumer knows survives the steps of the producers. -/
theorem Consumer.Ok.frame
    {nitems : Int}
    {before after : Shared}
    {thread : Consumer}
    (ok : thread.Ok nitems before)
    (inside : 0 < thread.crit → after.nready = before.nready) :
    thread.Ok nitems after := by
  obtain ⟨pc, i⟩ := thread
  cases pc <;> simp_all [Ok, crit]

section Invariant

variable
  {nitems : Int}
  {nthreads : Nat}
  {trace : List Event}
  {state : State nthreads}

/-- What holds in every state of every run. -/
structure Invariant
    (nitems : Int)
    (trace : List Event)
    (state : State nthreads) : Prop where
  putMutex :
    state.shared.putMutex + total Producer.putCrit state.producers = 1
  nreadyMutex :
    state.shared.nreadyMutex +
        total Producer.nreadyCrit state.producers + state.consumer.crit = 1
  nready :
    state.shared.nready +
        (total Producer.unannounced state.producers : Nat) +
        state.consumer.got =
      state.shared.nput
  nonneg :
    0 ≤ state.shared.nready
  counted :
    total Producer.count state.producers +
        total Producer.uncounted state.producers =
      state.shared.nput
  bounded :
    (state.shared.nput : Int) ≤ max nitems 0
  asleep :
    state.shared.sleeping = true →
      state.consumer.pc = .waiting ∧ state.shared.nready = 0
  filled :
    Filled state.shared state.shared.nput
  locals :
    ∀ thread, (state.producers thread).Ok nitems state.shared
  consumerOk :
    state.consumer.Ok nitems state.shared
  traced :
    trace = (List.range state.consumer.seen).map fun i => .found i i

namespace Invariant

theorem start :
    Invariant nitems [] (system nitems nthreads).initial := by
  have nothing :
      ∀ weight : Producer → Nat, weight Producer.initial = 0 →
        total weight (fun _ : Fin nthreads => Producer.initial) = 0 :=
    fun weight weightless => total_const_zero weightless
  constructor
  · simp only [system, nothing Producer.putCrit rfl]
    rfl
  · simp only [system, nothing Producer.nreadyCrit rfl]
    rfl
  · simp only [system, nothing Producer.unannounced rfl]
    rfl
  · exact Int.le_refl 0
  · simp only [system, nothing Producer.count rfl,
      nothing Producer.uncounted rfl]
    rfl
  · exact le_max_right nitems 0
  · intro asleep
    simp [system, Shared.initial] at asleep
  · intro i below
    exact absurd below (Nat.not_lt_zero i)
  · exact fun _ => trivial
  · trivial
  · rfl

/-- A step of a producer keeps the invariant. -/
theorem producer_step
    {thread : Fin nthreads}
    {shared : Shared}
    {next : Producer}
    (invariant : Invariant nitems trace state)
    (taken :
      producer nitems state.shared (state.producers thread) =
        some (shared, next)) :
    Invariant nitems trace
      { state with
        shared := shared
        producers := Function.update state.producers thread next } := by
  have effect :=
    producer_effect (invariant.locals thread)
      (fun asleep => (invariant.asleep asleep).2) taken
  have putTotal := total_update Producer.putCrit state.producers thread next
  have nreadyTotal :=
    total_update Producer.nreadyCrit state.producers thread next
  have unannouncedTotal :=
    total_update Producer.unannounced state.producers thread next
  have countTotal := total_update Producer.count state.producers thread next
  have uncountedTotal :=
    total_update Producer.uncounted state.producers thread next
  have putMutex := invariant.putMutex
  have nreadyMutex := invariant.nreadyMutex
  constructor
  · have := effect.putMutex
    simp only
    omega
  · have := effect.nreadyMutex
    simp only
    omega
  · have := invariant.nready
    have := effect.nready
    simp only
    omega
  · exact Int.le_trans invariant.nonneg effect.announces
  · have := invariant.counted
    have := effect.counted
    simp only
    omega
  · rcases effect.bounded with same | bounded
    · simpa only [same] using invariant.bounded
    · exact le_max_of_le_left bounded
  · intro asleep
    obtain ⟨was, same⟩ := effect.asleep asleep
    obtain ⟨pc, none⟩ := invariant.asleep was
    exact ⟨pc, same.trans none⟩
  · exact effect.filled invariant.filled
  · intro other
    by_cases isThread : other = thread
    · simpa [isThread] using effect.ok
    · simp only [Function.update_of_ne isThread]
      have bothPut :=
        pair_le_total Producer.putCrit state.producers isThread
      have bothNready :=
        pair_le_total Producer.nreadyCrit state.producers isThread
      refine (invariant.locals other).frame effect.grows
        (fun inside => effect.outsidePut (by omega))
        (fun inside => ?_)
      obtain ⟨same, sameSleeping⟩ := effect.outsideNready (by omega)
      exact ⟨same, fun asleep => sameSleeping ▸ asleep⟩
  · refine invariant.consumerOk.frame fun inside => ?_
    have member :=
      weight_le_total Producer.nreadyCrit state.producers thread
    exact (effect.outsideNready (by omega)).1
  · exact invariant.traced

/-- The slot of an announcement that has been taken is filled. -/
theorem found
    (invariant : Invariant nitems trace state)
    (pc : state.consumer.pc = .compareBuf) :
    state.shared.load state.consumer.i = some state.consumer.i := by
  have nready := invariant.nready
  have nonneg := invariant.nonneg
  simp only [Consumer.got, pc] at nready
  exact invariant.filled _ (by omega)

/-- A step of the consumer keeps the invariant. -/
theorem consumer_step
    {shared : Shared}
    {next : Consumer}
    {events : List Event}
    (invariant : Invariant nitems trace state)
    (taken :
      consumer nitems state.shared state.consumer =
        some (shared, next, events)) :
    Invariant nitems (trace ++ events)
      { state with shared := shared, consumer := next } := by
  have effect :=
    consumer_effect invariant.consumerOk invariant.asleep invariant.found
      taken
  obtain ⟨samePut, sameNput, sameBuf⟩ := effect.put
  have sameLoad : ∀ i, shared.load i = state.shared.load i := by
    intro i
    unfold Shared.load
    rw [sameBuf]
  have nreadyMutex := invariant.nreadyMutex
  constructor
  · simpa only [samePut] using invariant.putMutex
  · have := effect.nreadyMutex
    simp only
    omega
  · have := invariant.nready
    have := effect.nready
    simp only
    omega
  · exact effect.nonneg invariant.nonneg
  · simpa only [sameNput] using invariant.counted
  · simpa only [sameNput] using invariant.bounded
  · exact effect.asleep
  · intro i below
    simp only [sameNput] at below
    exact (sameLoad i).trans (invariant.filled i below)
  · intro thread
    have member :=
      weight_le_total Producer.nreadyCrit state.producers thread
    refine (invariant.locals thread).frame (Nat.le_of_eq sameNput.symm)
      (fun _ => ⟨sameNput, sameLoad⟩) (fun inside => ?_)
    obtain ⟨same, sameSleeping⟩ := effect.outside (by omega)
    exact ⟨same, fun asleep => sameSleeping ▸ asleep⟩
  · exact effect.ok
  · rcases effect.reads with ⟨rfl, same⟩ | ⟨rfl, more⟩
    · simpa only [same, List.append_nil] using invariant.traced
    · simp only [more, List.range_succ, List.map_append, List.map_cons,
        List.map_nil]
      exact congrArg (· ++ _) invariant.traced

/-- A spurious wake-up keeps the invariant. -/
theorem spurious_step
    (invariant : Invariant nitems trace state) :
    Invariant nitems trace
      { state with shared := { state.shared with sleeping := false } } where
  putMutex := invariant.putMutex
  nreadyMutex := invariant.nreadyMutex
  nready := invariant.nready
  nonneg := invariant.nonneg
  counted := invariant.counted
  bounded := invariant.bounded
  asleep asleep := by
    simp at asleep
  filled := invariant.filled
  locals thread :=
    (invariant.locals thread).frame (Nat.le_refl _)
      (fun _ => ⟨rfl, fun _ => rfl⟩)
      (fun _ => ⟨rfl, fun asleep => by simp at asleep⟩)
  consumerOk :=
    invariant.consumerOk.frame fun _ => rfl
  traced := invariant.traced

/-- The invariant holds in every run. -/
theorem of_reaches
    (reaches : (system nitems nthreads).Reaches trace state) :
    Invariant nitems trace state := by
  refine System.Reaches.invariant Invariant.start ?_ reaches
  intro trace events state next action invariant taken
  cases action with
  | producer thread =>
      obtain ⟨⟨shared, after⟩, stepped, outcome⟩ :=
        Option.map_eq_some_iff.mp taken
      simp only [Prod.mk.injEq] at outcome
      obtain ⟨rfl, rfl⟩ := outcome
      rw [List.append_nil]
      exact invariant.producer_step stepped
  | consumer =>
      obtain ⟨⟨shared, after, emitted⟩, stepped, outcome⟩ :=
        Option.map_eq_some_iff.mp taken
      simp only [Prod.mk.injEq] at outcome
      obtain ⟨rfl, rfl⟩ := outcome
      exact invariant.consumer_step stepped
  | spurious =>
      by_cases asleep : state.shared.sleeping
      · simp only [system, if_pos asleep, Option.some.injEq,
          Prod.mk.injEq] at taken
        obtain ⟨rfl, rfl⟩ := taken
        rw [List.append_nil]
        exact invariant.spurious_step
      · simp [system, asleep] at taken

end Invariant

end Invariant

end CsPrimer.PxMutex.ProdCons3
