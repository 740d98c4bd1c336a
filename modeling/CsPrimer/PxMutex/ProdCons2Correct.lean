import CsPrimer.PxMutex.ProdCons2

namespace CsPrimer.PxMutex.ProdCons2

open Library

/-!
# What the consumers of `mutex_prodcons1.c` and `mutex_prodcons2.c` find

A slot is not written again once `nput` has passed it, so the consumer can read
it without the mutex: a producer only stores in the slot at `nput`.
-/

namespace Producer

/-- Holds the mutex. -/
def crit (thread : Producer) : Nat :=
  match thread.pc with
  | .testNput | .loadNput | .loadNval _ | .store _ _ | .incrementNput
  | .storeNput _ | .incrementNval | .storeNval _ | .unlock
  | .leaveUnlock => 1
  | _ => 0

/-- Has incremented `nput` but not `nval`. -/
def half (thread : Producer) : Nat :=
  match thread.pc with
  | .incrementNval | .storeNval _ => 1
  | _ => 0

/-- Has incremented `nput` but not its own count. -/
def uncounted (thread : Producer) : Nat :=
  match thread.pc with
  | .incrementNval | .storeNval _ | .unlock | .count => 1
  | _ => 0

/-- What a producer knows about the shared data from its own steps. -/
def Ok (nitems : Int) (shared : Shared) (thread : Producer) : Prop :=
  match thread.pc with
  | .loadNput => shared.nput < nitems
  | .loadNval i => shared.nput < nitems ∧ i = shared.nput
  | .store i value =>
      shared.nput < nitems ∧ i = shared.nput ∧ value = shared.nput
  | .incrementNput =>
      shared.nput < nitems ∧ shared.load shared.nput = some shared.nput
  | .storeNput nput =>
      shared.nput < nitems ∧ shared.load shared.nput = some shared.nput ∧
        nput = shared.nput
  | .storeNval nval => nval = shared.nval
  | .leaveUnlock | .returned => nitems ≤ shared.nput
  | _ => True

end Producer

namespace Consumer

/-- Holds the mutex. -/
def crit (thread : Consumer) : Nat :=
  match thread.pc with
  | .testNput | .unlockReady | .unlockAgain => 1
  | _ => 0

/-- The number of slots it has read. -/
def seen (thread : Consumer) : Nat :=
  match thread.pc with
  | .report | .increment => thread.i + 1
  | _ => thread.i

/-- What the consumer knows about the shared data from its own steps. -/
def Ok (nitems : Int) (shared : Shared) (thread : Consumer) : Prop :=
  match thread.pc with
  | .notCreated => thread.i = 0
  | .testItems => thread.i ≤ shared.nput
  | .lock | .testNput => (thread.i : Int) < nitems ∧ thread.i ≤ shared.nput
  | .unlockAgain => (thread.i : Int) < nitems ∧ thread.i = shared.nput
  | .unlockReady | .compareBuf | .increment =>
      (thread.i : Int) < nitems ∧ thread.i < shared.nput
  | .report => False
  | .returned => nitems ≤ thread.i ∧ thread.i ≤ shared.nput

end Consumer

/-- The slots below `bound` hold their own index. -/
def Filled (shared : Shared) (bound : Nat) : Prop :=
  ∀ i, i < bound → shared.load i = some i

/-- A store in `buf` changes one slot. -/
theorem store_spec
    {before after : Shared}
    {i value : Nat}
    (stored : before.store i value = some after) :
    after.load i = some value ∧
      (∀ other, other ≠ i → after.load other = before.load other) ∧
      after = { before with buf := after.buf } := by
  unfold Shared.store at stored
  split at stored
  · rename_i inBounds
    obtain rfl := Option.some.inj stored
    refine ⟨by simp [Shared.load, inBounds], ?_, rfl⟩
    intro other different
    unfold Shared.load
    split
    · simp only [Option.some.injEq]
      exact Function.update_of_ne (fun same =>
        different (congrArg Fin.val same)) ..
    · rfl
  · simp at stored

/-- What one step of a producer changes. -/
structure ProducerEffect
    (nitems : Int)
    (before after : Shared)
    (thread next : Producer) : Prop where
  ok :
    next.Ok nitems after
  mutex :
    after.mutex + next.crit = before.mutex + thread.crit
  halves :
    after.nval + next.half + before.nput =
      before.nval + thread.half + after.nput
  counted :
    next.count + next.uncounted + before.nput =
      thread.count + thread.uncounted + after.nput
  grows :
    before.nput ≤ after.nput
  bounded :
    after.nput = before.nput ∨ (after.nput : Int) ≤ nitems
  filled :
    Filled before before.nput → Filled after after.nput
  outside :
    thread.crit = 0 →
      after.nput = before.nput ∧ after.nval = before.nval ∧
        ∀ i, after.load i = before.load i

open Producer in
/-- A producer that fills the next slot has not moved `nput` yet. -/
theorem store_effect
    {nitems : Int}
    {before after : Shared}
    {i value count : Nat}
    (ok : Producer.Ok nitems before { pc := .store i value, count := count })
    (stored : before.store i value = some after) :
    ProducerEffect nitems before after
      { pc := .store i value, count := count }
      { pc := .incrementNput, count := count } := by
  obtain ⟨less, rfl, rfl⟩ := ok
  obtain ⟨self, others, same⟩ := store_spec stored
  have sameNput : after.nput = before.nput := by rw [same]
  have sameNval : after.nval = before.nval := by rw [same]
  have sameMutex : after.mutex = before.mutex := by rw [same]
  constructor
  · exact ⟨sameNput ▸ less, sameNput ▸ self⟩
  · simp [crit, sameMutex]
  · simp [half, sameNput, sameNval]
  · simp [uncounted, sameNput]
  · exact Nat.le_of_eq sameNput.symm
  · exact .inl sameNput
  · intro filled other below
    rw [sameNput] at below
    rw [others other (Nat.ne_of_lt below)]
    exact filled other below
  · intro isOutside
    simp [crit] at isOutside

open Producer in
/-- Every step of a producer has the effect its weights account for. -/
theorem producer_effect
    {nitems : Int}
    {before after : Shared}
    {thread next : Producer}
    (ok : thread.Ok nitems before)
    (settled : thread.half = 0 → 0 < thread.crit → before.nval = before.nput)
    (taken : producer nitems before thread = some (after, next)) :
    ProducerEffect nitems before after thread next := by
  obtain ⟨pc, count⟩ := thread
  cases pc with
  | lock =>
      obtain ⟨free, available, outcome⟩ := Option.map_eq_some_iff.mp taken
      have held := semWait_eq_some.mp available
      simp only [Prod.mk.injEq] at outcome
      obtain ⟨rfl, rfl⟩ := outcome
      constructor <;> simp [Ok, crit, half, uncounted, held, Filled,
        Shared.load]
  | testNput =>
      by_cases stored : nitems ≤ before.nput
      · simp only [producer, if_pos stored, Option.some.injEq,
          Prod.mk.injEq] at taken
        obtain ⟨rfl, rfl⟩ := taken
        constructor <;> simp [Ok, crit, half, uncounted, Filled, stored]
      · simp only [producer, if_neg stored, Option.some.injEq,
          Prod.mk.injEq] at taken
        obtain ⟨rfl, rfl⟩ := taken
        constructor <;> simp [Ok, crit, half, uncounted, Filled]
        exact Int.not_le.mp stored
  | loadNval i =>
      have same : before.nval = before.nput := settled rfl Nat.one_pos
      simp only [producer, Option.some.injEq, Prod.mk.injEq] at taken
      obtain ⟨rfl, rfl⟩ := taken
      constructor <;> simp_all [Ok, crit, half, uncounted, Filled]
  | store i value =>
      obtain ⟨shared, stored, outcome⟩ := Option.map_eq_some_iff.mp taken
      simp only [Prod.mk.injEq] at outcome
      obtain ⟨rfl, rfl⟩ := outcome
      exact store_effect ok stored
  | storeNput nput =>
      obtain ⟨less, self, rfl⟩ := ok
      simp only [producer, Option.some.injEq, Prod.mk.injEq] at taken
      obtain ⟨rfl, rfl⟩ := taken
      constructor <;> simp [Ok, crit, half, uncounted]
      · omega
      · omega
      · exact less
      · intro filled other below
        rcases Nat.lt_succ_iff_lt_or_eq.mp below with earlier | rfl
        · exact filled other earlier
        · exact self
  | returned =>
      simp [producer] at taken
  | _ =>
      simp only [producer, Option.some.injEq, Prod.mk.injEq] at taken
      obtain ⟨rfl, rfl⟩ := taken
      constructor <;> simp_all [Ok, crit, half, uncounted, Filled,
        Shared.load, semPost]

/-- What one step of the consumer changes. -/
structure ConsumerEffect
    (nitems : Int)
    (before after : Shared)
    (thread next : Consumer)
    (events : List Event) : Prop where
  ok :
    next.Ok nitems after
  same :
    after = { before with mutex := after.mutex }
  mutex :
    after.mutex + next.crit = before.mutex + thread.crit
  created :
    thread.pc ≠ .notCreated ∧ next.pc ≠ .notCreated
  reads :
    (events = [] ∧ next.seen = thread.seen) ∨
      (events = [.found thread.seen thread.seen] ∧
        next.seen = thread.seen + 1)

open Consumer in
/-- Every step of the consumer has the effect its weights account for. -/
theorem consumer_effect
    {program : Program}
    {nitems : Int}
    {before after : Shared}
    {thread next : Consumer}
    {events : List Event}
    (ok : thread.Ok nitems before)
    (joined : program = .prodCons1 → thread.pc ≠ .notCreated →
      nitems ≤ before.nput)
    (filled : Filled before before.nput)
    (taken :
      consumer program nitems before thread = some (after, next, events)) :
    ConsumerEffect nitems before after thread next events := by
  obtain ⟨pc, i⟩ := thread
  cases pc with
  | testItems =>
      by_cases more : i < nitems
      · cases program with
        | prodCons1 =>
            have stored := joined rfl (by simp)
            simp only [consumer, if_pos more, Option.some.injEq,
              Prod.mk.injEq] at taken
            obtain ⟨rfl, rfl, rfl⟩ := taken
            constructor <;> simp_all [Ok, crit, seen]
            omega
        | prodCons2 =>
            simp only [consumer, if_pos more, Option.some.injEq,
              Prod.mk.injEq] at taken
            obtain ⟨rfl, rfl, rfl⟩ := taken
            constructor <;> simp_all [Ok, crit, seen]
      · simp only [consumer, if_neg more, Option.some.injEq,
          Prod.mk.injEq] at taken
        obtain ⟨rfl, rfl, rfl⟩ := taken
        constructor <;> simp_all [Ok, crit, seen]
  | lock =>
      obtain ⟨free, available, outcome⟩ := Option.map_eq_some_iff.mp taken
      have held := semWait_eq_some.mp available
      simp only [Prod.mk.injEq] at outcome
      obtain ⟨rfl, rfl, rfl⟩ := outcome
      constructor <;> simp_all [Ok, crit, seen]
  | testNput =>
      by_cases ready : i < before.nput
      · simp only [consumer, if_pos ready, Option.some.injEq,
          Prod.mk.injEq] at taken
        obtain ⟨rfl, rfl, rfl⟩ := taken
        constructor <;> simp_all [Ok, crit, seen]
      · simp only [consumer, if_neg ready, Option.some.injEq,
          Prod.mk.injEq] at taken
        obtain ⟨rfl, rfl, rfl⟩ := taken
        constructor <;> simp_all [Ok, crit, seen]
        omega
  | compareBuf =>
      have found : before.load i = some i := filled i ok.2
      simp only [consumer, found, Option.map_some, ne_eq,
        not_true_eq_false, if_false, Option.some.injEq,
        Prod.mk.injEq] at taken
      obtain ⟨rfl, rfl, rfl⟩ := taken
      constructor <;> simp_all [Ok, crit, seen]
  | report =>
      exact ok.elim
  | notCreated | returned =>
      simp [consumer] at taken
  | _ =>
      simp only [consumer, Option.some.injEq, Prod.mk.injEq] at taken
      obtain ⟨rfl, rfl, rfl⟩ := taken
      constructor <;> simp_all [Ok, crit, seen, semPost] <;> omega

/-- What a producer knows survives the steps of the other threads. -/
theorem Producer.Ok.frame
    {nitems : Int}
    {before after : Shared}
    {thread : Producer}
    (ok : thread.Ok nitems before)
    (grows : before.nput ≤ after.nput)
    (inside :
      0 < thread.crit →
        after.nput = before.nput ∧ after.nval = before.nval ∧
          ∀ i, after.load i = before.load i) :
    thread.Ok nitems after := by
  obtain ⟨pc, count⟩ := thread
  cases pc with
  | leaveUnlock | returned =>
      exact Int.le_trans ok (Int.ofNat_le.mpr grows)
  | _ =>
      simp_all [Ok, crit]

/-- What the consumer knows survives the steps of the producers. -/
theorem Consumer.Ok.frame
    {nitems : Int}
    {before after : Shared}
    {thread : Consumer}
    (ok : thread.Ok nitems before)
    (grows : before.nput ≤ after.nput)
    (inside : 0 < thread.crit → after.nput = before.nput) :
    thread.Ok nitems after := by
  obtain ⟨pc, i⟩ := thread
  cases pc <;> simp_all [Ok, crit] <;> omega

section Invariant

variable
  {program : Program}
  {nitems : Int}
  {nthreads : Nat}
  {trace : List Event}
  {state : State nthreads}

/-- What holds in every state of every run. -/
structure Invariant
    (program : Program)
    (nitems : Int)
    (trace : List Event)
    (state : State nthreads) : Prop where
  mutex :
    state.shared.mutex + total Producer.crit state.producers +
      state.consumer.crit = 1
  halves :
    state.shared.nval + total Producer.half state.producers =
      state.shared.nput
  counted :
    total Producer.count state.producers +
        total Producer.uncounted state.producers =
      state.shared.nput
  bounded :
    (state.shared.nput : Int) ≤ max nitems 0
  filled :
    Filled state.shared state.shared.nput
  locals :
    ∀ thread, (state.producers thread).Ok nitems state.shared
  consumerOk :
    state.consumer.Ok nitems state.shared
  joined :
    program = .prodCons1 → state.consumer.pc ≠ .notCreated →
      nitems ≤ state.shared.nput
  created :
    state.consumer.pc = .notCreated → program = .prodCons1
  traced :
    trace = (List.range state.consumer.seen).map fun i => .found i i

namespace Invariant

theorem start :
    Invariant program nitems [] (system program nitems nthreads).initial := by
  have nothing :
      ∀ weight : Producer → Nat, weight Producer.initial = 0 →
        total weight (fun _ : Fin nthreads => Producer.initial) = 0 :=
    fun weight weightless => total_const_zero weightless
  constructor
  · simp only [system, nothing Producer.crit rfl]
    cases program <;> rfl
  · simp only [system, nothing Producer.half rfl]
    rfl
  · simp only [system, nothing Producer.count rfl,
      nothing Producer.uncounted rfl]
    rfl
  · exact le_max_right nitems 0
  · intro i below
    exact absurd below (Nat.not_lt_zero i)
  · exact fun _ => trivial
  · cases program with
    | prodCons1 =>
        rfl
    | prodCons2 =>
        exact Nat.le_refl 0
  · rintro rfl isCreated
    exact absurd rfl isCreated
  · intro notCreated
    cases program with
    | prodCons1 =>
        rfl
    | prodCons2 =>
        cases notCreated
  · cases program <;> rfl

/-- A producer that holds the mutex has both counters or only one of them. -/
theorem settled
    {thread : Fin nthreads}
    (invariant : Invariant program nitems trace state)
    (whole : (state.producers thread).half = 0)
    (inside : 0 < (state.producers thread).crit) :
    state.shared.nval = state.shared.nput := by
  have exclusive : total Producer.crit state.producers ≤ 1 := by
    have := invariant.mutex
    omega
  have halfTotal :
      total Producer.half state.producers =
        (state.producers thread).half := by
    refine total_eq_of_exclusive exclusive inside ?_
    rintro ⟨pc, count⟩ outside
    cases pc <;> simp_all [Producer.crit, Producer.half]
  have := invariant.halves
  omega

/-- A step of a producer keeps the invariant. -/
theorem producer_step
    {thread : Fin nthreads}
    {shared : Shared}
    {next : Producer}
    (invariant : Invariant program nitems trace state)
    (taken :
      producer nitems state.shared (state.producers thread) =
        some (shared, next)) :
    Invariant program nitems trace
      { state with
        shared := shared
        producers := Function.update state.producers thread next } := by
  have effect :=
    producer_effect (invariant.locals thread) invariant.settled taken
  have critTotal := total_update Producer.crit state.producers thread next
  have halfTotal := total_update Producer.half state.producers thread next
  have countTotal := total_update Producer.count state.producers thread next
  have uncountedTotal :=
    total_update Producer.uncounted state.producers thread next
  have mutex := invariant.mutex
  constructor
  · have := effect.mutex
    simp only
    omega
  · have := invariant.halves
    have := effect.halves
    simp only
    omega
  · have := invariant.counted
    have := effect.counted
    simp only
    omega
  · rcases effect.bounded with same | bounded
    · simpa only [same] using invariant.bounded
    · exact le_max_of_le_left bounded
  · exact effect.filled invariant.filled
  · intro other
    by_cases isThread : other = thread
    · simpa [isThread] using effect.ok
    · simp only [Function.update_of_ne isThread]
      have both := pair_le_total Producer.crit state.producers isThread
      exact (invariant.locals other).frame effect.grows
        fun inside => effect.outside (by omega)
  · refine invariant.consumerOk.frame effect.grows fun inside => ?_
    have member := weight_le_total Producer.crit state.producers thread
    exact (effect.outside (by omega)).1
  · intro isProgram isCreated
    have before := invariant.joined isProgram isCreated
    exact Int.le_trans before (Int.ofNat_le.mpr effect.grows)
  · exact invariant.created
  · exact invariant.traced

/-- A step of the consumer keeps the invariant. -/
theorem consumer_step
    {shared : Shared}
    {next : Consumer}
    {events : List Event}
    (invariant : Invariant program nitems trace state)
    (taken :
      consumer program nitems state.shared state.consumer =
        some (shared, next, events)) :
    Invariant program nitems (trace ++ events)
      { state with shared := shared, consumer := next } := by
  have effect :=
    consumer_effect invariant.consumerOk invariant.joined invariant.filled
      taken
  have sameNput : shared.nput = state.shared.nput := by rw [effect.same]
  have sameNval : shared.nval = state.shared.nval := by rw [effect.same]
  have sameLoad : ∀ i, shared.load i = state.shared.load i := by
    intro i
    unfold Shared.load
    rw [effect.same]
  have mutex := invariant.mutex
  constructor
  · have := effect.mutex
    simp only
    omega
  · simpa only [sameNput, sameNval] using invariant.halves
  · simpa only [sameNput] using invariant.counted
  · simpa only [sameNput] using invariant.bounded
  · intro i below
    simp only [sameNput] at below
    exact (sameLoad i).trans (invariant.filled i below)
  · intro thread
    exact (invariant.locals thread).frame (Nat.le_of_eq sameNput.symm)
      fun _ => ⟨sameNput, sameNval, sameLoad⟩
  · exact effect.ok
  · intro isProgram _
    simpa only [sameNput] using
      invariant.joined isProgram effect.created.1
  · intro notCreated
    exact absurd notCreated effect.created.2
  · rcases effect.reads with ⟨rfl, same⟩ | ⟨rfl, more⟩
    · simpa only [same, List.append_nil] using invariant.traced
    · simp only [more, List.range_succ, List.map_append, List.map_cons,
        List.map_nil]
      exact congrArg (· ++ _) invariant.traced

/-- `main` creates the consumer when everything has been stored. -/
theorem create_step
    (invariant : Invariant program nitems trace state)
    (threads : 0 < nthreads)
    (notCreated : state.consumer.pc = .notCreated)
    (returned : ProducersReturned state) :
    Invariant program nitems trace
      { state with
        consumer := { state.consumer with pc := .testItems } } := by
  have stored : nitems ≤ state.shared.nput := by
    have ok := invariant.locals ⟨0, threads⟩
    simpa only [Producer.Ok, returned ⟨0, threads⟩] using ok
  have isZero : state.consumer.i = 0 := by
    simpa only [Consumer.Ok, notCreated] using invariant.consumerOk
  constructor
  · simpa [Consumer.crit, notCreated] using invariant.mutex
  · exact invariant.halves
  · exact invariant.counted
  · exact invariant.bounded
  · exact invariant.filled
  · exact invariant.locals
  · simp [Consumer.Ok, isZero]
  · exact fun _ _ => stored
  · intro absurdly
    cases absurdly
  · simpa [Consumer.seen, notCreated] using invariant.traced

/-- The invariant holds in every run. -/
theorem of_reaches
    (threads : 0 < nthreads)
    (reaches : (system program nitems nthreads).Reaches trace state) :
    Invariant program nitems trace state := by
  refine System.Reaches.invariant Invariant.start ?_ reaches
  intro trace events state next action invariant taken
  cases action with
  | producer thread =>
      obtain ⟨⟨shared, after⟩, stepped, outcome⟩ :=
        Option.map_eq_some_iff.mp taken
      simp only [Prod.mk.injEq] at outcome
      obtain ⟨rfl, rfl⟩ := outcome
      rw [List.append_nil]
      exact invariant.producer_step stepped
  | consumer =>
      obtain ⟨⟨shared, after, emitted⟩, stepped, outcome⟩ :=
        Option.map_eq_some_iff.mp taken
      simp only [Prod.mk.injEq] at outcome
      obtain ⟨rfl, rfl⟩ := outcome
      exact invariant.consumer_step stepped
  | create =>
      simp only [system, Option.ite_none_right_eq_some, Option.some.injEq,
        Prod.mk.injEq] at taken
      obtain ⟨⟨notCreated, returned⟩, rfl, rfl⟩ := taken
      rw [List.append_nil]
      exact invariant.create_step threads notCreated returned

end Invariant

end Invariant

section Runs

variable
  {program : Program}
  {nitems : Int}
  {nthreads : Nat}
  {trace : List Event}
  {state : State nthreads}

/-- A producer that cannot step waits for the mutex, or has returned. -/
theorem producer_eq_none
    {shared : Shared}
    {thread : Producer}
    (small : nitems ≤ maxNItems)
    (ok : thread.Ok nitems shared)
    (blocked : producer nitems shared thread = none) :
    thread.pc = .returned ∨ (thread.pc = .lock ∧ shared.mutex = 0) := by
  obtain ⟨pc, count⟩ := thread
  cases pc with
  | lock =>
      simpa [producer, semWait_eq_none] using blocked
  | testNput =>
      by_cases stored : nitems ≤ shared.nput <;>
        simp [producer, stored] at blocked
  | store i value =>
      obtain ⟨less, rfl, rfl⟩ := ok
      have inBounds : shared.nput < maxNItems := by omega
      simp [producer, Shared.store, inBounds] at blocked
  | returned =>
      exact .inl rfl
  | _ =>
      simp [producer] at blocked

/-- A consumer that cannot step waits, is still to be created, or is done. -/
theorem consumer_eq_none
    {shared : Shared}
    {thread : Consumer}
    (small : nitems ≤ maxNItems)
    (ok : thread.Ok nitems shared)
    (blocked : consumer program nitems shared thread = none) :
    thread.pc = .returned ∨ thread.pc = .notCreated ∨
      (thread.pc = .lock ∧ shared.mutex = 0) := by
  obtain ⟨pc, i⟩ := thread
  cases pc with
  | testItems =>
      by_cases more : i < nitems <;> cases program <;>
        simp [consumer, more] at blocked
  | lock =>
      simpa [consumer, semWait_eq_none] using blocked
  | testNput =>
      by_cases ready : i < shared.nput <;>
        simp [consumer, ready] at blocked
  | compareBuf =>
      have less : (i : Int) < nitems := ok.1
      have inBounds : i < maxNItems := by omega
      simp [consumer, Shared.load, inBounds] at blocked
  | report =>
      exact ok.elim
  | returned =>
      exact .inl rfl
  | notCreated =>
      exact .inr (.inl rfl)
  | _ =>
      simp [consumer] at blocked

/-- With no step left all threads have returned. -/
theorem Invariant.all_returned
    (invariant : Invariant program nitems trace state)
    (small : nitems ≤ maxNItems)
    (stuck : ∀ action,
      (system program nitems nthreads).step? state action = none) :
    AllReturned state := by
  have producersBlocked :
      ∀ thread, (state.producers thread).pc = .returned ∨
        ((state.producers thread).pc = .lock ∧ state.shared.mutex = 0) := by
    intro thread
    refine producer_eq_none small (invariant.locals thread) ?_
    simpa [system] using stuck (.producer thread)
  have consumerBlocked :=
    consumer_eq_none small invariant.consumerOk
      (by simpa [system] using stuck .consumer)
  have noCrit : total Producer.crit state.producers = 0 := by
    refine total_eq_zero_iff.mpr fun thread => ?_
    rcases producersBlocked thread with pc | ⟨pc, -⟩ <;>
      simp [Producer.crit, pc]
  have notCrit : state.consumer.crit = 0 := by
    rcases consumerBlocked with pc | pc | ⟨pc, -⟩ <;>
      simp [Consumer.crit, pc]
  have mutex := invariant.mutex
  have producersDone : ProducersReturned state := by
    intro thread
    rcases producersBlocked thread with pc | ⟨-, taken⟩
    · exact pc
    · omega
  refine ⟨producersDone, ?_⟩
  rcases consumerBlocked with pc | notCreated | ⟨-, taken⟩
  · exact pc
  · have created := stuck .create
    simp [system, notCreated, producersDone] at created
  · omega

/--
`mutex_prodcons1` and `mutex_prodcons2`, for every number of items that fits
`buf`, every number of producers and every interleaving: the consumer finds
`i` in slot `i`, where no producer is about to store when it reads without the
mutex; it only goes round in `consumer_wait` while a producer has still to
return; no thread is stuck, and in the end everything has been stored, counted
and read.
-/
theorem mutexProdCons_correct
    (program : Program)
    (nitems : Int)
    (small : nitems ≤ maxNItems)
    {nthreads : Nat}
    (threads : 0 < nthreads)
    {trace : List Event}
    {state : State nthreads}
    (reaches : (system program nitems nthreads).Reaches trace state) :
    trace = (List.range state.consumer.seen).map (fun i => .found i i) ∧
      (state.consumer.pc = .compareBuf →
        state.shared.load state.consumer.i = some state.consumer.i ∧
          ∀ thread i value, (state.producers thread).pc = .store i value →
            i ≠ state.consumer.i) ∧
      (state.consumer.pc = .unlockAgain → ¬ ProducersReturned state) ∧
      (AllReturned state ∨
        ∃ action, (system program nitems nthreads).Enabled state action) ∧
      (AllReturned state →
        (state.consumer.seen : Int) = max nitems 0 ∧
          (total Producer.count state.producers : Int) = max nitems 0) := by
  have invariant := Invariant.of_reaches threads reaches
  have consumerOk := invariant.consumerOk
  refine ⟨invariant.traced, ?_, ?_, ?_, ?_⟩
  · intro isComparing
    simp only [Consumer.Ok, isComparing] at consumerOk
    refine ⟨invariant.filled _ consumerOk.2, ?_⟩
    intro thread i value isStoring
    have ok := invariant.locals thread
    simp only [Producer.Ok, isStoring] at ok
    omega
  · intro again returned
    have stored := invariant.locals ⟨0, threads⟩
    simp only [Producer.Ok, returned ⟨0, threads⟩] at stored
    simp only [Consumer.Ok, again] at consumerOk
    omega
  · by_cases stuck :
        ∀ action, (system program nitems nthreads).step? state action = none
    · exact .inl (invariant.all_returned small stuck)
    · obtain ⟨action, enabled⟩ := not_forall.mp stuck
      exact .inr ⟨action, Option.isSome_iff_ne_none.mpr enabled⟩
  · rintro ⟨producersDone, isDone⟩
    have stored := invariant.locals ⟨0, threads⟩
    simp only [Producer.Ok, producersDone ⟨0, threads⟩] at stored
    have uncounted : total Producer.uncounted state.producers = 0 :=
      total_eq_zero_iff.mpr fun thread => by
        simp [Producer.uncounted, producersDone thread]
    have counted := invariant.counted
    have bounded := invariant.bounded
    simp only [Consumer.Ok, isDone] at consumerOk
    simp only [Consumer.seen, isDone]
    exact ⟨by omega, by omega⟩

/--
The consumer looks in vain for a first item, and compares while two producers
go on with two items each.
-/
theorem mutexProdCons_correct_fourItems :
    ∃ trace state,
      (system .prodCons2 4 2).Reaches trace state ∧
        AllReturned state ∧
        trace = [.found 0 0, .found 1 1, .found 2 2, .found 3 3] ∧
        total Producer.count state.producers = 4 := by
  obtain ⟨trace, state, reaches, returned⟩ :=
    System.Reaches.exists_of_run?
      (by decide +kernel :
        ((system .prodCons2 4 2).run? (system .prodCons2 4 2).initial
          ([(.consumer, 4), (.producer 0, 10), (.consumer, 6),
            (.producer 1, 10), (.consumer, 3), (.producer 0, 11),
            (.producer 1, 12), (.consumer, 3), (.producer 1, 2),
            (.producer 0, 1), (.producer 1, 1), (.consumer, 12),
            (.producer 0, 3)].flatMap
            fun (action, count) => List.replicate count action)).any
          (fun outcome => decide (AllReturned outcome.1)) = true)
  have allReturned : AllReturned state := of_decide_eq_true returned
  obtain ⟨found, -, -, -, final⟩ :=
    mutexProdCons_correct .prodCons2 4 (by decide) (by decide) reaches
  obtain ⟨seen, counts⟩ := final allReturned
  have allSeen : state.consumer.seen = 4 := by omega
  refine ⟨trace, state, reaches, allReturned, ?_, by omega⟩
  rw [found, allSeen]
  rfl

end Runs

end CsPrimer.PxMutex.ProdCons2
