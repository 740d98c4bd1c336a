import CsPrimer.Library.TransitionSystem
import CsPrimer.PxSem.Producer

namespace CsPrimer.PxSem.ProdCons4

open Library

/-!
# `sem_prodcons4.c`: many producers and many consumers

A consumer that finds every item consumed hands the `nstored` token it took to
the next consumer before it returns; a producer that finds every item stored
posts an extra `nstored` token to start that relay.
-/

/-- What a producer posts before it returns. -/
def exits : ExitPath where
  posts := [.nstored, .mutex, .nempty]
  mutexOnce := rfl
  nemptyOnce := rfl

/-- `shared`. -/
structure Shared where
  ring : Ring
  nget : Nat
  ngetval : Nat

/-- `shared` after the `sem_init` calls of `main`. -/
def Shared.initial : Shared where
  ring := Ring.initial
  nget := 0
  ngetval := 0

/-- Where a consumer is, with the values it has loaded. -/
inductive ConsumerPc where
  | waitNstored
  | waitMutex
  | testNget
  | loadIndex
  | compareBuf (i : Fin nbuff)
  | compareNgetval (i : Fin nbuff) (value : Nat)
  | report (i : Fin nbuff)
  | loadNget
  | storeNget (nget : Nat)
  | loadNgetval
  | storeNgetval (ngetval : Nat)
  | postMutex
  | postNempty
  | count
  | leaveNstored
  | leaveMutex
  | returned
  deriving Repr, DecidableEq

/-- A consumer thread. -/
structure Consumer where
  pc : ConsumerPc
  count : Nat
  deriving Repr, DecidableEq

def Consumer.initial : Consumer where
  pc := .waitNstored
  count := 0

/-- `producer`. -/
def producer
    (nitems : Int)
    (shared : Shared)
    (thread : Producer) : Option (Shared × Producer × List Event) :=
  (producerStep exits nitems shared.ring thread).map
    fun (ring, next, events) => ({ shared with ring := ring }, next, events)

/-- `sem_post` on a semaphore of `shared`. -/
def Shared.post (shared : Shared) (semaphore : Semaphore) : Shared :=
  { shared with ring := shared.ring.post semaphore }

/-- One step of `consumer`. -/
def consumer
    (nitems : Int)
    (shared : Shared)
    (thread : Consumer) : Option (Shared × Consumer × List Event) :=
  match thread.pc with
  | .waitNstored =>
      (semWait shared.ring.nstored).map fun tokens =>
        ({ shared with ring := { shared.ring with nstored := tokens } },
          { thread with pc := .waitMutex }, [])
  | .waitMutex =>
      (semWait shared.ring.mutex).map fun tokens =>
        ({ shared with ring := { shared.ring with mutex := tokens } },
          { thread with pc := .testNget }, [])
  | .testNget =>
      if nitems ≤ shared.nget then
        some (shared, { thread with pc := .leaveNstored }, [])
      else
        some (shared, { thread with pc := .loadIndex }, [])
  | .loadIndex =>
      some (shared,
        { thread with pc := .compareBuf (slot nbuff shared.nget) }, [])
  | .compareBuf i =>
      some (shared,
        { thread with pc := .compareNgetval i (shared.ring.buf i) },
        [.consumed i (shared.ring.buf i)])
  | .compareNgetval i value =>
      if value ≠ shared.ngetval then
        some (shared, { thread with pc := .report i }, [])
      else
        some (shared, { thread with pc := .loadNget }, [])
  | .report i =>
      some (shared, { thread with pc := .loadNget },
        [.error i (shared.ring.buf i)])
  | .loadNget =>
      some (shared, { thread with pc := .storeNget shared.nget }, [])
  | .storeNget nget =>
      some ({ shared with nget := nget + 1 },
        { thread with pc := .loadNgetval }, [])
  | .loadNgetval =>
      some (shared, { thread with pc := .storeNgetval shared.ngetval }, [])
  | .storeNgetval ngetval =>
      some ({ shared with ngetval := ngetval + 1 },
        { thread with pc := .postMutex }, [])
  | .postMutex =>
      some (shared.post .mutex, { thread with pc := .postNempty }, [])
  | .postNempty =>
      some (shared.post .nempty, { thread with pc := .count }, [])
  | .count =>
      some (shared, { pc := .waitNstored, count := thread.count + 1 }, [])
  | .leaveNstored =>
      some (shared.post .nstored, { thread with pc := .leaveMutex }, [])
  | .leaveMutex =>
      some (shared.post .mutex, { thread with pc := .returned }, [])
  | .returned =>
      none

/-- A consumer has executed its `return`. -/
def Consumer.Returned (thread : Consumer) : Prop :=
  thread.pc = .returned

instance (thread : Consumer) : Decidable thread.Returned :=
  inferInstanceAs (Decidable (thread.pc = .returned))

/-- All threads of one run of the program. -/
structure State (nproducers nconsumers : Nat) where
  shared : Shared
  producers : Fin nproducers → Producer
  consumers : Fin nconsumers → Consumer

/-- The scheduler picks the thread that takes the next step. -/
inductive Action (nproducers nconsumers : Nat) where
  | producer (thread : Fin nproducers)
  | consumer (thread : Fin nconsumers)
  deriving Repr, DecidableEq

/-- The interleavings of the threads `main` creates. -/
def system (nitems : Int) (nproducers nconsumers : Nat) :
    System (State nproducers nconsumers) (Action nproducers nconsumers)
      Event where
  initial :=
    { shared := Shared.initial
      producers := fun _ => Producer.initial
      consumers := fun _ => Consumer.initial }
  step? state action :=
    match action with
    | .producer thread =>
        (producer nitems state.shared (state.producers thread)).map
          fun (shared, next, events) =>
            ({ state with
              shared := shared
              producers := Function.update state.producers thread next },
              events)
    | .consumer thread =>
        (consumer nitems state.shared (state.consumers thread)).map
          fun (shared, next, events) =>
            ({ state with
              shared := shared
              consumers := Function.update state.consumers thread next },
              events)

/-- Every thread has returned. -/
def AllReturned
    {nproducers nconsumers : Nat}
    (state : State nproducers nconsumers) : Prop :=
  (∀ thread, (state.producers thread).Returned) ∧
    ∀ thread, (state.consumers thread).Returned

instance
    {nproducers nconsumers : Nat}
    (state : State nproducers nconsumers) :
    Decidable (AllReturned state) :=
  inferInstanceAs (Decidable (_ ∧ _))

namespace Consumer

/-- Holds `mutex`. -/
def crit (thread : Consumer) : Nat :=
  match thread.pc with
  | .waitNstored | .waitMutex | .postNempty | .count | .returned => 0
  | _ => 1

/-- Has taken an `nstored` token for an item it has not counted in `nget`. -/
def token (thread : Consumer) : Nat :=
  match thread.pc with
  | .waitMutex | .testNget | .loadIndex | .compareBuf _
  | .compareNgetval _ _ | .report _ | .loadNget | .storeNget _
  | .leaveNstored => 1
  | _ => 0

/-- Has consumed an item whose `nempty` token it has not posted. -/
def debt (thread : Consumer) : Nat :=
  match thread.pc with
  | .loadNgetval | .storeNgetval _ | .postMutex | .postNempty => 1
  | _ => 0

/-- Has incremented `nget` but not `ngetval`. -/
def lag (thread : Consumer) : Nat :=
  match thread.pc with
  | .loadNgetval | .storeNgetval _ => 1
  | _ => 0

/-- Has read an item but not incremented `nget`. -/
def seen (thread : Consumer) : Nat :=
  match thread.pc with
  | .compareNgetval _ _ | .report _ | .loadNget | .storeNget _ => 1
  | _ => 0

/-- Has incremented `nget` but not its own count. -/
def uncounted (thread : Consumer) : Nat :=
  match thread.pc with
  | .loadNgetval | .storeNgetval _ | .postMutex | .postNempty | .count => 1
  | _ => 0

/-- What a consumer knows about `shared` from its own steps. -/
def Ok (nitems : Int) (shared : Shared) (thread : Consumer) : Prop :=
  match thread.pc with
  | .loadIndex | .loadNget => shared.nget < nitems
  | .compareBuf i =>
      shared.nget < nitems ∧ i = slot nbuff shared.nget
  | .compareNgetval i value =>
      shared.nget < nitems ∧ i = slot nbuff shared.nget ∧
        value = shared.nget
  | .report _ => False
  | .storeNget nget => shared.nget < nitems ∧ nget = shared.nget
  | .storeNgetval ngetval => ngetval = shared.ngetval
  | .leaveNstored | .leaveMutex | .returned => nitems ≤ shared.nget
  | _ => True

theorem lag_of_outside
    (thread : Consumer)
    (outside : thread.crit = 0) :
    thread.lag = 0 := by
  obtain ⟨pc, count⟩ := thread
  cases pc <;> simp_all [crit, lag]

theorem seen_of_outside
    (thread : Consumer)
    (outside : thread.crit = 0) :
    thread.seen = 0 := by
  obtain ⟨pc, count⟩ := thread
  cases pc <;> simp_all [crit, seen]

/-- What a consumer knows survives the steps of the other threads. -/
theorem Ok.frame
    {nitems : Int}
    {before after : Shared}
    {thread : Consumer}
    (ok : thread.Ok nitems before)
    (grows : before.nget ≤ after.nget)
    (inside :
      0 < thread.crit →
        after.nget = before.nget ∧ after.ngetval = before.ngetval) :
    thread.Ok nitems after := by
  obtain ⟨pc, count⟩ := thread
  cases pc with
  | returned =>
      exact Int.le_trans ok (Int.ofNat_le.mpr grows)
  | _ =>
      simp_all [Ok, crit]

end Consumer

/-- What one step of a consumer changes. -/
structure ConsumerEffect
    (nitems : Int)
    (before after : Shared)
    (thread next : Consumer)
    (events : List Event) : Prop where
  ok :
    next.Ok nitems after
  buf :
    after.ring.buf = before.ring.buf
  nput :
    after.ring.nput = before.ring.nput
  nputval :
    after.ring.nputval = before.ring.nputval
  mutex :
    after.ring.mutex + next.crit = before.ring.mutex + thread.crit
  nempty :
    after.ring.nempty + next.debt + before.nget =
      before.ring.nempty + thread.debt + after.nget
  nstored :
    after.ring.nstored + after.nget + next.token =
      before.ring.nstored + before.nget + thread.token
  ngetval :
    after.nget + before.ngetval + thread.lag =
      before.nget + after.ngetval + next.lag
  counted :
    next.count + next.uncounted + before.nget =
      thread.count + thread.uncounted + after.nget
  grows :
    before.nget ≤ after.nget
  outside :
    thread.crit = 0 → after.nget = before.nget ∧ after.ngetval = before.ngetval
  reads :
    (events = [] ∧ after.nget + next.seen = before.nget + thread.seen) ∨
      (events = [.consumed (slot nbuff before.nget) before.nget] ∧
        after.nget = before.nget ∧
        before.nget < nitems ∧
        thread.crit = 1 ∧
        thread.token = 1 ∧
        thread.seen = 0 ∧
        next.seen = 1)

open Consumer in
/--
Every step of a consumer has the effect its weights account for, as long as
the next item is in its slot.
-/
theorem consumer_effect
    {nitems : Int}
    {before after : Shared}
    {thread next : Consumer}
    {events : List Event}
    (ok : thread.Ok nitems before)
    (inSlot :
      thread.crit = 1 → thread.token = 1 → before.nget < nitems →
        before.ring.buf (slot nbuff before.nget) = before.nget)
    (current :
      thread.crit = 1 → thread.lag = 0 → before.ngetval = before.nget)
    (taken :
      consumer nitems before thread = some (after, next, events)) :
    ConsumerEffect nitems before after thread next events := by
  obtain ⟨pc, count⟩ := thread
  cases pc with
  | waitNstored | waitMutex =>
      obtain ⟨tokens, available, outcome⟩ := Option.map_eq_some_iff.mp taken
      have held := semWait_eq_some.mp available
      simp only [Prod.mk.injEq] at outcome
      obtain ⟨rfl, rfl, rfl⟩ := outcome
      constructor <;> simp [Ok, crit, token, debt, lag, seen, uncounted,
        held] <;> omega
  | testNget =>
      by_cases finished : nitems ≤ before.nget
      · simp only [consumer, if_pos finished, Option.some.injEq,
          Prod.mk.injEq] at taken
        obtain ⟨rfl, rfl, rfl⟩ := taken
        constructor <;> simp [Ok, crit, token, debt, lag, seen, uncounted,
          finished]
      · simp only [consumer, if_neg finished, Option.some.injEq,
          Prod.mk.injEq] at taken
        obtain ⟨rfl, rfl, rfl⟩ := taken
        constructor <;> simp [Ok, crit, token, debt, lag, seen, uncounted]
        exact Int.not_le.mp finished
  | compareBuf i =>
      obtain ⟨less, rfl⟩ := ok
      have found := inSlot rfl rfl less
      simp only [consumer, found, Option.some.injEq, Prod.mk.injEq] at taken
      obtain ⟨rfl, rfl, rfl⟩ := taken
      constructor <;> simp [Ok, crit, token, debt, lag, seen, uncounted,
        less]
  | compareNgetval i value =>
      obtain ⟨less, rfl, rfl⟩ := ok
      have sameValue := current rfl rfl
      simp only [consumer, sameValue, ne_eq, not_true_eq_false, if_false,
        Option.some.injEq, Prod.mk.injEq] at taken
      obtain ⟨rfl, rfl, rfl⟩ := taken
      constructor <;> simp [Ok, crit, token, debt, lag, seen, uncounted,
        less]
  | report i =>
      exact ok.elim
  | returned =>
      simp [consumer] at taken
  | _ =>
      simp only [consumer, Option.some.injEq, Prod.mk.injEq] at taken
      obtain ⟨rfl, rfl, rfl⟩ := taken
      constructor <;> simp_all [Ok, crit, token, debt, lag, seen,
        uncounted, Shared.post, Ring.post, semPost] <;> omega

/-- A consumer that cannot step waits for a token, or has returned. -/
theorem consumer_eq_none
    {nitems : Int}
    {shared : Shared}
    {thread : Consumer}
    (blocked : consumer nitems shared thread = none) :
    thread.Returned ∨
      (thread.pc = .waitNstored ∧ shared.ring.nstored = 0) ∨
      (thread.pc = .waitMutex ∧ shared.ring.mutex = 0) := by
  obtain ⟨pc, count⟩ := thread
  cases pc with
  | waitNstored =>
      simpa [consumer, semWait_eq_none, Consumer.Returned] using blocked
  | waitMutex =>
      simpa [consumer, semWait_eq_none, Consumer.Returned] using blocked
  | testNget =>
      by_cases finished : nitems ≤ shared.nget <;>
        simp [consumer, finished] at blocked
  | compareNgetval i value =>
      by_cases same : value = shared.ngetval <;>
        simp [consumer, same] at blocked
  | returned =>
      exact .inl rfl
  | _ =>
      simp [consumer] at blocked

section Invariant

variable {nitems : Int} {nproducers nconsumers : Nat}
  {trace : List Event} {state : State nproducers nconsumers}

/-- What the producers need to know of the consumers. -/
def environment (state : State nproducers nconsumers) : Environment where
  crit := total Consumer.crit state.consumers
  debt := total Consumer.debt state.consumers
  token := total Consumer.token state.consumers
  got := state.shared.nget
  seen := total Consumer.seen state.consumers

/-- What holds in every state of every run. -/
structure Invariant
    (nitems : Int)
    (trace : List Event)
    (state : State nproducers nconsumers) : Prop where
  producing :
    Producing exits nitems (environment state) trace state.shared.ring
      state.producers
  ngetval :
    state.shared.nget =
      state.shared.ngetval + total Consumer.lag state.consumers
  counted :
    total Consumer.count state.consumers +
        total Consumer.uncounted state.consumers =
      state.shared.nget
  locals :
    ∀ thread, (state.consumers thread).Ok nitems state.shared

namespace Invariant

open Consumer

theorem start :
    Invariant nitems [] (system nitems nproducers nconsumers).initial := by
  have nothing :
      ∀ weight : Consumer → Nat, weight Consumer.initial = 0 →
        total weight (fun _ : Fin nconsumers => Consumer.initial) = 0 :=
    fun weight weightless => total_const_zero weightless
  constructor
  · have none :
        environment (system nitems nproducers nconsumers).initial =
          ⟨0, 0, 0, 0, 0⟩ := by
      simp only [environment, system, nothing crit rfl, nothing debt rfl,
        nothing token rfl, nothing seen rfl]
      rfl
    rw [none]
    exact Producing.start
  · simp only [system, nothing lag rfl]
    rfl
  · simp only [system, nothing Consumer.count rfl, nothing uncounted rfl]
    rfl
  · exact fun _ => trivial

/-- A step of a producer keeps the invariant. -/
theorem producer_step
    {thread : Fin nproducers}
    {shared : Shared}
    {next : Producer}
    {events : List Event}
    (invariant : Invariant nitems trace state)
    (taken :
      producer nitems state.shared (state.producers thread) =
        some (shared, next, events)) :
    Invariant nitems (trace ++ events)
      { state with
        shared := shared
        producers := Function.update state.producers thread next } := by
  obtain ⟨⟨ring, after, emitted⟩, stepped, outcome⟩ :=
    Option.map_eq_some_iff.mp taken
  simp only [Prod.mk.injEq] at outcome
  obtain ⟨rfl, rfl, rfl⟩ := outcome
  exact {
    producing := invariant.producing.step stepped
    ngetval := invariant.ngetval
    counted := invariant.counted
    locals := invariant.locals
  }

/-- Extra `nstored` tokens only exist once every item is stored. -/
theorem promised_pos
    (producing :
      Producing exits nitems (environment state) trace state.shared.ring
        state.producers)
    (extra : 0 < total (Producer.promised exits) state.producers) :
    nitems ≤ state.shared.ring.nput := by
  obtain ⟨thread, leaving⟩ := exists_of_total_pos extra
  have ok := producing.locals thread
  generalize state.producers thread = leaver at leaving ok
  obtain ⟨pc, count⟩ := leaver
  cases pc with
  | leave posts =>
      exact ok
  | _ =>
      simp [Producer.promised] at leaving

/-- A consumer with a token and an item to consume finds it stored. -/
theorem available
    (invariant : Invariant nitems trace state)
    {thread : Fin nconsumers}
    (holds : (state.consumers thread).token = 1)
    (less : state.shared.nget < nitems) :
    state.shared.nget < state.shared.ring.nput := by
  have nstored := invariant.producing.nstored
  have member := weight_le_total token state.consumers thread
  by_cases extra : 0 < total (Producer.promised exits) state.producers
  · have stored := promised_pos invariant.producing extra
    omega
  · simp only [environment] at nstored
    omega

/-- At most one consumer is in the critical section. -/
theorem exclusive
    (invariant : Invariant nitems trace state) :
    total crit state.consumers ≤ 1 := by
  have mutex := invariant.producing.mutex
  simp only [environment] at mutex
  omega

/-- A thread in the critical section sees `ngetval` equal to `nget`. -/
theorem ngetval_eq
    (invariant : Invariant nitems trace state)
    {thread : Fin nconsumers}
    (inside : (state.consumers thread).crit = 1)
    (noLag : (state.consumers thread).lag = 0) :
    state.shared.ngetval = state.shared.nget := by
  have isInside : 0 < (state.consumers thread).crit :=
    Nat.lt_of_lt_of_eq Nat.one_pos inside.symm
  have onlyThis :=
    total_eq_of_exclusive invariant.exclusive isInside lag_of_outside
  have ngetval := invariant.ngetval
  omega

/-- A consumer with a token and an item finds the item in its slot. -/
theorem found
    (invariant : Invariant nitems trace state)
    {thread : Fin nconsumers}
    (holds : (state.consumers thread).token = 1)
    (less : state.shared.nget < nitems) :
    state.shared.ring.buf (slot nbuff state.shared.nget) =
      state.shared.nget :=
  invariant.producing.window _ (Nat.le_refl _)
    (Nat.lt_of_lt_of_le (invariant.available holds less)
      (Nat.le_add_right ..))

/-- What a consumer sees is the next item of the ring. -/
theorem consumed
    {thread : Fin nconsumers}
    {shared : Shared}
    {next : Consumer}
    {events : List Event}
    (invariant : Invariant nitems trace state)
    (effect :
      ConsumerEffect nitems state.shared shared (state.consumers thread) next
        events) :
    RingTrace id (trace ++ events)
        (state.shared.ring.nput +
          total Producer.ahead state.producers)
        (shared.nget +
          total seen (Function.update state.consumers thread next)) ∧
      shared.nget +
          total seen (Function.update state.consumers thread next) ≤
        state.shared.ring.nput := by
  have seenTotal := total_update seen state.consumers thread next
  have before := invariant.producing.orderly
  have behind := invariant.producing.behind
  simp only [environment] at before behind
  rcases effect.reads with
    ⟨rfl, balance⟩ |
      ⟨rfl, sameNget, less, inside, holds, unseen, isSeen⟩
  · have sameBound :
        shared.nget +
            total seen (Function.update state.consumers thread next) =
          state.shared.nget + total seen state.consumers := by
      omega
    rw [sameBound, List.append_nil]
    exact ⟨before, behind⟩
  · have isInside : 0 < crit (state.consumers thread) :=
      Nat.lt_of_lt_of_eq Nat.one_pos inside.symm
    have noneSeen :=
      total_eq_of_exclusive invariant.exclusive isInside seen_of_outside
    have bound :
        shared.nget +
            total seen (Function.update state.consumers thread next) =
          state.shared.nget + 1 := by
      omega
    rw [noneSeen, unseen, Nat.add_zero] at before
    rw [bound]
    exact ⟨before.consume, invariant.available holds less⟩

/-- A step of a consumer keeps the invariant. -/
theorem consumer_step
    {thread : Fin nconsumers}
    {shared : Shared}
    {next : Consumer}
    {events : List Event}
    (invariant : Invariant nitems trace state)
    (taken :
      consumer nitems state.shared (state.consumers thread) =
        some (shared, next, events)) :
    Invariant nitems (trace ++ events)
      { state with
        shared := shared
        consumers := Function.update state.consumers thread next } := by
  have exclusive := invariant.exclusive
  have effect :=
    consumer_effect (invariant.locals thread)
      (fun _ holds less => invariant.found holds less)
      (fun inside noLag => invariant.ngetval_eq inside noLag) taken
  have critTotal := total_update crit state.consumers thread next
  have tokenTotal := total_update token state.consumers thread next
  have debtTotal := total_update debt state.consumers thread next
  have lagTotal := total_update lag state.consumers thread next
  have countTotal := total_update Consumer.count state.consumers thread next
  have uncountedTotal := total_update uncounted state.consumers thread next
  have orderly := invariant.consumed effect
  constructor
  · refine invariant.producing.other effect.buf effect.nput effect.nputval
      ?_ ?_ ?_ effect.grows orderly.2 orderly.1
    · have := effect.mutex
      simp only [environment]
      omega
    · have := effect.nempty
      simp only [environment]
      omega
    · have := effect.nstored
      simp only [environment]
      omega
  · have := invariant.ngetval
    have := effect.ngetval
    simp only
    omega
  · have := invariant.counted
    have := effect.counted
    simp only
    omega
  · intro other
    by_cases isThread : other = thread
    · simpa [isThread] using effect.ok
    · simp only [Function.update_of_ne isThread]
      refine (invariant.locals other).frame effect.grows fun inside => ?_
      have both := pair_le_total crit state.consumers isThread
      exact effect.outside (by omega)

end Invariant

end Invariant

end CsPrimer.PxSem.ProdCons4
