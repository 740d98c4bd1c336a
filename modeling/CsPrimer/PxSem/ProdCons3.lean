import CsPrimer.Library.TransitionSystem
import CsPrimer.PxSem.Producer

namespace CsPrimer.PxSem.ProdCons3

open Library

/-!
# `sem_prodcons3.c`: many producers and one consumer

The consumer counts its items in a local variable and never looks at `nput`;
a producer that finds every item stored only has to hand back the `nempty`
token it took.
-/

/-- What a producer posts before it returns. -/
def exits : ExitPath where
  posts := [.nempty, .mutex]
  mutexOnce := rfl
  nemptyOnce := rfl

/-- Where the consumer is. -/
inductive ConsumerPc where
  | testItems
  | waitNstored
  | waitMutex
  | compareBuf
  | report
  | postMutex
  | postNempty
  | increment
  | returned
  deriving Repr, DecidableEq

/-- The consumer thread and its loop variable. -/
structure Consumer where
  pc : ConsumerPc
  i : Nat
  deriving Repr, DecidableEq

def Consumer.initial : Consumer where
  pc := .testItems
  i := 0

/-- `producer`. -/
def producer
    (nitems : Int)
    (shared : Ring)
    (thread : Producer) : Option (Ring × Producer × List Event) :=
  producerStep exits nitems shared thread

/-- One step of `consumer`. -/
def consumer
    (nitems : Int)
    (shared : Ring)
    (thread : Consumer) : Option (Ring × Consumer × List Event) :=
  match thread.pc with
  | .testItems =>
      if thread.i < nitems then
        some (shared, { thread with pc := .waitNstored }, [])
      else
        some (shared, { thread with pc := .returned }, [])
  | .waitNstored =>
      (semWait shared.nstored).map fun tokens =>
        ({ shared with nstored := tokens },
          { thread with pc := .waitMutex }, [])
  | .waitMutex =>
      (semWait shared.mutex).map fun tokens =>
        ({ shared with mutex := tokens },
          { thread with pc := .compareBuf }, [])
  | .compareBuf =>
      let value := shared.buf (slot nbuff thread.i)
      if value ≠ thread.i then
        some (shared, { thread with pc := .report },
          [.consumed (slot nbuff thread.i) value])
      else
        some (shared, { thread with pc := .postMutex },
          [.consumed (slot nbuff thread.i) value])
  | .report =>
      some (shared, { thread with pc := .postMutex },
        [.error (slot nbuff thread.i) (shared.buf (slot nbuff thread.i))])
  | .postMutex =>
      some (shared.post .mutex, { thread with pc := .postNempty }, [])
  | .postNempty =>
      some (shared.post .nempty, { thread with pc := .increment }, [])
  | .increment =>
      some (shared, { pc := .testItems, i := thread.i + 1 }, [])
  | .returned =>
      none

/-- All threads of one run of the program. -/
structure State (nproducers : Nat) where
  shared : Ring
  producers : Fin nproducers → Producer
  consumer : Consumer

/-- The scheduler picks the thread that takes the next step. -/
inductive Action (nproducers : Nat) where
  | producer (thread : Fin nproducers)
  | consumer
  deriving Repr, DecidableEq

/-- The interleavings of the threads `main` creates. -/
def system (nitems : Int) (nproducers : Nat) :
    System (State nproducers) (Action nproducers) Event where
  initial :=
    { shared := Ring.initial
      producers := fun _ => Producer.initial
      consumer := Consumer.initial }
  step? state action :=
    match action with
    | .producer thread =>
        (producer nitems state.shared (state.producers thread)).map
          fun (shared, next, events) =>
            ({ state with
              shared := shared
              producers := Function.update state.producers thread next },
              events)
    | .consumer =>
        (consumer nitems state.shared state.consumer).map
          fun (shared, next, events) =>
            ({ state with shared := shared, consumer := next }, events)

/-- Every thread has returned. -/
def AllReturned
    {nproducers : Nat}
    (state : State nproducers) : Prop :=
  (∀ thread, (state.producers thread).Returned) ∧
    state.consumer.pc = .returned

instance
    {nproducers : Nat}
    (state : State nproducers) :
    Decidable (AllReturned state) :=
  inferInstanceAs (Decidable (_ ∧ _))

namespace Consumer

/-- Holds `mutex`. -/
def crit (thread : Consumer) : Nat :=
  match thread.pc with
  | .compareBuf | .report | .postMutex => 1
  | _ => 0

/-- Has taken an `nstored` token for an item it has not read. -/
def token (thread : Consumer) : Nat :=
  match thread.pc with
  | .waitMutex | .compareBuf => 1
  | _ => 0

/-- Has read an item whose `nempty` token it has not posted. -/
def debt (thread : Consumer) : Nat :=
  match thread.pc with
  | .report | .postMutex | .postNempty => 1
  | _ => 0

/-- The number of items it has read. -/
def got (thread : Consumer) : Nat :=
  match thread.pc with
  | .report | .postMutex | .postNempty | .increment => thread.i + 1
  | _ => thread.i

/-- What the consumer knows from its own steps. -/
def Ok (nitems : Int) (thread : Consumer) : Prop :=
  match thread.pc with
  | .testItems => True
  | .report => False
  | .returned => nitems ≤ thread.i
  | _ => thread.i < nitems

end Consumer

/-- What one step of the consumer changes. -/
structure ConsumerEffect
    (nitems : Int)
    (before after : Ring)
    (thread next : Consumer)
    (events : List Event) : Prop where
  ok :
    next.Ok nitems
  buf :
    after.buf = before.buf
  nput :
    after.nput = before.nput
  nputval :
    after.nputval = before.nputval
  mutex :
    after.mutex + next.crit = before.mutex + thread.crit
  nempty :
    after.nempty + next.debt + thread.got =
      before.nempty + thread.debt + next.got
  nstored :
    after.nstored + next.got + next.token =
      before.nstored + thread.got + thread.token
  reads :
    (events = [] ∧ next.got = thread.got) ∨
      (events = [.consumed (slot nbuff thread.got) thread.got] ∧
        next.got = thread.got + 1 ∧
        thread.token = 1)

open Consumer in
/--
Every step of the consumer has the effect its weights account for, as long as
the next item is in its slot.
-/
theorem consumer_effect
    {nitems : Int}
    {before after : Ring}
    {thread next : Consumer}
    {events : List Event}
    (ok : thread.Ok nitems)
    (inSlot :
      thread.token = 1 →
        before.buf (slot nbuff thread.got) = thread.got)
    (taken :
      consumer nitems before thread = some (after, next, events)) :
    ConsumerEffect nitems before after thread next events := by
  obtain ⟨pc, i⟩ := thread
  cases pc with
  | waitNstored | waitMutex =>
      obtain ⟨tokens, available, outcome⟩ := Option.map_eq_some_iff.mp taken
      have held := semWait_eq_some.mp available
      simp only [Prod.mk.injEq] at outcome
      obtain ⟨rfl, rfl, rfl⟩ := outcome
      constructor <;> simp_all [Ok, crit, token, debt, got] <;> omega
  | testItems =>
      by_cases more : i < nitems
      · simp only [consumer, if_pos more, Option.some.injEq,
          Prod.mk.injEq] at taken
        obtain ⟨rfl, rfl, rfl⟩ := taken
        constructor <;> simp [Ok, crit, token, debt, got, more]
      · simp only [consumer, if_neg more, Option.some.injEq,
          Prod.mk.injEq] at taken
        obtain ⟨rfl, rfl, rfl⟩ := taken
        constructor <;> simp [Ok, crit, token, debt, got]
        exact Int.not_lt.mp more
  | compareBuf =>
      have found : before.buf (slot nbuff i) = i := inSlot rfl
      simp only [consumer, found, ne_eq, not_true_eq_false, if_false,
        Option.some.injEq, Prod.mk.injEq] at taken
      obtain ⟨rfl, rfl, rfl⟩ := taken
      constructor <;> simp_all [Ok, crit, token, debt, got] <;> omega
  | report =>
      exact ok.elim
  | returned =>
      simp [consumer] at taken
  | _ =>
      simp only [consumer, Option.some.injEq, Prod.mk.injEq] at taken
      obtain ⟨rfl, rfl, rfl⟩ := taken
      constructor <;>
        simp_all [Ok, crit, token, debt, got, Ring.post, semPost]

/-- A consumer that cannot step waits for a token, or has returned. -/
theorem consumer_eq_none
    {nitems : Int}
    {shared : Ring}
    {thread : Consumer}
    (blocked : consumer nitems shared thread = none) :
    thread.pc = .returned ∨
      (thread.pc = .waitNstored ∧ shared.nstored = 0) ∨
      (thread.pc = .waitMutex ∧ shared.mutex = 0) := by
  obtain ⟨pc, i⟩ := thread
  cases pc with
  | waitNstored =>
      simpa [consumer, semWait_eq_none] using blocked
  | waitMutex =>
      simpa [consumer, semWait_eq_none] using blocked
  | testItems =>
      by_cases more : i < nitems <;>
        simp [consumer, more] at blocked
  | compareBuf =>
      by_cases same : shared.buf (slot nbuff i) = i <;>
        simp [consumer, same] at blocked
  | returned =>
      exact .inl rfl
  | _ =>
      simp [consumer] at blocked

section Invariant

variable
  {nitems : Int}
  {nproducers : Nat}
  {trace : List Event}
  {state : State nproducers}

/-- What the producers need to know of the consumer. -/
def environment (thread : Consumer) : Environment where
  crit := thread.crit
  debt := thread.debt
  token := thread.token
  got := thread.got
  seen := 0

/-- What holds in every state of every run. -/
structure Invariant
    (nitems : Int)
    (trace : List Event)
    (state : State nproducers) : Prop where
  producing :
    Producing exits nitems (environment state.consumer) trace state.shared
      state.producers
  consuming :
    state.consumer.Ok nitems

namespace Invariant

theorem start :
    Invariant nitems [] (system nitems nproducers).initial where
  producing := Producing.start
  consuming := trivial

/-- Producers leave no extra `nstored` token. -/
theorem promised_eq_zero
    (pool : Fin nproducers → Producer) :
    total (Producer.promised exits) pool = 0 := by
  refine total_eq_zero_iff.mpr fun thread => ?_
  unfold Producer.promised
  split <;> rfl

/-- A consumer with a token finds an item stored. -/
theorem available
    (invariant : Invariant nitems trace state)
    (holds : state.consumer.token = 1) :
    state.consumer.got < state.shared.nput := by
  have nstored := invariant.producing.nstored
  rw [promised_eq_zero] at nstored
  simp only [environment] at nstored
  omega

/-- A consumer with a token finds the item in its slot. -/
theorem found
    (invariant : Invariant nitems trace state)
    (holds : state.consumer.token = 1) :
    state.shared.buf (slot nbuff state.consumer.got) =
      state.consumer.got :=
  invariant.producing.window _ (Nat.le_refl _)
    (Nat.lt_of_lt_of_le (invariant.available holds)
      (Nat.le_add_right ..))

/-- A step of the consumer keeps the invariant. -/
theorem consumer_step
    {shared : Ring}
    {next : Consumer}
    {events : List Event}
    (invariant : Invariant nitems trace state)
    (taken :
      consumer nitems state.shared state.consumer =
        some (shared, next, events)) :
    Invariant nitems (trace ++ events)
      { state with shared := shared, consumer := next } := by
  have effect :=
    consumer_effect invariant.consuming invariant.found taken
  have orderly :
      RingTrace id (trace ++ events)
          (state.shared.nput + total Producer.ahead state.producers)
          (next.got + 0) ∧
        next.got + 0 ≤ state.shared.nput ∧
        state.consumer.got ≤ next.got := by
    have before := invariant.producing.orderly
    have behind := invariant.producing.behind
    simp only [environment] at before behind
    rcases effect.reads with ⟨rfl, same⟩ | ⟨rfl, more, holds⟩
    · rw [same, List.append_nil]
      exact ⟨before, behind, Nat.le_refl _⟩
    · rw [more]
      exact ⟨before.consume, invariant.available holds, Nat.le_succ _⟩
  exact {
    producing :=
      invariant.producing.other effect.buf effect.nput effect.nputval
        effect.mutex effect.nempty effect.nstored orderly.2.2 orderly.2.1
        orderly.1
    consuming := effect.ok
  }

/-- The invariant holds in every run. -/
theorem of_reaches
    (reaches : (system nitems nproducers).Reaches trace state) :
    Invariant nitems trace state := by
  refine System.Reaches.invariant Invariant.start ?_ reaches
  intro trace events state next action invariant taken
  cases action with
  | producer thread =>
      obtain ⟨⟨shared, after, emitted⟩, stepped, outcome⟩ :=
        Option.map_eq_some_iff.mp taken
      simp only [Prod.mk.injEq] at outcome
      obtain ⟨rfl, rfl⟩ := outcome
      exact {
        producing := invariant.producing.step stepped
        consuming := invariant.consuming
      }
  | consumer =>
      obtain ⟨⟨shared, after, emitted⟩, stepped, outcome⟩ :=
        Option.map_eq_some_iff.mp taken
      simp only [Prod.mk.injEq] at outcome
      obtain ⟨rfl, rfl⟩ := outcome
      exact invariant.consumer_step stepped

end Invariant

end Invariant

end CsPrimer.PxSem.ProdCons3
