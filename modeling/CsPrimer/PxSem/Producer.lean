import CsPrimer.Library.RingBuffer
import CsPrimer.Library.ThreadPool

namespace CsPrimer.PxSem

open Library

/-!
# The producers of `sem_prodcons3.c` and `sem_prodcons4.c`

The two programs share their producers up to what a producer posts before it
returns.  One step is one semaphore operation or one access to a member of
`shared`; an increment of a member is a load and a store.  The count behind
`arg` belongs to the thread.
-/

/-- `NBUFF`. -/
abbrev nbuff : Nat := 10

instance : NeZero nbuff := ⟨by decide⟩

/-- The semaphores of `shared`. -/
inductive Semaphore where
  | mutex
  | nempty
  | nstored
  deriving Repr, DecidableEq

/-- The members of `shared` the producers use. -/
structure Ring where
  buf : Fin nbuff → Nat
  nput : Nat
  nputval : Nat
  mutex : Nat
  nempty : Nat
  nstored : Nat

/-- `shared` after the `sem_init` calls of `main`. -/
def Ring.initial : Ring where
  buf := fun _ => 0
  nput := 0
  nputval := 0
  mutex := 1
  nempty := nbuff
  nstored := 0

/-- `sem_post`. -/
def Ring.post (ring : Ring) : Semaphore → Ring
  | .mutex =>
      { ring with mutex := semPost ring.mutex }
  | .nempty =>
      { ring with nempty := semPost ring.nempty }
  | .nstored =>
      { ring with nstored := semPost ring.nstored }

/-- The posts of a producer that finds every item stored, in order. -/
structure ExitPath where
  posts : List Semaphore
  mutexOnce : posts.count .mutex = 1
  nemptyOnce : posts.count .nempty = 1

/-- Where a producer is, with the values it has loaded. -/
inductive ProducerPc where
  | waitNempty
  | waitMutex
  | testNput
  | loadIndex
  | loadValue (i : Fin nbuff)
  | store (i : Fin nbuff) (value : Nat)
  | loadNput
  | storeNput (nput : Nat)
  | loadNputval
  | storeNputval (nputval : Nat)
  | postMutex
  | postNstored
  | count
  | leave (posts : List Semaphore)
  deriving Repr, DecidableEq

/-- A producer thread; it has returned at `leave []`. -/
structure Producer where
  pc : ProducerPc
  count : Nat
  deriving Repr, DecidableEq

def Producer.initial : Producer where
  pc := .waitNempty
  count := 0

/-- An observer of the ring of `shared`. -/
abbrev Event := RingEvent nbuff Nat

/-- One step of `producer`. -/
def producerStep
    (exits : ExitPath)
    (nitems : Int)
    (ring : Ring)
    (thread : Producer) : Option (Ring × Producer × List Event) :=
  match thread.pc with
  | .waitNempty =>
      (semWait ring.nempty).map fun tokens =>
        ({ ring with nempty := tokens },
          { thread with pc := .waitMutex }, [])
  | .waitMutex =>
      (semWait ring.mutex).map fun tokens =>
        ({ ring with mutex := tokens },
          { thread with pc := .testNput }, [])
  | .testNput =>
      if nitems ≤ ring.nput then
        some (ring, { thread with pc := .leave exits.posts }, [])
      else
        some (ring, { thread with pc := .loadIndex }, [])
  | .loadIndex =>
      some (ring,
        { thread with pc := .loadValue (slot nbuff ring.nput) }, [])
  | .loadValue i =>
      some (ring, { thread with pc := .store i ring.nputval }, [])
  | .store i value =>
      some ({ ring with buf := Function.update ring.buf i value },
        { thread with pc := .loadNput }, [.stored i value])
  | .loadNput =>
      some (ring, { thread with pc := .storeNput ring.nput }, [])
  | .storeNput nput =>
      some ({ ring with nput := nput + 1 },
        { thread with pc := .loadNputval }, [])
  | .loadNputval =>
      some (ring, { thread with pc := .storeNputval ring.nputval }, [])
  | .storeNputval nputval =>
      some ({ ring with nputval := nputval + 1 },
        { thread with pc := .postMutex }, [])
  | .postMutex =>
      some (ring.post .mutex, { thread with pc := .postNstored }, [])
  | .postNstored =>
      some (ring.post .nstored, { thread with pc := .count }, [])
  | .count =>
      some (ring, { pc := .waitNempty, count := thread.count + 1 }, [])
  | .leave [] =>
      none
  | .leave (semaphore :: posts) =>
      some (ring.post semaphore, { thread with pc := .leave posts }, [])

/-- A producer has executed its `return`. -/
def Producer.Returned (thread : Producer) : Prop :=
  thread.pc = .leave []

instance (thread : Producer) : Decidable thread.Returned :=
  inferInstanceAs (Decidable (thread.pc = .leave []))

namespace Producer

/-- Holds `mutex`. -/
def crit (thread : Producer) : Nat :=
  match thread.pc with
  | .waitNempty | .waitMutex | .postNstored | .count => 0
  | .leave posts => posts.count .mutex
  | _ => 1

/-- Has taken a token of `nempty` for a slot it has not announced in `nput`. -/
def slotTaken (thread : Producer) : Nat :=
  match thread.pc with
  | .waitMutex | .testNput | .loadIndex | .loadValue _ | .store _ _
  | .loadNput | .storeNput _ => 1
  | .leave posts => posts.count .nempty
  | _ => 0

/-- Has stored an item whose `nstored` token it has not posted. -/
def pending (thread : Producer) : Nat :=
  match thread.pc with
  | .loadNputval | .storeNputval _ | .postMutex | .postNstored => 1
  | _ => 0

/-- The extra `nstored` tokens a leaving producer posts in all. -/
def promised (exits : ExitPath) (thread : Producer) : Nat :=
  match thread.pc with
  | .leave _ => exits.posts.count .nstored
  | _ => 0

/-- The extra `nstored` tokens a leaving producer still has to post. -/
def unposted (thread : Producer) : Nat :=
  match thread.pc with
  | .leave posts => posts.count .nstored
  | _ => 0

/-- Has incremented `nput` but not `nputval`. -/
def lag (thread : Producer) : Nat :=
  match thread.pc with
  | .loadNputval | .storeNputval _ => 1
  | _ => 0

/-- Has stored an item but not incremented `nput`. -/
def ahead (thread : Producer) : Nat :=
  match thread.pc with
  | .loadNput | .storeNput _ => 1
  | _ => 0

/-- Has incremented `nput` but not its own count. -/
def uncounted (thread : Producer) : Nat :=
  match thread.pc with
  | .loadNputval | .storeNputval _ | .postMutex | .postNstored | .count => 1
  | _ => 0

/-- What a producer knows about `shared` from its own steps. -/
def Ok (nitems : Int) (ring : Ring) (thread : Producer) : Prop :=
  match thread.pc with
  | .loadIndex | .loadNput => ring.nput < nitems
  | .loadValue i => ring.nput < nitems ∧ i = slot nbuff ring.nput
  | .store i value =>
      ring.nput < nitems ∧ i = slot nbuff ring.nput ∧ value = ring.nputval
  | .storeNput nput => ring.nput < nitems ∧ nput = ring.nput
  | .storeNputval nputval => nputval = ring.nputval
  | .leave _ => nitems ≤ ring.nput
  | _ => True

end Producer

/-- What one step of a producer changes, apart from the buffer. -/
structure ProducerEffect
    (exits : ExitPath)
    (nitems : Int)
    (before after : Ring)
    (thread next : Producer) : Prop where
  ok :
    next.Ok nitems after
  mutex :
    after.mutex + next.crit = before.mutex + thread.crit
  nempty :
    after.nempty + after.nput + next.slotTaken =
      before.nempty + before.nput + thread.slotTaken
  nstored :
    after.nstored + next.pending + next.unposted +
        (before.nput + thread.promised exits) =
      before.nstored + thread.pending + thread.unposted +
        (after.nput + next.promised exits)
  nputval :
    after.nput + before.nputval + thread.lag =
      before.nput + after.nputval + next.lag
  counted :
    next.count + next.uncounted + before.nput =
      thread.count + thread.uncounted + after.nput
  grows :
    before.nput ≤ after.nput
  bounded :
    after.nput = before.nput ∨ (after.nput : Int) ≤ nitems
  outside :
    thread.crit = 0 → after.nput = before.nput ∧ after.nputval = before.nputval

open Producer in
/-- Every step of a producer has the effect its weights account for. -/
theorem producerStep_effect
    {exits : ExitPath}
    {nitems : Int}
    {before after : Ring}
    {thread next : Producer}
    {events : List Event}
    (ok : thread.Ok nitems before)
    (taken :
      producerStep exits nitems before thread =
        some (after, next, events)) :
    ProducerEffect exits nitems before after thread next := by
  obtain ⟨pc, count⟩ := thread
  cases pc with
  | waitNempty | waitMutex =>
      obtain ⟨tokens, available, outcome⟩ := Option.map_eq_some_iff.mp taken
      have held := semWait_eq_some.mp available
      simp only [Prod.mk.injEq] at outcome
      obtain ⟨rfl, rfl, rfl⟩ := outcome
      constructor <;> simp [Ok, crit, slotTaken, pending, promised,
        unposted, lag, uncounted, held] <;> omega
  | testNput =>
      by_cases stored : nitems ≤ before.nput
      · simp only [producerStep, if_pos stored, Option.some.injEq,
          Prod.mk.injEq] at taken
        obtain ⟨rfl, rfl, rfl⟩ := taken
        constructor <;> simp [Ok, crit, slotTaken, pending, promised,
          unposted, lag, uncounted, stored, exits.mutexOnce,
          exits.nemptyOnce]
        exact (Nat.add_assoc ..).trans
          (congrArg (before.nstored + ·) (Nat.add_comm ..))
      · simp only [producerStep, if_neg stored, Option.some.injEq,
          Prod.mk.injEq] at taken
        obtain ⟨rfl, rfl, rfl⟩ := taken
        constructor <;> simp [Ok, crit, slotTaken, pending, promised,
          unposted, lag, uncounted]
        exact Int.not_le.mp stored
  | leave posts =>
      cases posts with
      | nil =>
          simp [producerStep] at taken
      | cons semaphore posts =>
          simp only [producerStep, Option.some.injEq, Prod.mk.injEq] at taken
          obtain ⟨rfl, rfl, rfl⟩ := taken
          cases semaphore <;> constructor <;>
            simp_all [Ok, crit, slotTaken, pending, promised,
              unposted, lag, uncounted, Ring.post, semPost] <;> omega
  | _ =>
      simp only [producerStep, Option.some.injEq, Prod.mk.injEq] at taken
      obtain ⟨rfl, rfl, rfl⟩ := taken
      constructor <;> simp_all [Ok, crit, slotTaken, pending, promised,
        unposted, lag, uncounted, Ring.post, semPost] <;> omega

open Producer in
/--
A step of a producer leaves the buffer alone, or it stores `nputval` in the
slot of `nput`, from inside the critical section.
-/
theorem producerStep_buffer
    {exits : ExitPath}
    {nitems : Int}
    {before after : Ring}
    {thread next : Producer}
    {events : List Event}
    (ok : thread.Ok nitems before)
    (taken :
      producerStep exits nitems before thread =
        some (after, next, events)) :
    (after.buf = before.buf ∧ events = [] ∧
        after.nput + next.ahead = before.nput + thread.ahead) ∨
      (after.buf =
          Function.update before.buf
            (slot nbuff before.nput) before.nputval ∧
        events = [.stored (slot nbuff before.nput) before.nputval] ∧
        after.nput = before.nput ∧
        thread.crit = 1 ∧
        thread.slotTaken = 1 ∧
        thread.lag = 0 ∧
        thread.ahead = 0 ∧
        next.ahead = 1) := by
  obtain ⟨pc, count⟩ := thread
  cases pc with
  | waitNempty | waitMutex =>
      obtain ⟨tokens, available, outcome⟩ := Option.map_eq_some_iff.mp taken
      simp only [Prod.mk.injEq] at outcome
      obtain ⟨rfl, rfl, rfl⟩ := outcome
      exact .inl ⟨rfl, rfl, rfl⟩
  | testNput =>
      by_cases stored : nitems ≤ before.nput <;>
        simp only [producerStep, stored, if_true, if_false,
          Option.some.injEq, Prod.mk.injEq] at taken <;>
        obtain ⟨rfl, rfl, rfl⟩ := taken <;>
        exact .inl ⟨rfl, rfl, rfl⟩
  | store i value =>
      obtain ⟨-, rfl, rfl⟩ := ok
      simp only [producerStep, Option.some.injEq, Prod.mk.injEq] at taken
      obtain ⟨rfl, rfl, rfl⟩ := taken
      exact .inr ⟨rfl, rfl, rfl, rfl, rfl, rfl, rfl, rfl⟩
  | storeNput nput =>
      obtain ⟨-, rfl⟩ := ok
      simp only [producerStep, Option.some.injEq, Prod.mk.injEq] at taken
      obtain ⟨rfl, rfl, rfl⟩ := taken
      exact .inl ⟨rfl, rfl, rfl⟩
  | leave posts =>
      cases posts with
      | nil =>
          simp [producerStep] at taken
      | cons semaphore posts =>
          simp only [producerStep, Option.some.injEq, Prod.mk.injEq] at taken
          obtain ⟨rfl, rfl, rfl⟩ := taken
          cases semaphore <;> exact .inl ⟨rfl, rfl, rfl⟩
  | _ =>
      simp only [producerStep, Option.some.injEq, Prod.mk.injEq] at taken
      obtain ⟨rfl, rfl, rfl⟩ := taken
      exact .inl ⟨rfl, rfl, rfl⟩

/-- A producer that cannot step waits for a token, or has returned. -/
theorem producerStep_eq_none
    {exits : ExitPath}
    {nitems : Int}
    {ring : Ring}
    {thread : Producer}
    (blocked : producerStep exits nitems ring thread = none) :
    thread.Returned ∨
      (thread.pc = .waitNempty ∧ ring.nempty = 0) ∨
      (thread.pc = .waitMutex ∧ ring.mutex = 0) := by
  obtain ⟨pc, count⟩ := thread
  cases pc with
  | waitNempty =>
      simpa [producerStep, semWait_eq_none, Producer.Returned] using blocked
  | waitMutex =>
      simpa [producerStep, semWait_eq_none, Producer.Returned] using blocked
  | testNput =>
      by_cases stored : nitems ≤ ring.nput <;>
        simp [producerStep, stored] at blocked
  | leave posts =>
      cases posts with
      | nil =>
          exact .inl rfl
      | cons semaphore posts =>
          simp [producerStep] at blocked
  | _ =>
      simp [producerStep] at blocked

section Blocked

variable
  {Thread : Type}
  [Fintype Thread]
  {exits : ExitPath}
  {nitems : Int}
  {ring : Ring}
  {pool : Thread → Producer}

/-- When no producer can step, none is in the critical section. -/
theorem total_crit_of_blocked
    (blocked :
      ∀ thread, producerStep exits nitems ring (pool thread) = none) :
    total Producer.crit pool = 0 := by
  refine total_eq_zero_iff.mpr fun thread => ?_
  rcases producerStep_eq_none (blocked thread) with pc | ⟨pc, -⟩ | ⟨pc, -⟩ <;>
    unfold Producer.crit <;> rw [pc]
  rfl

omit [Fintype Thread] in
/-- When no producer can step and `mutex` is free, all wait for `nempty`. -/
theorem quiet_of_blocked
    (blocked :
      ∀ thread, producerStep exits nitems ring (pool thread) = none)
    (mutexFree : ring.mutex = 1) :
    ∀ thread, (pool thread).Returned ∨
      ((pool thread).pc = .waitNempty ∧ ring.nempty = 0) := by
  intro thread
  rcases producerStep_eq_none (blocked thread) with
    returned | waits | ⟨-, taken⟩
  · exact .inl returned
  · exact .inr waits
  · exact absurd (mutexFree.symm.trans taken) Nat.one_ne_zero

/-- Producers that wait for `nempty` or have returned hold and owe nothing. -/
theorem quiet_totals
    (quiet :
      ∀ thread, (pool thread).Returned ∨
        ((pool thread).pc = .waitNempty ∧ ring.nempty = 0)) :
    total Producer.slotTaken pool = 0 ∧
      total Producer.pending pool = 0 ∧
      total Producer.unposted pool = 0 := by
  have pcs :
      ∀ thread, (pool thread).pc = .leave [] ∨
        (pool thread).pc = .waitNempty :=
    fun thread => (quiet thread).imp id And.left
  refine ⟨?_, ?_, ?_⟩ <;>
    refine total_eq_zero_iff.mpr fun thread => ?_ <;>
    rcases pcs thread with pc | pc
  · simp [Producer.slotTaken, pc]
  · simp [Producer.slotTaken, pc]
  · simp [Producer.pending, pc]
  · simp [Producer.pending, pc]
  · simp [Producer.unposted, pc]
  · simp [Producer.unposted, pc]

theorem total_uncounted_of_returned
    (returned : ∀ thread, (pool thread).Returned) :
    total Producer.uncounted pool = 0 := by
  have pcs : ∀ thread, (pool thread).pc = .leave [] := returned
  refine total_eq_zero_iff.mpr fun thread => ?_
  simp [Producer.uncounted, pcs thread]

end Blocked

/--
What the producers need to know of the rest of the program: how many of its
threads hold `mutex`, owe an `nempty` token or hold an `nstored` token, how
many items it has got and how many more it has read.
-/
structure Environment where
  crit : Nat
  debt : Nat
  token : Nat
  got : Nat
  seen : Nat

open Producer in
/-- The part of the invariant that concerns the producers and the ring. -/
structure Producing
    {Thread : Type}
    [Fintype Thread]
    (exits : ExitPath)
    (nitems : Int)
    (environment : Environment)
    (trace : List Event)
    (ring : Ring)
    (pool : Thread → Producer) : Prop where
  mutex :
    ring.mutex + total crit pool + environment.crit = 1
  nempty :
    ring.nempty + ring.nput + total slotTaken pool + environment.debt =
      nbuff + environment.got
  nstored :
    ring.nstored + environment.got + environment.token +
        total pending pool + total unposted pool =
      ring.nput + total (promised exits) pool
  nputval :
    ring.nput = ring.nputval + total lag pool
  counted :
    total Producer.count pool + total uncounted pool = ring.nput
  bounded :
    (ring.nput : Int) ≤ max nitems 0
  behind :
    environment.got + environment.seen ≤ ring.nput
  window :
    Window id ring.buf environment.got (ring.nput + total ahead pool)
  orderly :
    RingTrace id trace (ring.nput + total ahead pool)
      (environment.got + environment.seen)
  locals :
    ∀ thread, (pool thread).Ok nitems ring

/-- A weight of the critical section vanishes outside it. -/
theorem Producer.ahead_of_outside
    (thread : Producer)
    (outside : thread.crit = 0) :
    thread.ahead = 0 := by
  obtain ⟨pc, count⟩ := thread
  cases pc <;> simp_all [crit, ahead]

theorem Producer.lag_of_outside
    (thread : Producer)
    (outside : thread.crit = 0) :
    thread.lag = 0 := by
  obtain ⟨pc, count⟩ := thread
  cases pc <;> simp_all [crit, lag]

/-- What a producer knows survives the steps of the other threads. -/
theorem Producer.Ok.frame
    {nitems : Int}
    {before after : Ring}
    {thread : Producer}
    (ok : thread.Ok nitems before)
    (grows : before.nput ≤ after.nput)
    (inside :
      0 < thread.crit →
        after.nput = before.nput ∧ after.nputval = before.nputval) :
    thread.Ok nitems after := by
  obtain ⟨pc, count⟩ := thread
  cases pc with
  | leave posts =>
      exact Int.le_trans ok (Int.ofNat_le.mpr grows)
  | _ =>
      simp_all [Ok, crit]

namespace Producing

variable
  {Thread : Type}
  [Fintype Thread]
  {exits : ExitPath}
  {nitems : Int}
  {environment : Environment}
  {trace : List Event}
  {ring : Ring}
  {pool : Thread → Producer}

/-- At the start no item is stored and every thread is at its first wait. -/
theorem start :
    Producing exits nitems ⟨0, 0, 0, 0, 0⟩ [] Ring.initial
      (fun _ : Thread => Producer.initial) := by
  have nothing :
      ∀ weight : Producer → Nat, weight Producer.initial = 0 →
        total weight (fun _ : Thread => Producer.initial) = 0 :=
    fun weight weightless => total_const_zero weightless
  constructor
  · rw [nothing _ rfl]
    rfl
  · rw [nothing _ rfl]
    rfl
  · rw [nothing _ rfl, nothing _ rfl, nothing _ rfl]
    rfl
  · rw [nothing _ rfl]
    rfl
  · rw [nothing _ rfl, nothing _ rfl]
    rfl
  · exact le_max_right nitems 0
  · exact Nat.le_refl 0
  · rw [nothing _ rfl]
    exact Window.empty
  · rw [nothing _ rfl]
    exact RingTrace.start
  · exact fun _ => trivial

/-- Steps of other threads only move tokens, and free slots by reading. -/
theorem other
    {changed : Environment}
    {later : List Event}
    {after : Ring}
    (producing : Producing exits nitems environment trace ring pool)
    (sameBuf : after.buf = ring.buf)
    (sameNput : after.nput = ring.nput)
    (sameNputval : after.nputval = ring.nputval)
    (mutex : after.mutex + changed.crit = ring.mutex + environment.crit)
    (nempty :
      after.nempty + changed.debt + environment.got =
        ring.nempty + environment.debt + changed.got)
    (nstored :
      after.nstored + changed.got + changed.token =
        ring.nstored + environment.got + environment.token)
    (reads : environment.got ≤ changed.got)
    (behind : changed.got + changed.seen ≤ ring.nput)
    (orderly :
      RingTrace id later (ring.nput + total Producer.ahead pool)
        (changed.got + changed.seen)) :
    Producing exits nitems changed later after pool := by
  have mutexBefore := producing.mutex
  have nemptyBefore := producing.nempty
  have nstoredBefore := producing.nstored
  constructor
  · omega
  · omega
  · omega
  · rw [sameNput, sameNputval]
    exact producing.nputval
  · rw [sameNput]
    exact producing.counted
  · rw [sameNput]
    exact producing.bounded
  · rw [sameNput]
    exact behind
  · rw [sameNput, sameBuf]
    exact producing.window.mono reads
  · rw [sameNput]
    exact orderly
  · intro thread
    exact (producing.locals thread).frame (Nat.le_of_eq sameNput.symm)
      fun _ => ⟨sameNput, sameNputval⟩

/-- Every slot a producer holds is free in the ring. -/
theorem room
    (producing : Producing exits nitems environment trace ring pool)
    {thread : Thread}
    (holds : (pool thread).slotTaken = 1) :
    ring.nput < environment.got + nbuff := by
  have nempty := producing.nempty
  have member := weight_le_total Producer.slotTaken pool thread
  omega

variable [DecidableEq Thread]

/-- What a producer stores extends what is stored, in order. -/
theorem stored
    {thread : Thread}
    {after : Ring}
    {next : Producer}
    {events : List Event}
    (producing : Producing exits nitems environment trace ring pool)
    (taken :
      producerStep exits nitems ring (pool thread) =
        some (after, next, events)) :
    Window id after.buf environment.got
        (after.nput + total Producer.ahead
          (Function.update pool thread next)) ∧
      RingTrace id (trace ++ events)
        (after.nput + total Producer.ahead
          (Function.update pool thread next))
        (environment.got + environment.seen) := by
  have aheadTotal := total_update Producer.ahead pool thread next
  rcases producerStep_buffer (producing.locals thread) taken with
    ⟨sameBuf, rfl, balance⟩ |
      ⟨storesIn, rfl, sameNput, inside, holds, noLag, notAhead, isAhead⟩
  · have sameBound :
        after.nput +
            total Producer.ahead (Function.update pool thread next) =
          ring.nput + total Producer.ahead pool := by
      omega
    rw [sameBound, sameBuf, List.append_nil]
    exact ⟨producing.window, producing.orderly⟩
  · have mutex := producing.mutex
    have exclusive : total Producer.crit pool ≤ 1 := by omega
    have isInside : 0 < (pool thread).crit := by omega
    have noneAhead :=
      total_eq_of_exclusive exclusive isInside Producer.ahead_of_outside
    have noneLags :=
      total_eq_of_exclusive exclusive isInside Producer.lag_of_outside
    have sameValue : ring.nputval = ring.nput := by
      have := producing.nputval
      omega
    have bound :
        after.nput +
            total Producer.ahead (Function.update pool thread next) =
          ring.nput + 1 := by
      omega
    have window := producing.window
    have orderly := producing.orderly
    have free := producing.room holds
    rw [noneAhead, notAhead, Nat.add_zero] at window orderly
    rw [bound, storesIn, sameValue]
    exact ⟨window.store free,
      orderly.store producing.behind
        (Nat.lt_of_lt_of_le free (by omega))⟩

/-- A step of a producer keeps the invariant. -/
theorem step
    {thread : Thread}
    {after : Ring}
    {next : Producer}
    {events : List Event}
    (producing : Producing exits nitems environment trace ring pool)
    (taken :
      producerStep exits nitems ring (pool thread) =
        some (after, next, events)) :
    Producing exits nitems environment (trace ++ events) after
      (Function.update pool thread next) := by
  have ok := producing.locals thread
  have effect := producerStep_effect ok taken
  have critTotal := total_update Producer.crit pool thread next
  have slotTotal := total_update Producer.slotTaken pool thread next
  have pendingTotal := total_update Producer.pending pool thread next
  have unpostedTotal := total_update Producer.unposted pool thread next
  have promisedTotal :=
    total_update (Producer.promised exits) pool thread next
  have lagTotal := total_update Producer.lag pool thread next
  have countTotal := total_update Producer.count pool thread next
  have uncountedTotal := total_update Producer.uncounted pool thread next
  have mutexBefore := producing.mutex
  have mutex := effect.mutex
  have stored := producing.stored taken
  constructor
  · omega
  · have := producing.nempty
    have := effect.nempty
    omega
  · have := producing.nstored
    have := effect.nstored
    omega
  · have := producing.nputval
    have := effect.nputval
    omega
  · have := producing.counted
    have := effect.counted
    omega
  · rcases effect.bounded with same | bounded
    · rw [same]
      exact producing.bounded
    · exact le_max_of_le_left bounded
  · exact Nat.le_trans producing.behind effect.grows
  · exact stored.1
  · exact stored.2
  · intro other
    by_cases isThread : other = thread
    · rw [isThread, Function.update_self]
      exact effect.ok
    · rw [Function.update_of_ne isThread]
      refine (producing.locals other).frame effect.grows fun inside => ?_
      have both := pair_le_total Producer.crit pool isThread
      exact effect.outside (by omega)

end Producing

end CsPrimer.PxSem
