import CsPrimer.Library.RingBuffer
import CsPrimer.Library.ThreadPool
import CsPrimer.Library.TransitionSystem

namespace CsPrimer.PxSem.MultiBuffer

open Library

/-!
# `sem_multibuffer.c`: copying a file through a ring of buffers

The producer reads the file into the buffers of a ring and the consumer writes
them to standard output.  Only the semaphores are used inside the critical
regions, which are empty; the buffers are accessed outside.  `read` returns any
count between 1 and what is left of the file and fits the buffer, and 0 at the
end of the file; it does not fail, and `write` accepts all its bytes.
-/

/-- `NBUFF`. -/
abbrev nbuff : Nat := 8

/-- `BUFFSIZE`. -/
abbrev buffSize : Nat := 1024

abbrev Byte := UInt8

/-- An element of `shared.buff`. -/
structure Buffer where
  data : List Byte
  n : Nat
  deriving Repr, DecidableEq

/-- The bytes that `write` takes from a buffer. -/
def Buffer.content (buffer : Buffer) : List Byte :=
  buffer.data.take buffer.n

/-- `shared`, what is left of the file and what has been written. -/
structure Shared where
  buff : Fin nbuff → Buffer
  mutex : Nat
  nempty : Nat
  nstored : Nat
  unread : List Byte
  output : List Byte

/-- Where the producer is, with the count `read` has returned. -/
inductive ProducerPc where
  | waitNempty
  | waitMutex
  | postMutex
  | read
  | storeCount (n : Nat)
  | testEnd
  | increment
  | postNstored
  | leaveNstored
  | returned
  deriving Repr, DecidableEq

/-- The producer thread and its index. -/
structure Producer where
  pc : ProducerPc
  i : Fin nbuff
  deriving Repr, DecidableEq

/-- Where the consumer is. -/
inductive ConsumerPc where
  | waitNstored
  | waitMutex
  | postMutex
  | testEnd
  | write
  | increment
  | postNempty
  | returned
  deriving Repr, DecidableEq

/-- The consumer thread and its index. -/
structure Consumer where
  pc : ConsumerPc
  i : Fin nbuff
  deriving Repr, DecidableEq

/-- `if(++i >= NBUFF) i = 0`. -/
def nextIndex (i : Fin nbuff) : Fin nbuff :=
  if inRing : i.val + 1 < nbuff then
    ⟨i.val + 1, inRing⟩
  else
    0

/-- The counts `read` may return with `unread` left of the file. -/
def ReadCount (unread : List Byte) (n : Nat) : Prop :=
  (unread = [] ∧ n = 0) ∨ (0 < n ∧ n ≤ buffSize ∧ n ≤ unread.length)

instance (unread : List Byte) (n : Nat) : Decidable (ReadCount unread n) :=
  inferInstanceAs (Decidable (_ ∨ _))

/-- The call of `read`, when it returns `n`. -/
def readStep
    (n : Nat)
    (shared : Shared)
    (thread : Producer) : Option (Shared × Producer) :=
  if thread.pc = .read ∧ ReadCount shared.unread n then
    let buffer := shared.buff thread.i
    let filled :=
      { buffer with data := shared.unread.take n ++ buffer.data.drop n }
    some ({ shared with
        buff := Function.update shared.buff thread.i filled
        unread := shared.unread.drop n },
      { thread with pc := .storeCount n })
  else
    none

/-- One step of `producer` other than the call of `read`. -/
def producer
    (shared : Shared)
    (thread : Producer) : Option (Shared × Producer) :=
  match thread.pc with
  | .waitNempty =>
      (semWait shared.nempty).map fun tokens =>
        ({ shared with nempty := tokens }, { thread with pc := .waitMutex })
  | .waitMutex =>
      (semWait shared.mutex).map fun tokens =>
        ({ shared with mutex := tokens }, { thread with pc := .postMutex })
  | .postMutex =>
      some ({ shared with mutex := semPost shared.mutex },
        { thread with pc := .read })
  | .read =>
      none
  | .storeCount n =>
      some ({ shared with
          buff := Function.update shared.buff thread.i
            { shared.buff thread.i with n := n } },
        { thread with pc := .testEnd })
  | .testEnd =>
      if (shared.buff thread.i).n = 0 then
        some (shared, { thread with pc := .leaveNstored })
      else
        some (shared, { thread with pc := .increment })
  | .increment =>
      some (shared, { pc := .postNstored, i := nextIndex thread.i })
  | .postNstored =>
      some ({ shared with nstored := semPost shared.nstored },
        { thread with pc := .waitNempty })
  | .leaveNstored =>
      some ({ shared with nstored := semPost shared.nstored },
        { thread with pc := .returned })
  | .returned =>
      none

/-- One step of `consumer`. -/
def consumer
    (shared : Shared)
    (thread : Consumer) : Option (Shared × Consumer) :=
  match thread.pc with
  | .waitNstored =>
      (semWait shared.nstored).map fun tokens =>
        ({ shared with nstored := tokens }, { thread with pc := .waitMutex })
  | .waitMutex =>
      (semWait shared.mutex).map fun tokens =>
        ({ shared with mutex := tokens }, { thread with pc := .postMutex })
  | .postMutex =>
      some ({ shared with mutex := semPost shared.mutex },
        { thread with pc := .testEnd })
  | .testEnd =>
      if (shared.buff thread.i).n = 0 then
        some (shared, { thread with pc := .returned })
      else
        some (shared, { thread with pc := .write })
  | .write =>
      some ({ shared with
          output := shared.output ++ (shared.buff thread.i).content },
        { thread with pc := .increment })
  | .increment =>
      some (shared, { pc := .postNempty, i := nextIndex thread.i })
  | .postNempty =>
      some ({ shared with nempty := semPost shared.nempty },
        { thread with pc := .waitNstored })
  | .returned =>
      none

/-- The two threads of a run. -/
structure State where
  shared : Shared
  producer : Producer
  consumer : Consumer

/-- The choices of the scheduler and of `read`. -/
inductive Action where
  | producer
  | read (n : Nat)
  | consumer
  deriving Repr, DecidableEq

/-- The interleavings of the two threads on one input file. -/
def system (file : List Byte) : System State Action Empty where
  initial :=
    { shared :=
        { buff := fun _ => { data := List.replicate buffSize 0, n := 0 }
          mutex := 1
          nempty := nbuff
          nstored := 0
          unread := file
          output := [] }
      producer := { pc := .waitNempty, i := 0 }
      consumer := { pc := .waitNstored, i := 0 } }
  step? state action :=
    match action with
    | .producer =>
        (producer state.shared state.producer).map fun (shared, next) =>
          ({ state with shared := shared, producer := next }, [])
    | .read n =>
        (readStep n state.shared state.producer).map fun (shared, next) =>
          ({ state with shared := shared, producer := next }, [])
    | .consumer =>
        (consumer state.shared state.consumer).map fun (shared, next) =>
          ({ state with shared := shared, consumer := next }, [])

/-- Both threads have returned. -/
def AllReturned (state : State) : Prop :=
  state.producer.pc = .returned ∧ state.consumer.pc = .returned

instance (state : State) : Decidable (AllReturned state) :=
  inferInstanceAs (Decidable (_ ∧ _))

/-- The producer accesses the buffer of its index. -/
def Producer.Working (thread : Producer) : Prop :=
  match thread.pc with
  | .read | .storeCount _ | .testEnd => True
  | _ => False

/-- The consumer accesses the buffer of its index. -/
def Consumer.Working (thread : Consumer) : Prop :=
  match thread.pc with
  | .testEnd | .write => True
  | _ => False

namespace Producer

/-- Holds `mutex`. -/
def crit (thread : Producer) : Nat :=
  match thread.pc with
  | .postMutex => 1
  | _ => 0

/-- Has taken an `nempty` token for a buffer it has not completed. -/
def slotTaken (thread : Producer) : Nat :=
  match thread.pc with
  | .waitMutex | .postMutex | .read | .storeCount _ => 1
  | _ => 0

/-- Has completed a buffer whose `nstored` token it has not posted. -/
def pending (thread : Producer) : Nat :=
  match thread.pc with
  | .testEnd | .increment | .postNstored | .leaveNstored => 1
  | _ => 0

/-- Has completed the buffer its index still points to. -/
def behind (thread : Producer) : Nat :=
  match thread.pc with
  | .testEnd | .increment | .leaveNstored | .returned => 1
  | _ => 0

end Producer

namespace Consumer

/-- Holds `mutex`. -/
def crit (thread : Consumer) : Nat :=
  match thread.pc with
  | .postMutex => 1
  | _ => 0

/-- Has taken an `nstored` token for a buffer it has not written. -/
def token (thread : Consumer) : Nat :=
  match thread.pc with
  | .waitMutex | .postMutex | .testEnd | .write | .returned => 1
  | _ => 0

/-- Has written a buffer whose `nempty` token it has not posted. -/
def debt (thread : Consumer) : Nat :=
  match thread.pc with
  | .increment | .postNempty => 1
  | _ => 0

/-- Has written the buffer its index still points to. -/
def behind (thread : Consumer) : Nat :=
  match thread.pc with
  | .increment => 1
  | _ => 0

end Consumer

/-- The index of a thread follows its position around the ring. -/
theorem nextIndex_slot (position : Nat) :
    nextIndex (slot nbuff position) = slot nbuff (position + 1) := by
  have indexIs : (slot nbuff position).val = position % 8 := rfl
  unfold nextIndex
  split
  · rename_i inRing
    apply Fin.ext
    change position % 8 + 1 = (position + 1) % 8
    change position % 8 + 1 < 8 at inRing
    omega
  · rename_i outside
    apply Fin.ext
    change 0 = (position + 1) % 8
    change ¬ position % 8 + 1 < 8 at outside
    omega

/-- What a step that only moves tokens leaves alone. -/
structure SameData (before after : Shared) : Prop where
  buff :
    after.buff = before.buff
  unread :
    after.unread = before.unread
  output :
    after.output = before.output

/-- What a step of the producer changes that completes no buffer. -/
structure ProducerMove
    (before after : Shared)
    (thread next : Producer) : Prop where
  nothingRead :
    (∀ n, thread.pc ≠ .storeCount n) ∧ ∀ n, next.pc ≠ .storeCount n
  data :
    SameData before after
  mutex :
    after.mutex + next.crit = before.mutex + thread.crit
  nempty :
    after.nempty + next.slotTaken = before.nempty + thread.slotTaken
  nstored :
    after.nstored + next.pending = before.nstored + thread.pending
  index :
    (next.behind = thread.behind ∧ next.i = thread.i) ∨
      (thread.behind = 1 ∧ next.behind = 0 ∧ next.i = nextIndex thread.i)

open Producer in
/-- The producer completes a buffer, or its step only moves tokens. -/
theorem producer_move
    {before after : Shared}
    {thread next : Producer}
    (taken : producer before thread = some (after, next)) :
    (∃ n, thread.pc = .storeCount n ∧
        next = { thread with pc := .testEnd } ∧
        after = { before with
          buff := Function.update before.buff thread.i
            { before.buff thread.i with n := n } }) ∨
      ProducerMove before after thread next := by
  obtain ⟨pc, i⟩ := thread
  cases pc with
  | waitNempty | waitMutex =>
      obtain ⟨tokens, available, outcome⟩ := Option.map_eq_some_iff.mp taken
      have held := semWait_eq_some.mp available
      simp only [Prod.mk.injEq] at outcome
      obtain ⟨rfl, rfl⟩ := outcome
      refine .inr ⟨⟨nofun, nofun⟩, ⟨rfl, rfl, rfl⟩, ?_, ?_, ?_,
        .inl ⟨rfl, rfl⟩⟩ <;>
        simp [crit, slotTaken, pending, held]
  | storeCount n =>
      simp only [producer, Option.some.injEq, Prod.mk.injEq] at taken
      obtain ⟨rfl, rfl⟩ := taken
      exact .inl ⟨n, rfl, rfl, rfl⟩
  | testEnd =>
      by_cases atEnd : (before.buff i).n = 0 <;>
        simp only [producer, atEnd, if_true, if_false, Option.some.injEq,
          Prod.mk.injEq] at taken <;>
        obtain ⟨rfl, rfl⟩ := taken <;>
        exact .inr ⟨⟨nofun, nofun⟩, ⟨rfl, rfl, rfl⟩, rfl, rfl, rfl,
          .inl ⟨rfl, rfl⟩⟩
  | increment =>
      simp only [producer, Option.some.injEq, Prod.mk.injEq] at taken
      obtain ⟨rfl, rfl⟩ := taken
      exact .inr ⟨⟨nofun, nofun⟩, ⟨rfl, rfl, rfl⟩, rfl, rfl, rfl,
        .inr ⟨rfl, rfl, rfl⟩⟩
  | read | returned =>
      simp [producer] at taken
  | _ =>
      simp only [producer, Option.some.injEq, Prod.mk.injEq] at taken
      obtain ⟨rfl, rfl⟩ := taken
      exact .inr ⟨⟨nofun, nofun⟩, ⟨rfl, rfl, rfl⟩, rfl, rfl, rfl,
        .inl ⟨rfl, rfl⟩⟩

/-- What a step of the consumer changes that writes no buffer. -/
structure ConsumerMove
    (before after : Shared)
    (thread next : Consumer) : Prop where
  notWriting :
    thread.pc ≠ .write
  data :
    SameData before after
  mutex :
    after.mutex + next.crit = before.mutex + thread.crit
  nempty :
    after.nempty + next.debt = before.nempty + thread.debt
  nstored :
    after.nstored + next.token = before.nstored + thread.token
  index :
    (next.behind = thread.behind ∧ next.i = thread.i) ∨
      (thread.behind = 1 ∧ next.behind = 0 ∧ next.i = nextIndex thread.i)

open Consumer in
/-- The consumer writes a buffer, or its step only moves tokens. -/
theorem consumer_move
    {before after : Shared}
    {thread next : Consumer}
    (taken : consumer before thread = some (after, next)) :
    (thread.pc = .write ∧
        next = { thread with pc := .increment } ∧
        after = { before with
          output := before.output ++ (before.buff thread.i).content }) ∨
      ConsumerMove before after thread next := by
  obtain ⟨pc, i⟩ := thread
  cases pc with
  | waitNstored | waitMutex =>
      obtain ⟨tokens, available, outcome⟩ := Option.map_eq_some_iff.mp taken
      have held := semWait_eq_some.mp available
      simp only [Prod.mk.injEq] at outcome
      obtain ⟨rfl, rfl⟩ := outcome
      refine .inr ⟨nofun, ⟨rfl, rfl, rfl⟩, ?_, ?_, ?_, .inl ⟨rfl, rfl⟩⟩ <;>
        simp [crit, token, debt, held]
  | write =>
      simp only [consumer, Option.some.injEq, Prod.mk.injEq] at taken
      obtain ⟨rfl, rfl⟩ := taken
      exact .inl ⟨rfl, rfl, rfl⟩
  | testEnd =>
      by_cases atEnd : (before.buff i).n = 0 <;>
        simp only [consumer, atEnd, if_true, if_false, Option.some.injEq,
          Prod.mk.injEq] at taken <;>
        obtain ⟨rfl, rfl⟩ := taken <;>
        exact .inr ⟨nofun, ⟨rfl, rfl, rfl⟩, rfl, rfl, rfl, .inl ⟨rfl, rfl⟩⟩
  | increment =>
      simp only [consumer, Option.some.injEq, Prod.mk.injEq] at taken
      obtain ⟨rfl, rfl⟩ := taken
      exact .inr ⟨nofun, ⟨rfl, rfl, rfl⟩, rfl, rfl, rfl, .inr ⟨rfl, rfl, rfl⟩⟩
  | returned =>
      simp [consumer] at taken
  | _ =>
      simp only [consumer, Option.some.injEq, Prod.mk.injEq] at taken
      obtain ⟨rfl, rfl⟩ := taken
      exact .inr ⟨nofun, ⟨rfl, rfl, rfl⟩, rfl, rfl, rfl, .inl ⟨rfl, rfl⟩⟩

end CsPrimer.PxSem.MultiBuffer
