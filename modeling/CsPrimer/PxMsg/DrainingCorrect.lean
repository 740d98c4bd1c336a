import CsPrimer.PxMsg.Draining

namespace CsPrimer.PxMsg

open Library

/-!
# When the draining programs wait on unread messages

Each program is a queue that notifies once: what differs is where a
notification is in transit, as a pending signal, as a byte in the pipe or as a
thread that has not registered yet.
-/

theorem notified_arrival
    {message : Message}
    {raised : Bool}
    {trace : List DrainEvent} :
    decide (.notified ∈ trace ++ arrivalEvents message raised) =
      (decide (.notified ∈ trace) || raised) := by
  cases raised <;> simp [arrivalEvents]

namespace MqNotifySig4

variable
  {maxmsg : Nat}
  {initial : List Message}
  {trace events : List DrainEvent}
  {state next : State}
  {action : Action}

/-- The queue that notifies once behind a state of the program. -/
def view (trace : List DrainEvent) (state : State) : OneShot Message where
  queue := state.queue
  registered := state.registered
  inTransit := state.pending.toNat + if state.pc = .notify then 1 else 0
  draining := if state.pc = .receive then 1 else 0
  notified := .notified ∈ trace

/-- What holds in every run. -/
structure Watched
    (initial : List Message)
    (trace : List DrainEvent)
    (state : State) : Prop where
  sound : OneShot.Sound initial (view trace state)
  running : state.pc ≠ .exited
  conserved : Conserved initial trace state.queue

/-- An arrival is one of the queue, and a pending signal. -/
theorem Watched.send
    {message : Message}
    {queue : List Message}
    {raised : Bool}
    (watched : Watched initial trace state)
    (arrived :
      arrive maxmsg message state.queue state.registered =
        some (queue, raised)) :
    Watched initial (trace ++ arrivalEvents message raised)
      { state with
        queue := queue
        registered := state.registered && !raised
        pending := state.pending || raised } := by
  obtain ⟨sound, running, conserved⟩ := watched
  have moves := moves_of_arrive (view trace state) arrived
  refine ⟨?_, running, conserved_arrive arrived conserved⟩
  have single : raised = true → state.pending = false := by
    intro isRaised
    have isRegistered := ((arrive_spec arrived).2.mp isRaised).2
    have token := sound.token
    simp only [view, isRegistered, Bool.toNat_true] at token
    cases isPending : state.pending with
    | false =>
        rfl
    | true =>
        rw [isPending, Bool.toNat_true] at token
        omega
  have same :
      view (trace ++ arrivalEvents message raised)
          { state with
            queue := queue
            registered := state.registered && !raised
            pending := state.pending || raised } =
        (view trace state).arrived queue raised := by
    simp only [view, OneShot.arrived, notified_arrival, OneShot.mk.injEq,
      true_and, and_true]
    cases raised with
    | true =>
        rw [single rfl]
        simp only [Bool.or_true, Bool.toNat_true, Bool.toNat_false]
        omega
    | false =>
        simp
  rw [same]
  exact sound.preserved moves

/-- The steps of the loop keep the queue watched. -/
theorem Watched.loop
    (watched : Watched initial trace state)
    (taken : loop state = some (next, events)) :
    Watched initial (trace ++ events) next := by
  obtain ⟨sound, running, conserved⟩ := watched
  cases pc : state.pc with
  | testLoop =>
      simp only [MqNotifySig4.loop, pc] at taken
      split at taken <;>
        simp only [Option.some.injEq, Prod.mk.injEq] at taken <;>
        obtain ⟨rfl, rfl⟩ := taken <;>
        refine ⟨?_, by simp, by simpa using conserved⟩ <;>
        simpa [view, pc] using sound
  | sigwait =>
      simp only [MqNotifySig4.loop, pc, Option.ite_none_right_eq_some,
        Option.some.injEq, Prod.mk.injEq] at taken
      obtain ⟨isPending, rfl, rfl⟩ := taken
      refine ⟨?_, by simp, by simpa using conserved⟩
      simpa [view, pc, isPending] using sound
  | notify =>
      have free : state.registered = false :=
        sound.not_registered (by simp [view, pc])
      simp only [MqNotifySig4.loop, pc, free, Bool.false_eq_true, if_false,
        Option.some.injEq, Prod.mk.injEq] at taken
      obtain ⟨rfl, rfl⟩ := taken
      refine ⟨?_, by simp, by simpa using conserved⟩
      refine sound.preserved ?_
      have moves :=
        @OneShot.Moves.registers _ (view trace state) state.pending.toNat
          (by simp [view, pc])
      simpa [view, pc] using moves
  | receive =>
      cases isQueue : state.queue with
      | nil =>
          simp only [MqNotifySig4.loop, pc, isQueue, Option.some.injEq,
            Prod.mk.injEq] at taken
          obtain ⟨rfl, rfl⟩ := taken
          refine ⟨?_, by simp, by simpa [isQueue] using conserved⟩
          refine sound.preserved ?_
          have moves :=
            @OneShot.Moves.ends _ (view trace state) 0
              (by simp [view, pc]) isQueue
          simpa [view, pc, isQueue] using moves
      | cons message rest =>
          simp only [MqNotifySig4.loop, pc, isQueue, Option.some.injEq,
            Prod.mk.injEq] at taken
          obtain ⟨rfl, rfl⟩ := taken
          refine ⟨?_, by simp, ?_⟩
          · refine sound.preserved ?_
            have moves :=
              @OneShot.Moves.takes _ (view trace state) _ _
                (by simp [view, pc]) isQueue
            simpa [view, pc] using moves
          · rw [isQueue] at conserved
            exact conserved_read conserved
  | increment =>
      simp only [MqNotifySig4.loop, pc, Option.some.injEq, Prod.mk.injEq]
        at taken
      obtain ⟨rfl, rfl⟩ := taken
      refine ⟨?_, by simp, by simpa using conserved⟩
      simpa [view, pc] using sound
  | returned | exited =>
      simp [MqNotifySig4.loop, pc] at taken

theorem Watched.of_reaches
    (reaches : (program maxmsg initial).Reaches trace state) :
    Watched initial trace state := by
  induction reaches with
  | initial =>
      exact ⟨OneShot.Sound.initially, by simp [program],
        by simp [Conserved, sentIn, readIn, program]⟩
  | @step trace events state next action earlier taken inductionHypothesis =>
      cases action with
      | send message =>
          simp only [program, Option.ite_none_left_eq_some,
            Option.map_eq_some_iff, Prod.mk.injEq] at taken
          obtain ⟨-, ⟨queue, raised⟩, arrived, rfl, rfl⟩ := taken
          exact inductionHypothesis.send arrived
      | program =>
          exact inductionHypothesis.loop taken

/--
`mqnotifysig4` never fails to register, every message is received once or is
still on the queue, and while the program is blocked in `sigwait` the queue is
empty, unless it has held something from the start and no notification has
been raised since.
-/
theorem mqnotifysig4_drains
    (reaches : (program maxmsg initial).Reaches trace state) :
    state.pc ≠ .exited ∧
      Conserved initial trace state.queue ∧
      (state.pc = .sigwait → state.pending = false →
        (state.queue = [] ↔ initial = [] ∨ .notified ∈ trace)) := by
  obtain ⟨sound, running, conserved⟩ := Watched.of_reaches reaches
  refine ⟨running, conserved, ?_⟩
  intro isWaiting notPending
  have empty_iff :=
    sound.empty_iff (by simp [view, isWaiting, notPending])
      (by simp [view, isWaiting])
  simpa [view] using empty_iff

/-- Two messages arrive before the program waits, and are read at once. -/
theorem mqnotifysig4_drains_twoMessages :
    ∃ trace state,
      (program 10 []).Reaches trace state ∧
        state.pc = .sigwait ∧ state.pending = false ∧
        readIn trace = [⟨2, 7⟩, ⟨1, 5⟩] ∧
        (state.queue = [] ↔ [] = ([] : List Message) ∨
          .notified ∈ trace) := by
  obtain ⟨trace, state, reaches, observed⟩ :=
    System.Reaches.exists_of_run?
      (by decide :
        ((program 10 []).run? (program 10 []).initial
            [.send ⟨1, 5⟩, .send ⟨2, 7⟩, .program, .program, .program,
              .program, .program, .program, .program, .program]).any
          (fun outcome => decide (
            outcome.1.pc = .sigwait ∧ outcome.1.pending = false ∧
              readIn outcome.2 = [⟨2, 7⟩, ⟨1, 5⟩])) = true)
  obtain ⟨isWaiting, notPending, read⟩ := of_decide_eq_true observed
  exact ⟨trace, state, reaches, isWaiting, notPending, read,
    (mqnotifysig4_drains reaches).2.2 isWaiting notPending⟩

end MqNotifySig4

namespace MqNotifySig5

variable
  {maxmsg : Nat}
  {initial : List Message}
  {trace events : List DrainEvent}
  {state next : State}

/-- The queue that notifies once behind a state of the program. -/
def view (trace : List DrainEvent) (state : State) : OneShot Message where
  queue := state.queue
  registered := state.registered
  inTransit :=
    state.pending.toNat + state.pipe + if state.pc = .notify then 1 else 0
  draining := if state.pc = .receive then 1 else 0
  notified := .notified ∈ trace

/-- What holds in every run. -/
structure Watched
    (initial : List Message)
    (trace : List DrainEvent)
    (state : State) : Prop where
  sound : OneShot.Sound initial (view trace state)
  filled : state.pc = .readPipe → 0 < state.pipe
  conserved : Conserved initial trace state.queue
  ones : ∀ message n, .read message n ∈ trace → n = 1

/-- An arrival is one of the queue, and a pending signal. -/
theorem Watched.send
    {message : Message}
    {queue : List Message}
    {raised : Bool}
    (watched : Watched initial trace state)
    (arrived :
      arrive maxmsg message state.queue state.registered =
        some (queue, raised)) :
    Watched initial (trace ++ arrivalEvents message raised)
      { state with
        queue := queue
        registered := state.registered && !raised
        pending := state.pending || raised } := by
  obtain ⟨sound, filled, conserved, ones⟩ := watched
  have moves := moves_of_arrive (view trace state) arrived
  refine ⟨?_, filled, conserved_arrive arrived conserved, ?_⟩
  · have single : raised = true → state.pending = false := by
      intro isRaised
      have isRegistered := ((arrive_spec arrived).2.mp isRaised).2
      have token := sound.token
      simp only [view, isRegistered, Bool.toNat_true] at token
      cases isPending : state.pending with
      | false =>
          rfl
      | true =>
          rw [isPending, Bool.toNat_true] at token
          omega
    have same :
        view (trace ++ arrivalEvents message raised)
            { state with
              queue := queue
              registered := state.registered && !raised
              pending := state.pending || raised } =
          (view trace state).arrived queue raised := by
      simp only [view, OneShot.arrived, notified_arrival, OneShot.mk.injEq,
        true_and, and_true]
      cases raised with
      | true =>
          rw [single rfl]
          simp only [Bool.or_true, Bool.toNat_true, Bool.toNat_false]
          omega
      | false =>
          simp
    rw [same]
    exact sound.preserved moves
  · intro other n member
    refine ones other n ?_
    cases raised <;> simpa [arrivalEvents] using member

/-- The handler turns the pending signal into a byte. -/
theorem Watched.signal
    (watched : Watched initial trace state)
    (taken : deliver state = some (next, events)) :
    Watched initial (trace ++ events) next := by
  obtain ⟨sound, filled, conserved, ones⟩ := watched
  simp only [deliver, Option.ite_none_right_eq_some, Option.some.injEq,
    Prod.mk.injEq] at taken
  obtain ⟨isPending, rfl, rfl⟩ := taken
  rw [List.append_nil]
  refine ⟨?_, fun _ => Nat.succ_pos _, conserved, ones⟩
  by_cases isSelect : state.pc = .select
  · simpa [view, isSelect, isPending, Nat.add_comm] using sound
  · simpa [view, isSelect, isPending, Nat.add_comm] using sound

/-- The steps of the loop keep the queue watched. -/
theorem Watched.loop
    (watched : Watched initial trace state)
    (taken : loop state = some (next, events)) :
    Watched initial (trace ++ events) next := by
  obtain ⟨sound, filled, conserved, ones⟩ := watched
  cases pc : state.pc with
  | testLoop =>
      simp only [MqNotifySig5.loop, pc] at taken
      split at taken <;>
        simp only [Option.some.injEq, Prod.mk.injEq] at taken <;>
        obtain ⟨rfl, rfl⟩ := taken <;>
        rw [List.append_nil] <;>
        refine ⟨?_, by simp, conserved, ones⟩ <;>
        simpa [view, pc] using sound
  | select =>
      simp only [MqNotifySig5.loop, pc, Option.ite_none_right_eq_some,
        Option.some.injEq, Prod.mk.injEq] at taken
      obtain ⟨hasByte, rfl, rfl⟩ := taken
      rw [List.append_nil]
      refine ⟨?_, fun _ => hasByte, conserved, ones⟩
      simpa [view, pc] using sound
  | readPipe =>
      cases isPipe : state.pipe with
      | zero =>
          simp [MqNotifySig5.loop, pc, isPipe] at taken
      | succ bytes =>
          simp only [MqNotifySig5.loop, pc, isPipe, Option.some.injEq,
            Prod.mk.injEq] at taken
          obtain ⟨rfl, rfl⟩ := taken
          rw [List.append_nil]
          refine ⟨?_, by simp, conserved, ones⟩
          simpa [view, pc, isPipe, Nat.add_assoc] using sound
  | notify =>
      simp only [MqNotifySig5.loop, pc, Option.some.injEq, Prod.mk.injEq]
        at taken
      obtain ⟨rfl, rfl⟩ := taken
      rw [List.append_nil]
      refine ⟨?_, by simp, conserved, ones⟩
      refine sound.preserved ?_
      have moves :=
        @OneShot.Moves.registers _ (view trace state)
          (state.pending.toNat + state.pipe) (by simp [view, pc])
      simpa [view, pc] using moves
  | receive =>
      cases isQueue : state.queue with
      | nil =>
          simp only [MqNotifySig5.loop, pc, isQueue, Option.some.injEq,
            Prod.mk.injEq] at taken
          obtain ⟨rfl, rfl⟩ := taken
          rw [List.append_nil]
          refine ⟨?_, by simp, by simpa [isQueue] using conserved, ones⟩
          refine sound.preserved ?_
          have moves :=
            @OneShot.Moves.ends _ (view trace state) 0
              (by simp [view, pc]) isQueue
          simpa [view, pc, isQueue] using moves
      | cons message rest =>
          simp only [MqNotifySig5.loop, pc, isQueue, Option.some.injEq,
            Prod.mk.injEq] at taken
          obtain ⟨rfl, rfl⟩ := taken
          refine ⟨?_, by simp, ?_, ?_⟩
          · refine sound.preserved ?_
            have moves :=
              @OneShot.Moves.takes _ (view trace state) _ _
                (by simp [view, pc]) isQueue
            simpa [view, pc] using moves
          · rw [isQueue] at conserved
            exact conserved_read conserved
          · intro other n member
            rcases List.mem_append.mp member with before | now
            · exact ones other n before
            · rw [List.mem_singleton, DrainEvent.read.injEq] at now
              exact now.2
  | increment =>
      simp only [MqNotifySig5.loop, pc, Option.some.injEq, Prod.mk.injEq]
        at taken
      obtain ⟨rfl, rfl⟩ := taken
      rw [List.append_nil]
      refine ⟨?_, by simp, conserved, ones⟩
      simpa [view, pc] using sound
  | returned =>
      simp [MqNotifySig5.loop, pc] at taken

theorem Watched.of_reaches
    (reaches : (program maxmsg initial).Reaches trace state) :
    Watched initial trace state := by
  induction reaches with
  | initial =>
      exact ⟨OneShot.Sound.initially, by simp [program],
        by simp [Conserved, sentIn, readIn, program], by simp⟩
  | @step trace events state next action earlier taken inductionHypothesis =>
      cases action with
      | send message =>
          simp only [program, Option.ite_none_left_eq_some,
            Option.map_eq_some_iff, Prod.mk.injEq] at taken
          obtain ⟨-, ⟨queue, raised⟩, arrived, rfl, rfl⟩ := taken
          exact inductionHypothesis.send arrived
      | signal =>
          exact inductionHypothesis.signal taken
      | program =>
          exact inductionHypothesis.loop taken

/--
In `mqnotifysig5` no `mq_notify` fails and no read of the pipe blocks, also
when the handler has interrupted `select`; every message is received once or
is still on the queue, though each line shows a length of 1; and while the
program is blocked in `select` the queue is empty, unless it has held something
from the start and no notification has been raised since.
-/
theorem mqnotifysig5_drains
    (reaches : (program maxmsg initial).Reaches trace state) :
    (state.pc = .notify → state.registered = false) ∧
      (state.pc = .readPipe → 0 < state.pipe) ∧
      Conserved initial trace state.queue ∧
      (∀ message n, .read message n ∈ trace → n = 1) ∧
      (state.pc = .select → state.pending = false → state.pipe = 0 →
        (state.queue = [] ↔ initial = [] ∨ .notified ∈ trace)) := by
  obtain ⟨sound, filled, conserved, ones⟩ := Watched.of_reaches reaches
  refine ⟨?_, filled, conserved, ones, ?_⟩
  · intro isNotify
    exact sound.not_registered (by simp [view, isNotify])
  · intro isWaiting notPending noByte
    have empty_iff :=
      sound.empty_iff (by simp [view, isWaiting, notPending, noByte])
        (by simp [view, isWaiting])
    simpa [view] using empty_iff

/-- The signal interrupts `select`, and the program reads and waits again. -/
theorem mqnotifysig5_drains_oneMessage :
    ∃ trace state,
      (program 10 []).Reaches trace state ∧
        state.pc = .select ∧ state.pending = false ∧ state.pipe = 0 ∧
        trace = [.sent ⟨1, 5⟩, .notified, .read ⟨1, 5⟩ 1] ∧
        (state.queue = [] ↔ [] = ([] : List Message) ∨
          .notified ∈ trace) := by
  obtain ⟨trace, state, reaches, observed⟩ :=
    System.Reaches.exists_of_run?
      (by decide :
        ((program 10 []).run? (program 10 []).initial
            [.program, .send ⟨1, 5⟩, .signal, .program, .program, .program,
              .program, .program, .program]).any
          (fun outcome => decide (
            outcome.1.pc = .select ∧ outcome.1.pending = false ∧
              outcome.1.pipe = 0 ∧
              outcome.2 =
                [.sent ⟨1, 5⟩, .notified, .read ⟨1, 5⟩ 1])) = true)
  obtain ⟨isWaiting, notPending, noByte, isTrace⟩ :=
    of_decide_eq_true observed
  exact ⟨trace, state, reaches, isWaiting, notPending, noByte, isTrace,
    (mqnotifysig5_drains reaches).2.2.2.2 isWaiting notPending noByte⟩

end MqNotifySig5

namespace MqNotifyThread

variable
  {maxmsg : Nat}
  {initial : List Message}
  {trace events : List DrainEvent}
  {state next : State}

/-- The queue that notifies once behind a state of the program. -/
def view (trace : List DrainEvent) (state : State) : OneShot Message where
  queue := state.queue
  registered := state.registered
  inTransit := state.threads.count .started
  draining := state.threads.count .receiving
  notified := .notified ∈ trace

/-- What holds in every run. -/
structure Watched
    (initial : List Message)
    (trace : List DrainEvent)
    (state : State) : Prop where
  sound : OneShot.Sound initial (view trace state)
  conserved : Conserved initial trace state.queue

/-- How many threads are in a phase when one of them has changed. -/
theorem count_set
    {threads : List Phase}
    {index : Nat}
    {phase : Phase}
    (isPhase : threads[index]? = some phase)
    (other counted : Phase) :
    (threads.set index other).count counted +
        (if phase = counted then 1 else 0) =
      threads.count counted + if other = counted then 1 else 0 := by
  obtain ⟨less, isThread⟩ := List.getElem?_eq_some_iff.mp isPhase
  have counts := List.count_set (a := other) (b := counted) less
  rw [isThread] at counts
  simp only [beq_iff_eq] at counts
  by_cases isCounted : phase = counted
  · have positive : 0 < threads.count counted := by
      rw [List.count_pos_iff, ← isCounted, ← isThread]
      exact List.getElem_mem less
    rw [if_pos isCounted] at counts ⊢
    omega
  · rw [if_neg isCounted] at counts ⊢
    omega

/-- An arrival is one of the queue, and perhaps a new thread. -/
theorem Watched.send
    {message : Message}
    {queue : List Message}
    {raised : Bool}
    (watched : Watched initial trace state)
    (arrived :
      arrive maxmsg message state.queue state.registered =
        some (queue, raised)) :
    Watched initial (trace ++ arrivalEvents message raised)
      { state with
        queue := queue
        registered := state.registered && !raised
        threads :=
          if raised then
            state.threads ++ [.started]
          else
            state.threads } := by
  obtain ⟨sound, conserved⟩ := watched
  have moves := moves_of_arrive (view trace state) arrived
  refine ⟨?_, conserved_arrive arrived conserved⟩
  have same :
      view (trace ++ arrivalEvents message raised)
          { state with
            queue := queue
            registered := state.registered && !raised
            threads :=
              if raised then
                state.threads ++ [.started]
              else
                state.threads } =
        (view trace state).arrived queue raised := by
    simp only [view, OneShot.arrived, notified_arrival, OneShot.mk.injEq,
      true_and, and_true]
    cases raised <;> simp
  rw [same]
  exact sound.preserved moves

/-- The steps of a thread keep the queue watched. -/
theorem Watched.thread
    {index : Nat}
    (watched : Watched initial trace state)
    (taken : notifyThread state index = some (next, events)) :
    Watched initial (trace ++ events) next := by
  obtain ⟨sound, conserved⟩ := watched
  cases isThread : state.threads[index]? with
  | none =>
      simp [notifyThread, isThread] at taken
  | some phase =>
      have counts := count_set isThread
      cases phase with
      | started =>
          simp only [notifyThread, isThread, Option.some.injEq,
            Prod.mk.injEq] at taken
          obtain ⟨rfl, rfl⟩ := taken
          rw [List.append_nil]
          refine ⟨?_, conserved⟩
          refine sound.preserved ?_
          have fewer := counts .receiving .started
          have more := counts .receiving .receiving
          simp only [if_true, reduceCtorEq, if_false, Nat.add_zero]
            at fewer more
          have moves :=
            @OneShot.Moves.registers _ (view trace state) _ fewer.symm
          simpa only [view, more] using moves
      | receiving =>
          cases isQueue : state.queue with
          | nil =>
              simp only [notifyThread, isThread, isQueue, Option.some.injEq,
                Prod.mk.injEq] at taken
              obtain ⟨rfl, rfl⟩ := taken
              rw [List.append_nil]
              refine ⟨?_, isQueue ▸ conserved⟩
              refine sound.preserved ?_
              have same := counts .exited .started
              have fewer := counts .exited .receiving
              simp only [if_true, reduceCtorEq, if_false, Nat.add_zero]
                at same fewer
              have moves :=
                @OneShot.Moves.ends _ (view trace state) _ fewer.symm isQueue
              simpa only [view, same, isQueue] using moves
          | cons message rest =>
              simp only [notifyThread, isThread, isQueue, Option.some.injEq,
                Prod.mk.injEq] at taken
              obtain ⟨rfl, rfl⟩ := taken
              have isReceiving : .receiving ∈ state.threads :=
                List.mem_of_getElem? isThread
              refine ⟨?_, ?_⟩
              · refine sound.preserved ?_
                have moves :=
                  @OneShot.Moves.takes _ (view trace state) _ _
                    (List.count_pos_iff.mpr isReceiving) isQueue
                simpa [view] using moves
              · rw [isQueue] at conserved
                exact conserved_read conserved
      | exited =>
          simp [notifyThread, isThread] at taken

theorem Watched.of_reaches
    (reaches : (program maxmsg initial).Reaches trace state) :
    Watched initial trace state := by
  induction reaches with
  | initial =>
      exact ⟨OneShot.Sound.initially,
        by simp [Conserved, sentIn, readIn, program]⟩
  | @step trace events state next action earlier taken inductionHypothesis =>
      cases action with
      | send message =>
          simp only [program, Option.map_eq_some_iff, Prod.mk.injEq] at taken
          obtain ⟨⟨queue, raised⟩, arrived, rfl, rfl⟩ := taken
          exact inductionHypothesis.send arrived
      | thread index =>
          exact inductionHypothesis.thread taken

/--
In `mqnotifythread` there is no more than one thread that has not registered,
and its `mq_notify` does not fail; every message is received once or is still
on the queue, though several threads may drain it together; and when every
thread has exited the queue is empty, unless it has held something from the
start and no notification has been raised since.
-/
theorem mqnotifythread_drains
    (reaches : (program maxmsg initial).Reaches trace state) :
    state.threads.count .started ≤ 1 ∧
      (.started ∈ state.threads → state.registered = false) ∧
      Conserved initial trace state.queue ∧
      ((∀ phase ∈ state.threads, phase = .exited) →
        (state.queue = [] ↔ initial = [] ∨ .notified ∈ trace)) := by
  obtain ⟨sound, conserved⟩ := Watched.of_reaches reaches
  refine ⟨sound.inTransit_le, ?_, conserved, ?_⟩
  · intro isStarted
    exact sound.not_registered (List.count_pos_iff.mpr isStarted)
  · intro allExited
    have none_of (phase : Phase) (isOther : phase ≠ .exited) :
        state.threads.count phase = 0 := by
      rw [List.count_eq_zero]
      intro isThread
      exact isOther (allExited phase isThread)
    have empty_iff :=
      sound.empty_iff (none_of .started (by decide))
        (none_of .receiving (by decide))
    simpa [view] using empty_iff

/-- Two threads drain the queue together, and both exit. -/
theorem mqnotifythread_drains_twoThreads :
    ∃ trace state,
      (program 10 []).Reaches trace state ∧
        state.threads = [.exited, .exited] ∧
        readIn trace = [⟨1, 5⟩, ⟨2, 7⟩] ∧
        (state.queue = [] ↔ [] = ([] : List Message) ∨
          .notified ∈ trace) := by
  obtain ⟨trace, state, reaches, observed⟩ :=
    System.Reaches.exists_of_run?
      (by decide :
        ((program 10 []).run? (program 10 []).initial
            [.send ⟨1, 5⟩, .thread 0, .thread 0, .send ⟨2, 7⟩, .thread 1,
              .thread 0, .thread 1, .thread 0]).any
          (fun outcome => decide (
            outcome.1.threads = [.exited, .exited] ∧
              readIn outcome.2 = [⟨1, 5⟩, ⟨2, 7⟩])) = true)
  obtain ⟨allExited, read⟩ := of_decide_eq_true observed
  refine ⟨trace, state, reaches, allExited, read, ?_⟩
  refine (mqnotifythread_drains reaches).2.2.2 ?_
  rw [allExited]
  decide

end MqNotifyThread

end CsPrimer.PxMsg
