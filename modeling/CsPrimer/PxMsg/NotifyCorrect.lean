import CsPrimer.PxMsg.Notify

namespace CsPrimer.PxMsg

open Library

/-!
# When the notified programs sleep on unread messages

The registration, the pending signal and `mqflag` hand one token around: a
notification turns the registration into a signal, the handler the signal into
the flag, and the loop the flag into a registration.  Whether a sleeping
program has read everything depends on what the queue holds while it is
registered.
-/

variable
  {maxmsg : Nat}
  {queue : List Message}
  {message : Message}
  {trace events : List Event}
  {state next : State}
  {action : Action}

@[simp]
theorem enqueue_ne_nil (message : Message) (queue : List Message) :
    enqueue message queue ≠ [] := by
  intro empty
  have lengths := congrArg List.length empty
  rw [enqueue, List.orderedInsert_length] at lengths
  simp at lengths

/-- The part of the loop in which `SIGUSR1` is blocked. -/
def Pc.masked : Pc → Bool
  | .testFlag | .suspend | .suspended | .resetFlag | .notify | .receive
  | .receiving | .unblock => true
  | _ => false

/-- Where the token is, and where the signal is blocked. -/
structure Signals (state : State) : Prop where
  registered :
    state.registered = true → state.pending = false ∧ state.mqflag = 0
  pending :
    state.pending = true → state.mqflag = 0
  blocked :
    state.pc.masked = true → state.blocked = true
  flagged :
    state.pc = .resetFlag → state.mqflag ≠ 0
  reset :
    state.pc = .notify →
      state.registered = false ∧ state.pending = false ∧ state.mqflag = 0
  alert :
    state.pc ≠ .notify →
      state.registered = true ∨ state.pending = true ∨ state.mqflag ≠ 0

/-- What the two programs have in common in the steps they differ in. -/
structure Registers
    (notify receive : State → State × List Event) : Prop where
  notify :
    ∀ state, state.registered = false →
      notify state =
        ({ state with registered := true, pc := .receive }, [])
  receive :
    ∀ state, state.pc = .receive →
      ∃ queue pc,
        (receive state).1 = { state with queue := queue, pc := pc } ∧
          (pc = .receive ∨ pc = .receiving ∨ pc = .unblock)

theorem Signals.initial (queue : List Message) :
    Signals (State.initial queue) := by
  refine ⟨?_, ?_, ?_, ?_, ?_, ?_⟩ <;> simp [State.initial, Pc.masked]

/-- The registration is used up as long as a signal or the flag is left. -/
theorem Signals.not_registered
    (signals : Signals state)
    (raised : state.pending = true ∨ state.mqflag ≠ 0) :
    state.registered = false := by
  by_contra registered
  obtain ⟨notPending, notSet⟩ :=
    signals.registered (by simpa using registered)
  rcases raised with isPending | isSet
  · simp [notPending] at isPending
  · exact isSet notSet

/-- What `mq_send` does to the signals and to the queue. -/
theorem mqSend_cases
    (taken : mqSend maxmsg message state = some (next, events)) :
    Event.handled ∉ events ∧
      ((state.pc = .receiving ∧ next = { state with pc := .unblock }) ∨
        (state.pc ≠ .receiving ∧ state.queue = [] ∧
          state.registered = true ∧
          next = { state with
            queue := enqueue message state.queue
            registered := false
            pending := true }) ∨
        (state.pc ≠ .receiving ∧
          (state.registered = true → state.queue ≠ []) ∧
          next = { state with queue := enqueue message state.queue })) := by
  unfold mqSend at taken
  split at taken
  case isTrue waiting =>
    simp only [Option.some.injEq, Prod.mk.injEq] at taken
    obtain ⟨rfl, rfl⟩ := taken
    exact ⟨by simp, .inl ⟨waiting, rfl⟩⟩
  case isFalse notWaiting =>
    split at taken
    case isTrue =>
      simp at taken
    case isFalse =>
      split at taken
      case isTrue arrives =>
        simp only [Option.some.injEq, Prod.mk.injEq] at taken
        obtain ⟨rfl, rfl⟩ := taken
        exact ⟨by simp,
          .inr (.inl ⟨notWaiting, arrives.1, arrives.2, rfl⟩)⟩
      case isFalse quiet =>
        simp only [Option.some.injEq, Prod.mk.injEq] at taken
        obtain ⟨rfl, rfl⟩ := taken
        exact ⟨by simp, .inr (.inr ⟨notWaiting,
          fun registered empty => quiet ⟨empty, registered⟩, rfl⟩)⟩

/-- The handler runs in `sigsuspend`, or where the signal is unblocked. -/
theorem deliver_cases
    (taken : deliver state = some (next, events)) :
    state.pending = true ∧ events = [.handled] ∧
      ((state.pc = .suspended ∧
          next = { sigUsr1 state with pc := .testFlag }) ∨
        (state.pc ≠ .suspended ∧ state.blocked = false ∧
          next = sigUsr1 state)) := by
  unfold deliver at taken
  split at taken
  case isTrue pending =>
    split at taken
    case isTrue suspended =>
      simp only [Option.some.injEq, Prod.mk.injEq] at taken
      exact ⟨pending, taken.2.symm, .inl ⟨suspended, taken.1.symm⟩⟩
    case isFalse notSuspended =>
      split at taken
      case isTrue =>
        simp at taken
      case isFalse unblocked =>
        simp only [Option.some.injEq, Prod.mk.injEq] at taken
        exact ⟨pending, taken.2.symm,
          .inr ⟨notSuspended, by simpa using unblocked, taken.1.symm⟩⟩
  case isFalse =>
    simp at taken

theorem Signals.send
    (signals : Signals state)
    (taken : mqSend maxmsg message state = some (next, events)) :
    Signals next := by
  obtain ⟨registered, pending, blocked, flagged, reset, alert⟩ := signals
  obtain ⟨waiting, rfl⟩ | ⟨-, -, isRegistered, rfl⟩ | ⟨-, -, rfl⟩ :=
    (mqSend_cases taken).2
  · have masked := blocked (by simp [waiting, Pc.masked])
    exact ⟨registered, pending, fun _ => masked, by simp, by simp,
      fun _ => alert (by simp [waiting])⟩
  · refine ⟨by simp, fun _ => (registered isRegistered).2, blocked,
      flagged, fun isNotify => ?_, by simp⟩
    simp [(reset isNotify).1] at isRegistered
  · exact ⟨registered, pending, blocked, flagged, reset, alert⟩

theorem Signals.signal
    (signals : Signals state)
    (taken : deliver state = some (next, events)) :
    Signals next := by
  obtain ⟨isPending, -, cases⟩ := deliver_cases taken
  have notRegistered := signals.not_registered (.inl isPending)
  obtain ⟨registered, pending, blocked, flagged, reset, alert⟩ := signals
  obtain ⟨suspended, rfl⟩ | ⟨-, unblocked, rfl⟩ := cases
  · refine ⟨by simp [sigUsr1, notRegistered], by simp [sigUsr1],
      fun _ => blocked (by simp [suspended, Pc.masked]), by simp, by simp,
      by simp [sigUsr1]⟩
  · refine ⟨by simp [sigUsr1, notRegistered], by simp [sigUsr1], blocked,
      by simp [sigUsr1], fun isNotify => ?_, by simp [sigUsr1]⟩
    simp [(reset isNotify).2.1] at isPending

section Loop

variable {notify receive : State → State × List Event}

/-- What the steps of the loop do to the signals. -/
theorem Signals.loop
    (program : Registers notify receive)
    (signals : Signals state)
    (taken : loop notify receive state = some (next, events)) :
    Signals next := by
  have notRegistered := signals.not_registered
  obtain ⟨registered, pending, blocked, flagged, reset, alert⟩ := signals
  unfold PxMsg.loop at taken
  cases pc : state.pc with
  | testLoop =>
      simp only [pc] at taken
      split at taken <;>
        simp only [Option.some.injEq, Prod.mk.injEq] at taken <;>
        obtain ⟨rfl, rfl⟩ := taken
      · refine ⟨registered, pending, by simp [Pc.masked], by simp,
          by simp, fun _ => alert (by simp [pc])⟩
      · refine ⟨registered, pending, by simp [Pc.masked], by simp,
          by simp, fun _ => alert (by simp [pc])⟩
  | block =>
      simp only [pc, Option.some.injEq, Prod.mk.injEq] at taken
      obtain ⟨rfl, rfl⟩ := taken
      exact ⟨registered, pending, fun _ => rfl, by simp, by simp,
        fun _ => alert (by simp [pc])⟩
  | testFlag =>
      have masked := blocked (by simp [pc, Pc.masked])
      simp only [pc] at taken
      split at taken <;>
        simp only [Option.some.injEq, Prod.mk.injEq] at taken <;>
        obtain ⟨rfl, rfl⟩ := taken
      · exact ⟨registered, pending, fun _ => masked, by simp, by simp,
          fun _ => alert (by simp [pc])⟩
      · exact ⟨registered, pending, fun _ => masked,
          fun _ => by assumption, by simp,
          fun _ => alert (by simp [pc])⟩
  | suspend =>
      have masked := blocked (by simp [pc, Pc.masked])
      simp only [pc, Option.some.injEq, Prod.mk.injEq] at taken
      obtain ⟨rfl, rfl⟩ := taken
      exact ⟨registered, pending, fun _ => masked, by simp, by simp,
        fun _ => alert (by simp [pc])⟩
  | resetFlag =>
      have masked := blocked (by simp [pc, Pc.masked])
      have isSet := flagged pc
      simp only [pc, Option.some.injEq, Prod.mk.injEq] at taken
      obtain ⟨rfl, rfl⟩ := taken
      have notPending : state.pending = false := by
        by_contra isPending
        exact isSet (pending (by simpa using isPending))
      exact ⟨by simp [notRegistered (.inr isSet)], by simp,
        fun _ => masked, by simp,
        fun _ => ⟨notRegistered (.inr isSet), notPending, rfl⟩, by simp⟩
  | notify =>
      have masked := blocked (by simp [pc, Pc.masked])
      obtain ⟨free, notPending, notSet⟩ := reset pc
      simp only [pc, program.notify state free,
        Option.some.injEq, Prod.mk.injEq] at taken
      obtain ⟨rfl, rfl⟩ := taken
      exact ⟨fun _ => ⟨notPending, notSet⟩, fun _ => notSet,
        fun _ => masked, by simp, by simp, by simp⟩
  | receive =>
      have masked := blocked (by simp [pc, Pc.masked])
      obtain ⟨queue, after, shape, isAfter⟩ := program.receive state pc
      simp only [pc, Option.some.injEq] at taken
      obtain rfl : next = { state with queue := queue, pc := after } := by
        rw [← shape, taken]
      have other : after ≠ .notify ∧ after ≠ .resetFlag := by
        rcases isAfter with rfl | rfl | rfl <;> simp
      exact ⟨registered, pending, fun _ => masked,
        fun isReset => absurd isReset other.2,
        fun isNotify => absurd isNotify other.1,
        fun _ => alert (by simp [pc])⟩
  | unblock =>
      simp only [pc, PxMsg.unblock] at taken
      split at taken <;>
        simp only [Option.some.injEq, Prod.mk.injEq] at taken <;>
        obtain ⟨rfl, rfl⟩ := taken
      case isTrue isPending =>
        exact ⟨by simp [sigUsr1, notRegistered (.inl isPending)],
          by simp [sigUsr1],
          by simp [Pc.masked], by simp, by simp, by simp [sigUsr1]⟩
      case isFalse =>
        exact ⟨registered, pending, by simp [Pc.masked], by simp, by simp,
          fun _ => alert (by simp [pc])⟩
  | increment =>
      simp only [pc, Option.some.injEq, Prod.mk.injEq] at taken
      obtain ⟨rfl, rfl⟩ := taken
      exact ⟨registered, pending, by simp [Pc.masked], by simp, by simp,
        fun _ => alert (by simp [pc])⟩
  | suspended | receiving | returned | exited =>
      simp [pc] at taken

/-- Every step of a program that registers passes the token on. -/
theorem Signals.step
    (program : Registers notify receive)
    (signals : Signals state)
    (taken :
      (system notify receive maxmsg queue).step? state action =
        some (next, events)) :
    Signals next := by
  cases action with
  | send message =>
      exact signals.send taken
  | signal =>
      exact signals.signal taken
  | program =>
      exact signals.loop program taken

theorem Signals.of_reaches
    (program : Registers notify receive)
    (reaches :
      (system notify receive maxmsg queue).Reaches trace state) :
    Signals state := by
  induction reaches with
  | initial =>
      exact Signals.initial queue
  | step earlier taken inductionHypothesis =>
      exact inductionHypothesis.step program taken

/-- Outside its two own steps a program leaves the queue as it is. -/
theorem loop_frame
    (notNotify : state.pc ≠ .notify)
    (notReceive : state.pc ≠ .receive)
    (taken : loop notify receive state = some (next, events)) :
    next.queue = state.queue ∧ next.registered = state.registered ∧
      next.pc ≠ .receive ∧ next.pc ≠ .receiving ∧
      (Event.handled ∈ events → state.pending = true) := by
  unfold loop at taken
  cases pc : state.pc with
  | testLoop | testFlag =>
      simp only [pc] at taken
      split at taken <;>
        simp only [Option.some.injEq, Prod.mk.injEq] at taken <;>
        obtain ⟨rfl, rfl⟩ := taken <;>
        simp
  | block | suspend | resetFlag | increment =>
      simp only [pc, Option.some.injEq, Prod.mk.injEq] at taken
      obtain ⟨rfl, rfl⟩ := taken
      simp
  | unblock =>
      simp only [pc, unblock] at taken
      split at taken <;>
        simp only [Option.some.injEq, Prod.mk.injEq] at taken <;>
        obtain ⟨rfl, rfl⟩ := taken
      case isTrue isPending =>
        exact ⟨rfl, rfl, by simp, by simp, fun _ => isPending⟩
      case isFalse =>
        simp
  | notify =>
      exact absurd pc notNotify
  | receive =>
      exact absurd pc notReceive
  | suspended | receiving | returned | exited =>
      simp [pc] at taken

end Loop

/-- The part of the token a sleeping program waits for. -/
theorem Signals.registered_of_asleep
    (signals : Signals state)
    (asleep : state.Asleep) :
    state.registered = true := by
  obtain ⟨suspended, notSet, notPending⟩ := asleep
  rcases signals.alert (by simp [suspended]) with
    registered | pending | isSet
  · exact registered
  · simp [notPending] at pending
  · exact absurd notSet isSet

/-- A message that arrives on the empty queue wakes a sleeping program. -/
theorem Signals.wakes
    (signals : Signals state)
    (asleep : state.Asleep)
    (empty : state.queue = [])
    (taken : mqSend maxmsg message state = some (next, events)) :
    next.pending = true ∧ (deliver next).isSome := by
  have registered := signals.registered_of_asleep asleep
  obtain ⟨suspended, -, -⟩ := asleep
  obtain ⟨waiting, -⟩ | ⟨-, -, -, rfl⟩ | ⟨-, full, -⟩ :=
    (mqSend_cases taken).2
  · simp [suspended] at waiting
  · exact ⟨rfl, by simp [deliver, suspended]⟩
  · exact absurd empty (full registered)

namespace MqNotifySig3

theorem registers : Registers notify receive where
  notify state free := by
    simp [notify, mqNotify, free]
  receive state pc := by
    unfold receive
    split
    case h_1 empty =>
      exact ⟨[], .unblock, by rw [empty], by simp⟩
    case h_2 message queue _ =>
      exact ⟨queue, .receive, by rw [pc], by simp⟩

/--
Once a notification has been handled, the program is registered with messages
in the queue only while it drains the queue.
-/
def Drained (trace : List Event) (state : State) : Prop :=
  Event.handled ∈ trace → state.registered = true →
    state.pc ≠ .receive → state.queue = []

theorem Drained.send
    (drained : Drained trace state)
    (taken : mqSend maxmsg message state = some (next, events)) :
    Drained (trace ++ events) next := by
  intro handled registered pc
  obtain ⟨notHandled, cases⟩ := mqSend_cases taken
  have earlier : Event.handled ∈ trace := by
    simpa [notHandled] using handled
  obtain ⟨waiting, rfl⟩ | ⟨-, -, -, rfl⟩ | ⟨-, full, rfl⟩ := cases
  · exact drained earlier registered (by simp [waiting])
  · simp at registered
  · exact absurd (drained earlier registered pc) (full registered)

theorem Drained.signal
    (signals : Signals state)
    (taken : deliver state = some (next, events)) :
    Drained (trace ++ events) next := by
  intro _ registered _
  obtain ⟨pending, -, cases⟩ := deliver_cases taken
  have notRegistered := signals.not_registered (.inl pending)
  obtain ⟨-, rfl⟩ | ⟨-, -, rfl⟩ := cases <;>
    simp [sigUsr1, notRegistered] at registered

theorem Drained.loop
    (signals : Signals state)
    (drained : Drained trace state)
    (taken : PxMsg.loop notify receive state = some (next, events)) :
    Drained (trace ++ events) next := by
  intro handled registered pc
  by_cases atNotify : state.pc = .notify
  · have free := (signals.reset atNotify).1
    simp only [PxMsg.loop, atNotify, registers.notify state free,
      Option.some.injEq, Prod.mk.injEq] at taken
    exact absurd (taken.1 ▸ rfl) pc
  by_cases atReceive : state.pc = .receive
  · simp only [PxMsg.loop, atReceive, receive, Option.some.injEq] at taken
    split at taken <;>
      simp only [Prod.mk.injEq] at taken <;>
      obtain ⟨rfl, rfl⟩ := taken
    case h_1 empty =>
      exact empty
    case h_2 =>
      exact absurd rfl pc
  obtain ⟨sameQueue, sameRegistered, -, -, pending⟩ :=
    loop_frame atNotify atReceive taken
  rw [sameRegistered] at registered
  have earlier : Event.handled ∈ trace := by
    rcases List.mem_append.mp handled with earlier | now
    · exact earlier
    · simp [signals.not_registered (.inl (pending now))] at registered
  rw [sameQueue]
  exact drained earlier registered atReceive

theorem Drained.step
    (signals : Signals state)
    (drained : Drained trace state)
    (taken :
      (program maxmsg queue).step? state action = some (next, events)) :
    Drained (trace ++ events) next := by
  cases action with
  | send message =>
      exact drained.send taken
  | signal =>
      exact Drained.signal signals taken
  | program =>
      exact drained.loop signals taken

theorem Drained.of_reaches
    (reaches : (program maxmsg queue).Reaches trace state) :
    Drained trace state := by
  induction reaches with
  | initial =>
      intro handled
      simp at handled
  | step earlier taken inductionHypothesis =>
      exact inductionHypothesis.step
        (Signals.of_reaches registers earlier) taken

/--
`mqnotifysig3`, for any messages in the queue at the start and every
interleaving with the senders: once a notification has been handled, a program
that sleeps with no signal on its way has read everything and is registered,
and the next message wakes it.
-/
theorem mqnotifysig3_reads_everything
    (reaches : (program maxmsg queue).Reaches trace state)
    (handled : Event.handled ∈ trace)
    (asleep : state.Asleep) :
    state.queue = [] ∧ state.registered = true ∧
      ∀ message next events,
        (program maxmsg queue).step? state (.send message) =
            some (next, events) →
          next.pending = true ∧
            (program maxmsg queue).Enabled next .signal := by
  have signals := Signals.of_reaches registers reaches
  have registered := signals.registered_of_asleep asleep
  have empty : state.queue = [] :=
    Drained.of_reaches reaches handled registered (by simp [asleep.1])
  exact ⟨empty, registered, fun message next events taken =>
    signals.wakes asleep empty taken⟩

/-- Two messages cause one notification and are both read. -/
theorem mqnotifysig3_reads_everything_twoMessages :
    ∃ trace state,
      (program 10 []).Reaches trace state ∧ state.Asleep ∧
        trace.count .notified = 1 ∧
        Event.read 5 ∈ trace ∧ Event.read 7 ∈ trace ∧
        state.queue = [] ∧ state.registered = true := by
  obtain ⟨trace, state, reaches, outcome⟩ :=
    System.Reaches.exists_of_run?
      (by decide +kernel :
        ((program 10 []).run? (program 10 []).initial
          (List.replicate 4 .program ++
            [.send ⟨0, 5⟩, .signal, .send ⟨0, 7⟩] ++
            List.replicate 12 .program)).any
          (fun outcome => decide (
            outcome.1.Asleep ∧ Event.handled ∈ outcome.2 ∧
              outcome.2.count .notified = 1 ∧
              Event.read 5 ∈ outcome.2 ∧ Event.read 7 ∈ outcome.2)) = true)
  obtain ⟨asleep, handled, once, readFirst, readSecond⟩ :=
    of_decide_eq_true outcome
  obtain ⟨empty, registered, -⟩ :=
    mqnotifysig3_reads_everything reaches handled asleep
  exact ⟨trace, state, reaches, asleep, once, readFirst, readSecond, empty,
    registered⟩

end MqNotifySig3

namespace MqNotifySig2

theorem registers : Registers notify receive where
  notify state free := by
    simp [notify, mqNotify, free]
  receive state pc := by
    unfold receive
    split
    · exact ⟨state.queue, .receiving, rfl, by simp⟩
    · exact ⟨_, .unblock, rfl, by simp⟩

/--
When the program is about to receive a message in an iteration that is not the
last one, that message is the only one in the queue.
-/
def Single (state : State) (action : Action) : Prop :=
  action = .program → state.pc = .receive → state.i < 2 →
    state.queue.length = 1

instance (state : State) (action : Action) :
    Decidable (Single state action) :=
  inferInstanceAs (Decidable (_ → _ → _ → _))

/-- After the last `mq_receive` the program does not sleep again. -/
def Leaving (state : State) : Prop :=
  (2 ≤ state.i ∧ (state.pc = .unblock ∨ state.pc = .increment)) ∨
    (3 ≤ state.i ∧ (state.pc = .testLoop ∨ state.pc = .returned))

/-- What the queue holds when every message is received alone. -/
structure Received (state : State) : Prop where
  signalled :
    state.registered = false → state.queue ≠ []
  receiving :
    state.pc = .receive → state.registered = true ∧ state.queue ≠ []
  notWaiting :
    state.pc ≠ .receiving
  read :
    state.registered = true → state.pc ≠ .receive →
      state.queue = [] ∨ Leaving state

theorem Received.initial : Received (State.initial []) := by
  refine ⟨by simp [State.initial], by simp [State.initial],
    by simp [State.initial], fun _ _ => .inl rfl⟩

theorem Received.send
    (received : Received state)
    (taken : mqSend maxmsg message state = some (next, events)) :
    Received next := by
  obtain ⟨signalled, receiving, notWaiting, read⟩ := received
  obtain ⟨waiting, -⟩ | ⟨-, empty, -, rfl⟩ | ⟨-, full, rfl⟩ :=
    (mqSend_cases taken).2
  · exact absurd waiting notWaiting
  · exact ⟨by simp, fun atReceive => absurd empty (receiving atReceive).2,
      notWaiting, by simp⟩
  · refine ⟨by simp, fun atReceive => ⟨(receiving atReceive).1, by simp⟩,
      notWaiting, fun registered notReceive => .inr ?_⟩
    rcases read registered notReceive with empty | leaving
    · exact absurd empty (full registered)
    · exact leaving

theorem Received.signal
    (signals : Signals state)
    (received : Received state)
    (taken : deliver state = some (next, events)) :
    Received next := by
  obtain ⟨signalled, receiving, notWaiting, read⟩ := received
  obtain ⟨pending, -, cases⟩ := deliver_cases taken
  have notRegistered := signals.not_registered (.inl pending)
  have notEmpty := signalled notRegistered
  obtain ⟨-, rfl⟩ | ⟨-, -, rfl⟩ := cases
  · exact ⟨fun _ => notEmpty, by simp, by simp,
      by simp [sigUsr1, notRegistered]⟩
  · exact ⟨fun _ => notEmpty, receiving, notWaiting,
      by simp [sigUsr1, notRegistered]⟩

theorem Leaving.loop
    (leaving : Leaving state)
    (taken : PxMsg.loop notify receive state = some (next, events)) :
    Leaving next := by
  unfold PxMsg.loop at taken
  rcases leaving with ⟨last, pc | pc⟩ | ⟨last, pc | pc⟩
  · simp only [pc, unblock] at taken
    split at taken <;>
      simp only [Option.some.injEq, Prod.mk.injEq] at taken <;>
      obtain ⟨rfl, rfl⟩ := taken <;>
      exact .inl ⟨last, .inr rfl⟩
  · simp only [pc, Option.some.injEq, Prod.mk.injEq] at taken
    obtain ⟨rfl, rfl⟩ := taken
    exact .inr ⟨Nat.succ_le_succ last, .inl rfl⟩
  · simp only [pc, if_neg (Nat.not_lt.mpr last), Option.some.injEq,
      Prod.mk.injEq] at taken
    obtain ⟨rfl, rfl⟩ := taken
    exact .inr ⟨last, .inr rfl⟩
  · simp [pc] at taken

theorem Received.loop
    (signals : Signals state)
    (single : Single state .program)
    (received : Received state)
    (taken : PxMsg.loop notify receive state = some (next, events)) :
    Received next := by
  obtain ⟨signalled, receiving, notWaiting, read⟩ := received
  by_cases atNotify : state.pc = .notify
  · have free := (signals.reset atNotify).1
    simp only [PxMsg.loop, atNotify, registers.notify state free,
      Option.some.injEq, Prod.mk.injEq] at taken
    obtain ⟨rfl, rfl⟩ := taken
    exact ⟨by simp, fun _ => ⟨rfl, signalled free⟩, by simp, by simp⟩
  by_cases atReceive : state.pc = .receive
  · obtain ⟨registered, notEmpty⟩ := receiving atReceive
    obtain ⟨message, queue, shape⟩ := List.exists_cons_of_ne_nil notEmpty
    simp only [PxMsg.loop, atReceive, receive, shape, Option.some.injEq,
      Prod.mk.injEq] at taken
    obtain ⟨rfl, rfl⟩ := taken
    refine ⟨by simp [registered], by simp, by simp, fun _ _ => ?_⟩
    by_cases last : state.i < 2
    · have alone := single rfl atReceive last
      rw [shape, List.length_cons, Nat.add_eq_right,
        List.length_eq_zero_iff] at alone
      exact .inl alone
    · exact .inr (.inl ⟨Nat.not_lt.mp last, .inl rfl⟩)
  obtain ⟨sameQueue, sameRegistered, notReceive, notReceiving, -⟩ :=
    loop_frame atNotify atReceive taken
  refine ⟨fun free => ?_, fun pc => absurd pc notReceive, notReceiving,
    fun registered _ => ?_⟩
  · rw [sameQueue]
    exact signalled (sameRegistered ▸ free)
  · rcases read (sameRegistered ▸ registered) atReceive with
      empty | leaving
    · exact .inl (sameQueue.trans empty)
    · exact .inr (leaving.loop taken)

theorem Received.of_reaches
    (reaches :
      ((program maxmsg []).guarded Single).Reaches trace state) :
    Received state := by
  induction reaches with
  | initial =>
      exact Received.initial
  | @step _ _ _ _ action earlier taken inductionHypothesis =>
      have signals := Signals.of_reaches registers earlier.of_guarded
      obtain ⟨single, moved⟩ := System.guarded_step?_eq_some.mp taken
      cases action with
      | send message =>
          exact inductionHypothesis.send moved
      | signal =>
          exact inductionHypothesis.signal signals moved
      | program =>
          exact inductionHypothesis.loop signals single moved

/--
A message that is received while another one waits leaves the program
registered for a queue that is not empty: it goes to sleep.
-/
theorem exists_asleep
    (signals : Signals state)
    (received : Received state)
    (taken :
      (program maxmsg queue).step? state action = some (next, events))
    (crowded : ¬ Single state action) :
    ∃ final,
      (program maxmsg queue).run? next (List.replicate 6 .program) =
          some (final, []) ∧
        final.Asleep ∧ final.queue ≠ [] := by
  simp only [Single, Classical.not_imp] at crowded
  obtain ⟨rfl, pc, more, notSingle⟩ := crowded
  obtain ⟨registered, notEmpty⟩ := received.receiving pc
  obtain ⟨message, rest, shape⟩ := List.exists_cons_of_ne_nil notEmpty
  obtain ⟨notPending, notSet⟩ := signals.registered registered
  have waiting : rest ≠ [] := by
    rintro rfl
    simp [shape] at notSingle
  simp only [program, system, PxMsg.loop, pc, receive, shape,
    Option.some.injEq, Prod.mk.injEq] at taken
  obtain ⟨rfl, rfl⟩ := taken
  have again : state.i + 1 < 3 := by omega
  refine ⟨{ state with
      queue := rest
      blocked := true
      i := state.i + 1
      pc := .suspended }, ?_, ⟨rfl, notSet, notPending⟩, waiting⟩
  simp [System.run?, List.replicate, program, system, PxMsg.loop, unblock,
    notPending, notSet, again]

/--
`mqnotifysig2`, started on an empty queue, for every interleaving with the
senders: it never sleeps on a message in a run in which each message that is
received before the last iteration is the only one in the queue.  The first
time another one waits behind it, the program goes on to sleep on that one.
-/
theorem mqnotifysig2_loses_no_message
    (reaches :
      ((program maxmsg []).guarded Single).Reaches trace state) :
    (state.Asleep → state.queue = []) ∧
      ∀ action next events,
        (program maxmsg []).step? state action = some (next, events) →
        ¬ Single state action →
        ∃ later final,
          (program maxmsg []).Reaches (trace ++ events ++ later) final ∧
            final.Asleep ∧ final.queue ≠ [] := by
  have signals := Signals.of_reaches registers reaches.of_guarded
  have received := Received.of_reaches reaches
  constructor
  · intro asleep
    rcases received.read (signals.registered_of_asleep asleep)
        (by simp [asleep.1]) with empty | leaving
    · exact empty
    · simp [Leaving, asleep.1] at leaving
  · intro action next events taken crowded
    obtain ⟨final, executed, asleep, waiting⟩ :=
      exists_asleep signals received taken crowded
    have reached := (reaches.of_guarded.step taken).append_run? executed
    exact ⟨[], final, reached, asleep, waiting⟩

/-- Two messages, the second sent after the first has been read. -/
theorem mqnotifysig2_loses_no_message_oneByOne :
    ∃ trace state,
      ((program 10 []).guarded Single).Reaches trace state ∧
        state.Asleep ∧ trace.count .notified = 2 ∧ state.queue = [] := by
  obtain ⟨trace, state, reaches, outcome⟩ :=
    System.Reaches.exists_of_run?
      (by decide +kernel :
        (((program 10 []).guarded Single).run?
          ((program 10 []).guarded Single).initial
          (List.replicate 4 .program ++ [.send ⟨0, 5⟩, .signal] ++
            List.replicate 10 .program ++ [.send ⟨0, 7⟩, .signal] ++
            List.replicate 10 .program)).any
          (fun outcome => decide (
            outcome.1.Asleep ∧ outcome.2.count .notified = 2)) = true)
  obtain ⟨asleep, twice⟩ := of_decide_eq_true outcome
  exact ⟨trace, state, reaches, asleep, twice,
    (mqnotifysig2_loses_no_message reaches).1 asleep⟩

/--
A second message arrives before the first one is received: only the first one
causes a notification, and the program sleeps on the second one.
-/
theorem mqnotifysig2_loses_message :
    ¬ ∀ (maxmsg : Nat) (trace : List Event) (state : State),
      (program maxmsg []).Reaches trace state →
        state.Asleep → state.queue = [] := by
  intro always
  obtain ⟨trace, state, reaches, outcome⟩ :=
    System.Reaches.exists_of_run?
      (by decide +kernel :
        ((program 10 []).run? (program 10 []).initial
          (List.replicate 4 .program ++
            [.send ⟨0, 5⟩, .signal, .send ⟨0, 7⟩] ++
            List.replicate 10 .program)).any
          (fun outcome => decide (
            outcome.1.Asleep ∧ outcome.1.queue ≠ [])) = true)
  obtain ⟨asleep, waiting⟩ := of_decide_eq_true outcome
  exact waiting (always 10 trace state reaches asleep)

end MqNotifySig2

end CsPrimer.PxMsg
