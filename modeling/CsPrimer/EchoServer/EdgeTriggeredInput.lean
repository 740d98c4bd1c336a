import CsPrimer.EchoServer.EdgeTriggered

namespace CsPrimer.EchoServer

open Library

/-!
# The edge-triggered server strands no input

A client with something to read has an edge, or it is due: its event is still
to come in the batch, it is being read, or it is about to be added.  A client
is only taken off its turn when a read has found nothing left.
-/

/-- The descriptors whose turn is still to come in this batch. -/
def Position.due : Position → List Nat
  | .waiting | .left => []
  | .handling rest | .accepting rest => rest
  | .setting clntSockfd rest | .adding clntSockfd rest =>
      clntSockfd.toList ++ rest
  | .reading sockfd rest | .writing sockfd _ rest => sockfd :: rest

/-- The descriptor that has been accepted and is not yet added. -/
def Position.entering : Position → Option Nat
  | .setting clntSockfd _ | .adding clntSockfd _ => clntSockfd
  | _ => none

theorem Position.due_of_entering
    {position : Position}
    {sockfd : Nat}
    (entering : position.entering = some sockfd) :
    sockfd ∈ position.due := by
  cases position <;>
    simp_all [Position.entering, Position.due]

/-- There is nothing to read. -/
def Client.Quiet (client : Client) : Prop :=
  client.queue = [] ∧ client.closed = false

/-- What the server may leave at a position. -/
def Client.Noticed
    (position : Position)
    (sockfd : Nat)
    (client : Client) : Prop :=
  client.Quiet ∨ client.edge = true ∨ sockfd ∈ position.due

/-- Every client with something to read has an edge or is due. -/
structure Attentive (servSockfd : Nat) (state : State) : Prop where
  listening :
    state.clients servSockfd = none
  added :
    ∀ sockfd client, state.clients sockfd = some client →
      client.added = true ∨ state.position.entering = some sockfd
  noticed :
    state.position ≠ .left →
      ∀ sockfd client, state.clients sockfd = some client →
        client.failed = false →
          client.Noticed state.position sockfd

namespace Attentive

variable
  {servSockfd sockfd : Nat}
  {state : State}
  {client : Client}

/-- What arrives for a client is noticed. -/
theorem raise
    {changed : Client}
    (attentive : Attentive servSockfd state)
    (isOpen : state.clients sockfd = some client)
    (sameAdded : changed.added = client.added) :
    Attentive servSockfd (state.set sockfd (some changed.raise)) := by
  have isAdded := attentive.added sockfd client isOpen
  constructor
  · have isOther : servSockfd ≠ sockfd := by
      rintro rfl
      rw [attentive.listening] at isOpen
      cases isOpen
    simpa [State.set, isOther] using attentive.listening
  · intro other later present
    by_cases isSockfd : other = sockfd
    · subst isSockfd
      obtain rfl : changed.raise = later := by
        simpa [State.set] using present
      exact isAdded.imp
        (fun wasAdded => by simp [Client.raise, sameAdded, wasAdded]) id
    · exact attentive.added other later
        (by simpa [State.set, isSockfd] using present)
  · intro stays other later present notFailed
    by_cases isSockfd : other = sockfd
    · subst isSockfd
      obtain rfl : changed.raise = later := by
        simpa [State.set] using present
      rcases isAdded with wasAdded | entering
      · exact .inr (.inl (by simp [Client.raise, sameAdded, wasAdded]))
      · exact .inr (.inr (Position.due_of_entering entering))
    · exact attentive.noticed stays other later
        (by simpa [State.set, isSockfd] using present) notFailed

/-- A step that changes one client keeps the turns of the others. -/
theorem turn
    {position : Position}
    {changed : Option Client}
    (attentive : Attentive servSockfd state)
    (stays : state.position ≠ .left)
    (notListening : sockfd = servSockfd → changed = none)
    (stillDue :
      ∀ other ∈ state.position.due, other ≠ sockfd →
        other ∈ position.due)
    (entered :
      ∀ other, state.position.entering = some other → other ≠ sockfd →
        position.entering = some other)
    (added :
      ∀ client ∈ changed,
        client.added = true ∨ position.entering = some sockfd)
    (noticed :
      ∀ client ∈ changed, client.failed = false →
        client.Noticed position sockfd) :
    Attentive servSockfd ((state.set sockfd changed).goTo position) := by
  constructor
  · by_cases isListening : sockfd = servSockfd
    · simpa [State.set, State.goTo, ← isListening] using
        notListening isListening
    · simpa [State.set, State.goTo, Ne.symm isListening] using
        attentive.listening
  · intro other later present
    by_cases isSockfd : other = sockfd
    · subst isSockfd
      exact added later (by simpa [State.set, State.goTo] using present)
    · have before := attentive.added other later
        (by simpa [State.set, State.goTo, isSockfd] using present)
      exact before.imp id fun entering => entered other entering isSockfd
  · intro _ other later present notFailed
    by_cases isSockfd : other = sockfd
    · subst isSockfd
      exact noticed later (by simpa [State.set, State.goTo] using present)
        notFailed
    · have before := attentive.noticed stays other later
        (by simpa [State.set, State.goTo, isSockfd] using present) notFailed
      exact before.imp id (Or.imp id fun due =>
        stillDue other due isSockfd)

/-- A step of the server that changes no client keeps their turns. -/
theorem goTo
    {position : Position}
    (attentive : Attentive servSockfd state)
    (stays : state.position ≠ .left)
    (entered :
      ∀ sockfd, state.position.entering = some sockfd →
        position.entering = some sockfd)
    (noticed :
      position ≠ .left →
        ∀ sockfd ∈ state.position.due,
          ∀ client, state.clients sockfd = some client →
            client.Noticed position sockfd) :
    Attentive servSockfd (state.goTo position) where
  listening :=
    attentive.listening
  added other later present :=
    (attentive.added other later present).imp id (entered other)
  noticed goesOn other later present notFailed := by
    rcases attentive.noticed stays other later present notFailed with
      quiet | edge | due
    · exact .inl quiet
    · exact .inr (.inl edge)
    · exact noticed goesOn other due later present

/-- `epoll_wait` makes the descriptors it reports due. -/
theorem report
    {events : List Nat}
    (attentive : Attentive servSockfd state)
    (isWaiting : state.position = .waiting) :
    Attentive servSockfd
      { state with
        position := .handling events
        clients := EchoServer.report state.clients events } := by
  have before :
      ∀ other later,
        EchoServer.report state.clients events other = some later →
        ∃ client, state.clients other = some client ∧
          later.added = client.added ∧
          (other ∈ events ∨ later = client) := by
    intro other later present
    unfold EchoServer.report at present
    split at present
    · next reported =>
      obtain ⟨client, isOpen, rfl⟩ := Option.map_eq_some_iff.mp present
      exact ⟨client, isOpen, rfl, .inl reported⟩
    · exact ⟨later, present, rfl, .inr rfl⟩
  constructor
  · simp [EchoServer.report, attentive.listening]
  · intro other later present
    obtain ⟨client, isOpen, sameAdded, -⟩ := before other later present
    have isAdded := attentive.added other client isOpen
    rw [isWaiting] at isAdded
    rw [sameAdded]
    exact isAdded.imp id fun impossible => by cases impossible
  · intro _ other later present notFailed
    obtain ⟨client, isOpen, -, reported | rfl⟩ := before other later present
    · exact .inr (.inr reported)
    · have stays : state.position ≠ .left := by
        intro hasLeft
        rw [isWaiting] at hasLeft
        cases hasLeft
      have noticed := attentive.noticed stays other _ isOpen notFailed
      rw [isWaiting] at noticed
      rcases noticed with quiet | edge | due
      · exact .inl quiet
      · exact .inr (.inl edge)
      · cases due

/-- The listening socket is not a client. -/
theorem ne_servSockfd
    (attentive : Attentive servSockfd state)
    (isOpen : state.clients sockfd = some client) :
    sockfd ≠ servSockfd := by
  rintro rfl
  rw [attentive.listening] at isOpen
  cases isOpen

theorem map_servSockfd
    (attentive : Attentive servSockfd state)
    (change : Client → Client)
    (isListening : sockfd = servSockfd) :
    (state.clients sockfd).map change = none := by
  rw [isListening, attentive.listening, Option.map_none]

/-- A step of the server that changes no client and takes no turn away. -/
theorem keepTurns
    {position : Position}
    (attentive : Attentive servSockfd state)
    (stays : state.position ≠ .left)
    (notEntering : state.position.entering = none)
    (stillDue : ∀ other ∈ state.position.due, other ∈ position.due) :
    Attentive servSockfd (state.goTo position) := by
  apply attentive.goTo stays
  · intro other entering
    rw [notEntering] at entering
    cases entering
  · intro _ other due client isOpen
    exact .inr (.inr (stillDue other due))

/-- The turn of the listening socket is not one of a client. -/
theorem handle
    {rest : List Nat}
    (attentive : Attentive servSockfd state)
    (isHandling : state.position = .handling (sockfd :: rest)) :
    Attentive servSockfd
      (state.goTo
        (if sockfd = servSockfd then .accepting rest
        else .reading sockfd rest)) := by
  apply attentive.goTo
  · simp [isHandling]
  · simp [isHandling, Position.entering]
  · intro _ other due client isOpen
    rw [isHandling] at due
    split
    · next isListening =>
      refine .inr (.inr ((List.mem_cons.mp due).resolve_left ?_))
      intro same
      exact attentive.ne_servSockfd isOpen (same.trans isListening)
    · exact .inr (.inr due)

/-- A new client is due until it has been added. -/
theorem accept
    {rest : List Nat}
    (attentive : Attentive servSockfd state)
    (isAccepting : state.position = .accepting rest)
    (isClient : sockfd ≠ servSockfd) :
    Attentive servSockfd
      { (state.set sockfd (some client)).goTo
          (.setting (some sockfd) rest) with
        accepted := state.accepted + 1 } := by
  have entering :
      Attentive servSockfd
        ((state.set sockfd (some client)).goTo
          (.setting (some sockfd) rest)) := by
    refine attentive.turn (by simp [isAccepting])
      (fun isListening => absurd isListening isClient) ?_ ?_
      (fun _ _ => .inr rfl)
      (fun _ _ _ => .inr (.inr List.mem_cons_self))
    · intro other due _
      rw [isAccepting] at due
      exact List.mem_cons_of_mem sockfd due
    · simp [isAccepting, Position.entering]
  exact ⟨entering.listening, entering.added, entering.noticed⟩

theorem setNonblocking
    {rest : List Nat}
    (attentive : Attentive servSockfd state)
    (isSetting : state.position = .setting (some sockfd) rest) :
    Attentive servSockfd
      ((state.set sockfd
          ((state.clients sockfd).map fun client =>
            { client with nonblocking := true })).goTo
        (.adding (some sockfd) rest)) := by
  refine attentive.turn (by simp [isSetting])
    (attentive.map_servSockfd _) ?_ ?_ (fun _ _ => .inr rfl)
    (fun _ _ _ => .inr (.inr List.mem_cons_self))
  · intro other due _
    rwa [isSetting] at due
  · intro other entering _
    rwa [isSetting] at entering

/-- A client that is added has an edge if there is something to read by now. -/
theorem add
    {rest : List Nat}
    (attentive : Attentive servSockfd state)
    (isAdding : state.position = .adding (some sockfd) rest) :
    Attentive servSockfd
      ((state.set sockfd
          ((state.clients sockfd).map fun client =>
            { client with
              added := true
              edge := client.queue ≠ [] || client.closed })).goTo
        (.handling rest)) := by
  refine attentive.turn (by simp [isAdding])
    (attentive.map_servSockfd _) ?_ ?_ ?_ ?_
  · intro other due isLater
    rw [isAdding] at due
    exact (List.mem_cons.mp due).resolve_left isLater
  · intro other entering isLater
    rw [isAdding] at entering
    exact absurd (Option.some.inj entering).symm isLater
  · intro changed isChanged
    obtain ⟨client, -, rfl⟩ := Option.map_eq_some_iff.mp isChanged
    exact .inl rfl
  · intro changed isChanged _
    obtain ⟨client, -, rfl⟩ := Option.map_eq_some_iff.mp isChanged
    by_cases isQuiet : client.queue = [] ∧ client.closed = false
    · exact .inl isQuiet
    · refine .inr (.inl ?_)
      simpa [Decidable.or_iff_not_imp_left] using isQuiet

/-- A client that has been read stays due until there is nothing left. -/
theorem read
    {count : Nat}
    {rest : List Nat}
    (attentive : Attentive servSockfd state)
    (isReading : state.position = .reading sockfd rest)
    (isOpen : state.clients sockfd = some client) :
    Attentive servSockfd
      ((state.set sockfd
          (some { client with queue := client.queue.drop count })).goTo
        (.writing sockfd (client.queue.take count) rest)) := by
  have isAdded := attentive.added sockfd client isOpen
  rw [isReading] at isAdded
  refine attentive.turn (by simp [isReading])
    (fun isListening =>
      absurd isListening (attentive.ne_servSockfd isOpen)) ?_ ?_ ?_
    (fun _ _ _ => .inr (.inr List.mem_cons_self))
  · intro other due _
    rwa [isReading] at due
  · simp [isReading, Position.entering]
  · intro changed isChanged
    obtain rfl := Option.mem_some_iff.mp isChanged
    exact isAdded.imp id fun impossible => by cases impossible

/-- The turn of the client that is being read ends with its descriptor. -/
theorem leave
    {rest : List Nat}
    {changed : Option Client}
    (attentive : Attentive servSockfd state)
    (isReading : state.position = .reading sockfd rest)
    (notListening : sockfd = servSockfd → changed = none)
    (added : ∀ client ∈ changed, client.added = true)
    (failed : ∀ client ∈ changed, client.failed = true) :
    Attentive servSockfd
      ((state.set sockfd changed).goTo (.handling rest)) := by
  apply attentive.turn
  · simp [isReading]
  · exact notListening
  · intro other due isLater
    rw [isReading] at due
    exact (List.mem_cons.mp due).resolve_left isLater
  · simp [isReading, Position.entering]
  · intro client isChanged
    exact .inl (added client isChanged)
  · intro client isChanged notFailed
    rw [failed client isChanged] at notFailed
    cases notFailed

/-- The turn of a client that is being read ends when it is quiet or gone. -/
theorem leaveQuiet
    {rest : List Nat}
    (attentive : Attentive servSockfd state)
    (isReading : state.position = .reading sockfd rest)
    (isQuiet :
      ∀ client, state.clients sockfd = some client → client.Quiet) :
    Attentive servSockfd (state.goTo (.handling rest)) := by
  apply attentive.goTo
  · simp [isReading]
  · simp [isReading, Position.entering]
  · intro _ other due client isOpen
    rw [isReading] at due
    rcases List.mem_cons.mp due with rfl | inRest
    · exact .inl (isQuiet client isOpen)
    · exact .inr (.inr inRest)

/-- Every step keeps the turns. -/
theorem preserved
    {next : State}
    {events : List Event}
    (attentive : Attentive servSockfd state)
    (taken : Taken servSockfd state next events) :
    Attentive servSockfd next := by
  cases taken with
  | arrives isOpen | closes isOpen =>
      exact attentive.raise isOpen rfl
  | reports isWaiting =>
      exact attentive.report isWaiting
  | leaves mayLeave =>
      refine attentive.goTo ?_ ?_ fun stays => absurd rfl stays
      · rcases mayLeave with isWaiting | ⟨sockfd, buf, rest, isWriting⟩
        · simp [isWaiting]
        · simp [isWriting]
      · rcases mayLeave with isWaiting | ⟨sockfd, buf, rest, isWriting⟩
        · simp [isWaiting, Position.entering]
        · simp [isWriting, Position.entering]
  | handles isHandling =>
      exact attentive.handle isHandling
  | accepts isAccepting isFree isClient isNew =>
      exact attentive.accept isAccepting isClient
  | waits isPosition | acceptFails isPosition
  | writes isPosition | writesClosed isPosition =>
      apply attentive.keepTurns <;>
        simp [isPosition, Position.due, Position.entering]
  | @sets clntSockfd rest isSetting =>
      cases clntSockfd with
      | none =>
          apply attentive.keepTurns <;>
            simp [isSetting, Position.due, Position.entering]
      | some sockfd =>
          exact attentive.setNonblocking isSetting
  | @adds clntSockfd rest isAdding =>
      cases clntSockfd with
      | none =>
          apply attentive.keepTurns <;>
            simp [isAdding, Position.due, Position.entering]
      | some sockfd =>
          exact attentive.add isAdding
  | reads isReading isOpen =>
      exact attentive.read isReading isOpen
  | readsEnd isReading =>
      exact attentive.leave isReading (fun _ => rfl) (by simp) (by simp)
  | readsNothing isReading isOpen isQuiet =>
      apply attentive.leaveQuiet isReading
      intro later isLater
      rw [isOpen] at isLater
      exact Option.some.inj isLater ▸ isQuiet
  | readsClosed isReading isFree =>
      apply attentive.leaveQuiet isReading
      intro later isLater
      rw [isFree] at isLater
      cases isLater
  | @readFails sockfd rest isReading =>
      apply attentive.leave isReading (attentive.map_servSockfd _)
      · intro changed isChanged
        obtain ⟨client, isOpen, rfl⟩ := Option.map_eq_some_iff.mp isChanged
        have isAdded := attentive.added sockfd client isOpen
        rw [isReading] at isAdded
        exact isAdded.resolve_right fun impossible => by cases impossible
      · intro changed isChanged
        obtain ⟨client, -, rfl⟩ := Option.map_eq_some_iff.mp isChanged
        rfl

theorem initial (servSockfd : Nat) :
    Attentive servSockfd (system servSockfd).initial where
  listening :=
    rfl
  added _ _ isOpen := by
    cases isOpen
  noticed _ _ _ isOpen := by
    cases isOpen

end Attentive

/--
Whenever the server is about to call `epoll_wait`, every open client whose
reads have not failed has nothing to read, or an edge that is still to be
reported.
-/
theorem noInput_stranded
    (servSockfd : Nat)
    (trace : List Event)
    (state : State)
    (reaches : (system servSockfd).Reaches trace state)
    (isWaiting : state.position = .waiting)
    (sockfd : Nat)
    (client : Client)
    (isOpen : state.clients sockfd = some client)
    (notFailed : client.failed = false) :
    (client.queue = [] ∧ client.closed = false) ∨ client.edge = true := by
  have attentive : Attentive servSockfd state := by
    clear isOpen isWaiting
    induction reaches with
    | initial =>
        exact Attentive.initial servSockfd
    | step earlier taken inductionHypothesis =>
        exact inductionHypothesis.preserved (taken_of_step? taken)
  have noticed :=
    attentive.noticed (by rw [isWaiting]; nofun) sockfd client isOpen
      notFailed
  rw [isWaiting] at noticed
  rcases noticed with quiet | edge | due
  · exact .inl quiet
  · exact .inr edge
  · cases due

/-- Two clients; bytes arrive while the first is being read. -/
def twoClients : List Action :=
  [.epollWait [3], .nextEvent, .accept 5 [1, 2] false, .setNonblocking,
    .arrive 5 [3], .epollAdd, .nextEvent, .epollWait [3, 5], .nextEvent,
    .accept 6 [] false, .setNonblocking, .epollAdd, .nextEvent, .read 3,
    .arrive 5 [4, 5], .close 5, .write 3, .arrive 6 [7], .read 2, .write 0,
    .read 0, .nextEvent]

/-- Of these clients the second one is left, with an edge. -/
theorem noInput_stranded_twoClients :
    ∃ trace state,
      (system 3).Reaches trace state ∧ state.position = .waiting ∧
        (state.clients 5).isNone = true ∧
        ∃ client, state.clients 6 = some client ∧
          client.queue = [7] ∧
          ((client.queue = [] ∧ client.closed = false) ∨
            client.edge = true) := by
  obtain ⟨trace, state, reaches, observed⟩ :=
    System.Reaches.exists_of_run?
      (by decide +kernel :
        ((system 3).run? (system 3).initial twoClients).any
          (fun outcome => decide (
            outcome.1.position = .waiting ∧
              (outcome.1.clients 5).isNone = true ∧
              (outcome.1.clients 6).map (fun client =>
                (client.queue, client.failed)) =
                some ([7], false))) = true)
  obtain ⟨isWaiting, isClosed, isSecond⟩ := of_decide_eq_true observed
  obtain ⟨client, isOpen, same⟩ := Option.map_eq_some_iff.mp isSecond
  rw [Prod.mk.injEq] at same
  exact ⟨trace, state, reaches, isWaiting, isClosed, client, isOpen, same.1,
    noInput_stranded 3 trace state reaches isWaiting 6 client isOpen
      same.2⟩

end CsPrimer.EchoServer
