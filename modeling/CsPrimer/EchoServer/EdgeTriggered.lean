import CsPrimer.Library.TransitionSystem

namespace CsPrimer.EchoServer

open Library

/-!
# `echo_EPETserver.c`: an echo server with edge-triggered epoll

The listening socket is level-triggered and may be reported at any time; its
`accept` may fail.  A client has an edge when it is added with something to
read, and whenever bytes or a close arrive later; `epoll_wait` reports clients
with an edge, and clears it.  `fcntl` and `epoll_ctl` succeed on an open
descriptor, and do nothing for the result of a failed `accept`.  Reads and
writes that would block a descriptor in blocking mode have no successor.
-/

/-- `BUF_SIZE`. -/
abbrev bufSize : Nat := 4

/-- `EPOLL_SIZE`. -/
abbrev epollSize : Nat := 50

/-- The socket behind the descriptor of a client. -/
structure Client where
  /-- The number of the `accept` that has returned the descriptor. -/
  connection : Nat
  nonblocking : Bool
  /-- Whether `epoll_ctl` has added it. -/
  added : Bool
  /-- What has arrived and has not been read. -/
  queue : List UInt8
  /-- Whether a close has arrived; reading it closes the descriptor. -/
  closed : Bool
  /-- Whether there is an edge that has not been reported. -/
  edge : Bool
  /-- Whether a read has failed with an error other than `EAGAIN`. -/
  failed : Bool
  deriving Repr, DecidableEq

/-- Where `main` is in its loop, with the events of the batch still to come. -/
inductive Position where
  | waiting
  | handling (rest : List Nat)
  | accepting (rest : List Nat)
  | setting (clntSockfd : Option Nat) (rest : List Nat)
  | adding (clntSockfd : Option Nat) (rest : List Nat)
  | reading (sockfd : Nat) (rest : List Nat)
  | writing (sockfd : Nat) (buf : List UInt8) (rest : List Nat)
  | left
  deriving Repr, DecidableEq

/-- The server and the open descriptors of its clients. -/
structure State where
  position : Position
  clients : Nat → Option Client
  /-- The number of connections so far. -/
  accepted : Nat

/-- A step of the server with the results of its calls, or of a peer. -/
inductive Action where
  | arrive (sockfd : Nat) (bytes : List UInt8)
  | close (sockfd : Nat)
  | epollWait (events : List Nat)
  | epollWaitFails
  | nextEvent
  | accept (sockfd : Nat) (queue : List UInt8) (closed : Bool)
  | acceptFails
  | setNonblocking
  | epollAdd
  | read (count : Nat)
  | readFails
  | write (count : Nat)
  | writeKills
  deriving Repr, DecidableEq

/-- What the server does on a connection. -/
inductive Event where
  | received (connection : Nat) (buf : List UInt8)
  | written (connection : Nat) (buf : List UInt8) (count : Nat)
  | drained (connection : Nat)
  deriving Repr, DecidableEq

/-- The descriptor of a client refers to other contents, or is closed. -/
def State.set
    (state : State)
    (sockfd : Nat)
    (client : Option Client) : State :=
  { state with clients := Function.update state.clients sockfd client }

/-- `main` goes on in its loop. -/
def State.goTo (state : State) (position : Position) : State :=
  { state with position := position }

/-- Something to read arrives, which is an edge for an added descriptor. -/
def Client.raise (client : Client) : Client :=
  { client with edge := client.edge || client.added }

/-- What a step of a peer does to the socket of a client. -/
def arriveAt
    (state : State)
    (sockfd : Nat)
    (change : Client → Client) : Option (State × List Event) :=
  match state.clients sockfd with
  | none =>
      none
  | some client =>
      if client.closed then
        none
      else
        some (state.set sockfd (some (change client).raise), [])

/-- The events `epoll_wait` can report. -/
def Reportable
    (servSockfd : Nat)
    (state : State)
    (events : List Nat) : Prop :=
  events ≠ [] ∧ events.length ≤ epollSize ∧ events.Nodup ∧
    ∀ sockfd ∈ events,
      sockfd = servSockfd ∨
        (state.clients sockfd).any Client.edge = true
  deriving Decidable

/-- The clients behind a report of these events. -/
def report
    (clients : Nat → Option Client)
    (events : List Nat)
    (sockfd : Nat) : Option Client :=
  if sockfd ∈ events then
    (clients sockfd).map fun client => { client with edge := false }
  else
    clients sockfd

/-- `read(ep_events[i].data.fd, buf, BUF_SIZE)` and the branch it leads to. -/
def readInto
    (state : State)
    (sockfd : Nat)
    (rest : List Nat)
    (count : Nat) : Option (State × List Event) :=
  match state.clients sockfd with
  | none =>
      some (state.goTo (.handling rest), [])
  | some client =>
      match client.queue with
      | [] =>
          if client.closed then
            some ((state.set sockfd none).goTo (.handling rest),
              [.drained client.connection])
          else if client.nonblocking then
            some (state.goTo (.handling rest),
              [.drained client.connection])
          else
            none
      | _ :: _ =>
          if 0 < count ∧ count ≤ bufSize ∧
              count ≤ client.queue.length then
            some ((state.set sockfd
                (some { client with queue := client.queue.drop count })).goTo
                (.writing sockfd (client.queue.take count) rest),
              [.received client.connection (client.queue.take count)])
          else
            none

/-- `write(ep_events[i].data.fd, buf, str_len)`, whose result is not used. -/
def writeFrom
    (state : State)
    (sockfd : Nat)
    (buf : List UInt8)
    (rest : List Nat)
    (count : Nat) : Option (State × List Event) :=
  match state.clients sockfd with
  | none =>
      some (state.goTo (.reading sockfd rest), [])
  | some client =>
      if count ≤ buf.length ∧
          (client.nonblocking = false → count = buf.length) then
        some (state.goTo (.reading sockfd rest),
          [.written client.connection buf count])
      else
        none

/-- The server behind its initialisation, and its peers. -/
def system (servSockfd : Nat) : System State Action Event where
  initial :=
    { position := .waiting
      clients := fun _ => none
      accepted := 0 }
  step? state action :=
    match action, state.position with
    | .arrive sockfd bytes, _ =>
        if bytes ≠ [] then
          arriveAt state sockfd fun client =>
            { client with queue := client.queue ++ bytes }
        else
          none
    | .close sockfd, _ =>
        arriveAt state sockfd fun client => { client with closed := true }
    | .epollWait events, .waiting =>
        if Reportable servSockfd state events then
          some ({ state with
            position := .handling events
            clients := report state.clients events }, [])
        else
          none
    | .epollWaitFails, .waiting =>
        some (state.goTo .left, [])
    | .nextEvent, .handling [] =>
        some (state.goTo .waiting, [])
    | .nextEvent, .handling (sockfd :: rest) =>
        if sockfd = servSockfd then
          some (state.goTo (.accepting rest), [])
        else
          some (state.goTo (.reading sockfd rest), [])
    | .accept sockfd queue closed, .accepting rest =>
        if state.clients sockfd = none ∧ sockfd ≠ servSockfd then
          some ({ (state.set sockfd
              (some
                { connection := state.accepted
                  nonblocking := false
                  added := false
                  queue := queue
                  closed := closed
                  edge := false
                  failed := false })).goTo
              (.setting (some sockfd) rest) with
            accepted := state.accepted + 1 }, [])
        else
          none
    | .acceptFails, .accepting rest =>
        some (state.goTo (.setting none rest), [])
    | .setNonblocking, .setting clntSockfd rest =>
        match clntSockfd with
        | none =>
            some (state.goTo (.adding none rest), [])
        | some sockfd =>
            some ((state.set sockfd
                ((state.clients sockfd).map fun client =>
                  { client with nonblocking := true })).goTo
                (.adding (some sockfd) rest), [])
    | .epollAdd, .adding clntSockfd rest =>
        match clntSockfd with
        | none =>
            some (state.goTo (.handling rest), [])
        | some sockfd =>
            some ((state.set sockfd
                ((state.clients sockfd).map fun client =>
                  { client with
                    added := true
                    edge := client.queue ≠ [] || client.closed })).goTo
                (.handling rest), [])
    | .read count, .reading sockfd rest =>
        readInto state sockfd rest count
    | .readFails, .reading sockfd rest =>
        some ((state.set sockfd
            ((state.clients sockfd).map fun client =>
              { client with failed := true })).goTo
            (.handling rest), [])
    | .write count, .writing sockfd buf rest =>
        writeFrom state sockfd buf rest count
    | .writeKills, .writing _ _ _ =>
        some (state.goTo .left, [])
    | _, _ =>
        none

/-- What a step of the server or of a peer can do. -/
inductive Taken (servSockfd : Nat) (state : State) :
    State → List Event → Prop where
  | arrives
      {sockfd : Nat}
      {client : Client}
      {bytes : List UInt8}
      (isOpen : state.clients sockfd = some client) :
      Taken servSockfd state
        (state.set sockfd
          (some { client with queue := client.queue ++ bytes }.raise)) []
  | closes
      {sockfd : Nat}
      {client : Client}
      (isOpen : state.clients sockfd = some client) :
      Taken servSockfd state
        (state.set sockfd (some { client with closed := true }.raise)) []
  | reports
      {events : List Nat}
      (isWaiting : state.position = .waiting)
      (reportable : Reportable servSockfd state events) :
      Taken servSockfd state
        { state with
          position := .handling events
          clients := report state.clients events } []
  | leaves
      (mayLeave :
        state.position = .waiting ∨
          ∃ sockfd buf rest, state.position = .writing sockfd buf rest) :
      Taken servSockfd state (state.goTo .left) []
  | waits
      (isHandling : state.position = .handling []) :
      Taken servSockfd state (state.goTo .waiting) []
  | handles
      {sockfd : Nat}
      {rest : List Nat}
      (isHandling : state.position = .handling (sockfd :: rest)) :
      Taken servSockfd state
        (state.goTo
          (if sockfd = servSockfd then .accepting rest
          else .reading sockfd rest)) []
  | accepts
      {sockfd : Nat}
      {rest : List Nat}
      {client : Client}
      (isAccepting : state.position = .accepting rest)
      (isFree : state.clients sockfd = none)
      (isOther : sockfd ≠ servSockfd)
      (isNew :
        client.connection = state.accepted ∧ client.added = false) :
      Taken servSockfd state
        { (state.set sockfd (some client)).goTo
            (.setting (some sockfd) rest) with
          accepted := state.accepted + 1 } []
  | acceptFails
      {rest : List Nat}
      (isAccepting : state.position = .accepting rest) :
      Taken servSockfd state (state.goTo (.setting none rest)) []
  | sets
      {clntSockfd : Option Nat}
      {rest : List Nat}
      (isSetting : state.position = .setting clntSockfd rest) :
      Taken servSockfd state
        ((clntSockfd.elim state fun sockfd =>
            state.set sockfd
              ((state.clients sockfd).map fun client =>
                { client with nonblocking := true })).goTo
          (.adding clntSockfd rest)) []
  | adds
      {clntSockfd : Option Nat}
      {rest : List Nat}
      (isAdding : state.position = .adding clntSockfd rest) :
      Taken servSockfd state
        ((clntSockfd.elim state fun sockfd =>
            state.set sockfd
              ((state.clients sockfd).map fun client =>
                { client with
                  added := true
                  edge := client.queue ≠ [] || client.closed })).goTo
          (.handling rest)) []
  | reads
      {sockfd count : Nat}
      {rest : List Nat}
      {client : Client}
      (isReading : state.position = .reading sockfd rest)
      (isOpen : state.clients sockfd = some client) :
      Taken servSockfd state
        ((state.set sockfd
            (some { client with queue := client.queue.drop count })).goTo
            (.writing sockfd (client.queue.take count) rest))
        [.received client.connection (client.queue.take count)]
  | readsEnd
      {sockfd : Nat}
      {rest : List Nat}
      {client : Client}
      (isReading : state.position = .reading sockfd rest)
      (isOpen : state.clients sockfd = some client) :
      Taken servSockfd state
        ((state.set sockfd none).goTo (.handling rest))
        [.drained client.connection]
  | readsNothing
      {sockfd : Nat}
      {rest : List Nat}
      {client : Client}
      (isReading : state.position = .reading sockfd rest)
      (isOpen : state.clients sockfd = some client)
      (isQuiet : client.queue = [] ∧ client.closed = false) :
      Taken servSockfd state (state.goTo (.handling rest))
        [.drained client.connection]
  | readsClosed
      {sockfd : Nat}
      {rest : List Nat}
      (isReading : state.position = .reading sockfd rest)
      (isFree : state.clients sockfd = none) :
      Taken servSockfd state (state.goTo (.handling rest)) []
  | readFails
      {sockfd : Nat}
      {rest : List Nat}
      (isReading : state.position = .reading sockfd rest) :
      Taken servSockfd state
        ((state.set sockfd
            ((state.clients sockfd).map fun client =>
              { client with failed := true })).goTo
          (.handling rest)) []
  | writes
      {sockfd count : Nat}
      {buf : List UInt8}
      {rest : List Nat}
      {client : Client}
      (isWriting : state.position = .writing sockfd buf rest)
      (isOpen : state.clients sockfd = some client)
      (isPrefix : count ≤ buf.length) :
      Taken servSockfd state (state.goTo (.reading sockfd rest))
        [.written client.connection buf count]
  | writesClosed
      {sockfd : Nat}
      {buf : List UInt8}
      {rest : List Nat}
      (isWriting : state.position = .writing sockfd buf rest)
      (isFree : state.clients sockfd = none) :
      Taken servSockfd state (state.goTo (.reading sockfd rest)) []

section Inversion

variable
  {servSockfd : Nat}
  {state next : State}
  {events : List Event}

theorem arriveAt_eq_some
    {sockfd : Nat}
    {change : Client → Client}
    (taken : arriveAt state sockfd change = some (next, events)) :
    ∃ client,
      state.clients sockfd = some client ∧
        next = state.set sockfd (some (change client).raise) ∧
        events = [] := by
  unfold arriveAt at taken
  cases isOpen : state.clients sockfd with
  | none =>
      simp [isOpen] at taken
  | some client =>
      simp only [isOpen, Option.ite_none_left_eq_some, Option.some.injEq,
        Prod.mk.injEq] at taken
      obtain ⟨-, rfl, rfl⟩ := taken
      exact ⟨client, rfl, rfl, rfl⟩

theorem taken_of_readInto
    {sockfd count : Nat}
    {rest : List Nat}
    (isReading : state.position = .reading sockfd rest)
    (taken : readInto state sockfd rest count = some (next, events)) :
    Taken servSockfd state next events := by
  unfold readInto at taken
  cases isOpen : state.clients sockfd with
  | none =>
      simp only [isOpen, Option.some.injEq, Prod.mk.injEq] at taken
      obtain ⟨rfl, rfl⟩ := taken
      exact .readsClosed isReading isOpen
  | some client =>
      cases isQueue : client.queue with
      | nil =>
          by_cases isClosed : client.closed = true
          · simp only [isOpen, isQueue, isClosed, if_true,
              Option.some.injEq, Prod.mk.injEq] at taken
            obtain ⟨rfl, rfl⟩ := taken
            exact .readsEnd isReading isOpen
          · rw [Bool.not_eq_true] at isClosed
            simp only [isOpen, isQueue, isClosed, Bool.false_eq_true,
              if_false, Option.ite_none_right_eq_some, Option.some.injEq,
              Prod.mk.injEq] at taken
            obtain ⟨-, rfl, rfl⟩ := taken
            exact .readsNothing isReading isOpen ⟨isQueue, isClosed⟩
      | cons byte behind =>
          simp only [isOpen, isQueue, Option.ite_none_right_eq_some,
            Option.some.injEq, Prod.mk.injEq] at taken
          obtain ⟨-, rfl, rfl⟩ := taken
          rw [← isQueue]
          exact .reads isReading isOpen

theorem taken_of_writeFrom
    {sockfd count : Nat}
    {buf : List UInt8}
    {rest : List Nat}
    (isWriting : state.position = .writing sockfd buf rest)
    (taken : writeFrom state sockfd buf rest count = some (next, events)) :
    Taken servSockfd state next events := by
  unfold writeFrom at taken
  cases isOpen : state.clients sockfd with
  | none =>
      simp only [isOpen, Option.some.injEq, Prod.mk.injEq] at taken
      obtain ⟨rfl, rfl⟩ := taken
      exact .writesClosed isWriting isOpen
  | some client =>
      simp only [isOpen, Option.ite_none_right_eq_some, Option.some.injEq,
        Prod.mk.injEq] at taken
      obtain ⟨⟨isPrefix, -⟩, rfl, rfl⟩ := taken
      exact .writes isWriting isOpen isPrefix

theorem taken_of_step?
    {action : Action}
    (taken :
      (system servSockfd).step? state action = some (next, events)) :
    Taken servSockfd state next events := by
  simp only [system] at taken
  split at taken
  · rw [Option.ite_none_right_eq_some] at taken
    obtain ⟨client, isOpen, rfl, rfl⟩ := arriveAt_eq_some taken.2
    exact .arrives isOpen
  · obtain ⟨client, isOpen, rfl, rfl⟩ := arriveAt_eq_some taken
    exact .closes isOpen
  · next isWaiting =>
    rw [Option.ite_none_right_eq_some] at taken
    obtain ⟨reportable, isNext⟩ := taken
    cases isNext
    exact .reports isWaiting reportable
  · next isWaiting =>
    cases taken
    exact .leaves (.inl isWaiting)
  · next isHandling =>
    cases taken
    exact .waits isHandling
  · next sockfd rest isHandling =>
    have isNext :
        next =
            state.goTo
              (if sockfd = servSockfd then .accepting rest
              else .reading sockfd rest) ∧
          events = [] := by
      split at taken <;> simp_all
    obtain ⟨rfl, rfl⟩ := isNext
    exact .handles isHandling
  · next isAccepting =>
    rw [Option.ite_none_right_eq_some] at taken
    obtain ⟨⟨isFree, isOther⟩, isNext⟩ := taken
    cases isNext
    exact .accepts isAccepting isFree isOther ⟨rfl, rfl⟩
  · next isAccepting =>
    cases taken
    exact .acceptFails isAccepting
  · next clntSockfd rest isSetting =>
    cases clntSockfd with
    | none | some sockfd =>
        cases taken
        exact .sets isSetting
  · next clntSockfd rest isAdding =>
    cases clntSockfd with
    | none | some sockfd =>
        cases taken
        exact .adds isAdding
  · next isReading =>
    exact taken_of_readInto isReading taken
  · next isReading =>
    cases taken
    exact .readFails isReading
  · next isWriting =>
    exact taken_of_writeFrom isWriting taken
  · next isWriting =>
    cases taken
    exact .leaves (.inr ⟨_, _, _, isWriting⟩)
  · cases taken

end Inversion

/-- A client is non-blocking, or `setnonblockingmode` is about to be called. -/
def NonBlocking (state : State) : Prop :=
  ∀ sockfd client, state.clients sockfd = some client →
    client.nonblocking = true ∨
      ∃ rest, state.position = .setting (some sockfd) rest

namespace NonBlocking

variable
  {servSockfd sockfd : Nat}
  {state next : State}
  {position : Position}

/-- One client changes, and the others keep their mode. -/
theorem turn
    {changed : Option Client}
    (nonBlocking : NonBlocking state)
    (own :
      ∀ client ∈ changed,
        client.nonblocking = true ∨
          ∃ rest, position = .setting (some sockfd) rest)
    (others :
      ∀ other, other ≠ sockfd →
        (∃ rest, state.position = .setting (some other) rest) →
          ∃ rest, position = .setting (some other) rest) :
    NonBlocking ((state.set sockfd changed).goTo position) := by
  intro other client isOpen
  by_cases isSockfd : other = sockfd
  · subst isSockfd
    exact own client (by simpa [State.set, State.goTo] using isOpen)
  · have before := nonBlocking other client
      (by simpa [State.set, State.goTo, isSockfd] using isOpen)
    exact before.imp id (others other isSockfd)

/-- No client changes, and none was still to be set. -/
theorem goTo
    (nonBlocking : NonBlocking state)
    (notSetting :
      ∀ sockfd rest, state.position ≠ .setting (some sockfd) rest) :
    NonBlocking (state.goTo position) := by
  intro other client isOpen
  rcases nonBlocking other client isOpen with isSet | ⟨rest, isSetting⟩
  · exact .inl isSet
  · exact absurd isSetting (notSetting other rest)

/-- Every step keeps the modes of the clients. -/
theorem preserved
    {events : List Event}
    (nonBlocking : NonBlocking state)
    (taken : Taken servSockfd state next events) :
    NonBlocking next := by
  cases taken with
  | arrives isOpen | closes isOpen =>
      have before := nonBlocking _ _ isOpen
      refine nonBlocking.turn ?_ fun _ _ isSetting => isSetting
      intro changed isChanged
      obtain rfl := Option.mem_some_iff.mp isChanged
      exact before
  | @reports batch isWaiting =>
      intro other client isReported
      refine .inl ?_
      have before :
          ∀ old, state.clients other = some old → old.nonblocking = true := by
        intro old isOpen
        simpa [isWaiting] using nonBlocking other old isOpen
      simp only [report] at isReported
      split at isReported
      · obtain ⟨old, isOpen, rfl⟩ := Option.map_eq_some_iff.mp isReported
        exact before old isOpen
      · exact before client isReported
  | leaves mayLeave =>
      refine nonBlocking.goTo ?_
      rcases mayLeave with isWaiting | ⟨sockfd, buf, rest, isWriting⟩
      · simp [isWaiting]
      · simp [isWriting]
  | waits isPosition | handles isPosition | acceptFails isPosition
  | readsNothing isPosition | readsClosed isPosition
  | writes isPosition | writesClosed isPosition =>
      exact nonBlocking.goTo (by simp [isPosition])
  | @accepts sockfd rest client isAccepting =>
      have entering :
          NonBlocking
            ((state.set sockfd (some client)).goTo
              (.setting (some sockfd) rest)) :=
        nonBlocking.turn (fun _ _ => .inr ⟨rest, rfl⟩)
          (by simp [isAccepting])
      exact entering
  | @sets clntSockfd rest isSetting =>
      cases clntSockfd with
      | none =>
          exact nonBlocking.goTo (by simp [isSetting])
      | some sockfd =>
          refine nonBlocking.turn ?_ ?_
          · intro changed isChanged
            obtain ⟨client, -, rfl⟩ := Option.map_eq_some_iff.mp isChanged
            exact .inl rfl
          · rintro other isOther ⟨behind, isOtherSetting⟩
            rw [isSetting] at isOtherSetting
            cases isOtherSetting
            exact absurd rfl isOther
  | @adds clntSockfd rest isAdding =>
      cases clntSockfd with
      | none =>
          exact nonBlocking.goTo (by simp [isAdding])
      | some sockfd =>
          refine nonBlocking.turn ?_ (by simp [isAdding])
          intro changed isChanged
          obtain ⟨client, isOpen, rfl⟩ := Option.map_eq_some_iff.mp isChanged
          simpa [isAdding] using nonBlocking sockfd client isOpen
  | @reads sockfd count rest client isReading isOpen =>
      refine nonBlocking.turn ?_ (by simp [isReading])
      intro changed isChanged
      obtain rfl := Option.mem_some_iff.mp isChanged
      simpa [isReading] using nonBlocking sockfd client isOpen
  | readsEnd isReading =>
      exact nonBlocking.turn (by simp) (by simp [isReading])
  | @readFails sockfd rest isReading =>
      refine nonBlocking.turn ?_ (by simp [isReading])
      intro changed isChanged
      obtain ⟨client, isOpen, rfl⟩ := Option.map_eq_some_iff.mp isChanged
      simpa [isReading] using nonBlocking sockfd client isOpen

theorem of_reaches
    {trace : List Event}
    (reaches : (system servSockfd).Reaches trace state) :
    NonBlocking state := by
  induction reaches with
  | initial =>
      intro sockfd client isOpen
      cases isOpen
  | step earlier taken inductionHypothesis =>
      exact inductionHypothesis.preserved (taken_of_step? taken)

end NonBlocking

/-- No read and no write makes the server wait for one client. -/
theorem enabled_of_reaches
    {servSockfd : Nat}
    {trace : List Event}
    {state : State}
    (reaches : (system servSockfd).Reaches trace state) :
    (∀ sockfd rest, state.position = .reading sockfd rest →
      ∃ count, (system servSockfd).Enabled state (.read count)) ∧
    ∀ sockfd buf rest, state.position = .writing sockfd buf rest →
      ∀ count, count ≤ buf.length →
        (system servSockfd).Enabled state (.write count) := by
  have nonBlocking := NonBlocking.of_reaches reaches
  constructor
  · intro sockfd rest isReading
    cases isOpen : state.clients sockfd with
    | none =>
        exact ⟨0, by simp [System.Enabled, system, isReading, readInto, isOpen]⟩
    | some client =>
        have isSet : client.nonblocking = true := by
          simpa [isReading] using nonBlocking sockfd client isOpen
        cases isQueue : client.queue with
        | nil =>
            refine ⟨0, ?_⟩
            cases isClosed : client.closed <;>
              simp [System.Enabled, system, isReading, readInto, isOpen,
                isQueue, isClosed, isSet]
        | cons byte behind =>
            refine ⟨1, ?_⟩
            simp [System.Enabled, system, isReading, readInto, isOpen,
              isQueue, bufSize]
  · intro sockfd buf rest isWriting count isPart
    cases isOpen : state.clients sockfd with
    | none =>
        simp [System.Enabled, system, isWriting, writeFrom, isOpen]
    | some client =>
        have isSet : client.nonblocking = true := by
          simpa [isWriting] using nonBlocking sockfd client isOpen
        simp [System.Enabled, system, isWriting, writeFrom, isOpen, isPart,
          isSet]

end CsPrimer.EchoServer
