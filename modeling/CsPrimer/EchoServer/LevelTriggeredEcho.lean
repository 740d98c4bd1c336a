import CsPrimer.EchoServer.LevelTriggeredCorrect

namespace CsPrimer.EchoServer.LevelTriggered

open Library

/-!
# The level-triggered servers echo every byte in order

A blocking write takes all it is offered, or it fails.  As long as nothing is
lost on a connection, what has been written to it, what is about to be written
and what has not been read are together what has arrived from it.
-/

/-- The connection an event is about. -/
def Event.connection : Event → Nat
  | .arrived connection _ | .received connection _ | .written connection _
  | .readFailed connection | .closed connection | .lost connection =>
      connection

/-- The bytes of an event that have arrived. -/
def Event.arrivedBytes : Event → List UInt8
  | .arrived _ bytes => bytes
  | _ => []

/-- The bytes of an event that have been written. -/
def Event.writtenBytes : Event → List UInt8
  | .written _ buf => buf
  | _ => []

/-- The events of one connection. -/
def eventsOn (connection : Nat) (trace : List Event) : List Event :=
  trace.filter fun event => event.connection = connection

/-- The bytes that have arrived on a connection, in order. -/
def arrivedOn (connection : Nat) (trace : List Event) : List UInt8 :=
  (eventsOn connection trace).flatMap Event.arrivedBytes

/-- The bytes that have been written to a connection, in order. -/
def writtenOn (connection : Nat) (trace : List Event) : List UInt8 :=
  (eventsOn connection trace).flatMap Event.writtenBytes

/-- Something has been lost on a connection. -/
def Lossy (connection : Nat) (trace : List Event) : Prop :=
  .lost connection ∈ trace

section Events

variable
  {connection : Nat}
  {trace events : List Event}

theorem eventsOn_append :
    eventsOn connection (trace ++ events) =
      eventsOn connection trace ++ eventsOn connection events :=
  List.filter_append ..

/-- Events on other connections change nothing for this one. -/
theorem eventsOn_eq_nil
    (others : ∀ event ∈ events, event.connection ≠ connection) :
    eventsOn connection events = [] := by
  simpa [eventsOn] using others

theorem arrivedOn_append :
    arrivedOn connection (trace ++ events) =
      arrivedOn connection trace ++ arrivedOn connection events := by
  simp [arrivedOn, eventsOn_append]

theorem writtenOn_append :
    writtenOn connection (trace ++ events) =
      writtenOn connection trace ++ writtenOn connection events := by
  simp [writtenOn, eventsOn_append]

/-- What one event says about its own connection. -/
theorem arrivedOn_own (event : Event) :
    arrivedOn event.connection [event] = event.arrivedBytes := by
  simp [arrivedOn, eventsOn]

theorem writtenOn_own (event : Event) :
    writtenOn event.connection [event] = event.writtenBytes := by
  simp [writtenOn, eventsOn]

theorem not_lossy_of_append
    (notLossy : ¬ Lossy connection (trace ++ events)) :
    ¬ Lossy connection trace ∧ ¬ Lossy connection events := by
  simpa [Lossy] using notLossy

end Events

/-- What has been read from a client and is about to be written to it. -/
def Position.inFlight
    {Scan : Type}
    (position : Position Scan)
    (sockfd : Nat) : List UInt8 :=
  match position with
  | .writing current buf _ => if current = sockfd then buf else []
  | .waiting | .scanning _ | .accepting _ | .reading _ _ | .left
  | .undefined => []

/-- What has arrived on a connection is accounted for. -/
def Accounted
    (connection : Nat)
    (rest : List UInt8)
    (trace : List Event) : Prop :=
  ¬ Lossy connection trace →
    arrivedOn connection trace = writtenOn connection trace ++ rest

/-- What has become of the bytes of every connection. -/
structure Echoing
    {multiplexer : Multiplexer}
    (trace : List Event)
    (state : State multiplexer) : Prop where
  numbered :
    ∀ event ∈ trace, event.connection < state.accepted
  distinct :
    ∀ {sockfd other client otherClient},
      state.clients sockfd = some client →
      state.clients other = some otherClient →
      client.connection = otherClient.connection → sockfd = other
  isOpen :
    ∀ {sockfd client}, state.clients sockfd = some client →
      client.connection < state.accepted ∧
        (client.reset = true → Lossy client.connection trace) ∧
        .closed client.connection ∉ trace ∧
        Accounted client.connection
          (state.position.inFlight sockfd ++ client.queue) trace
  isClosed :
    ∀ connection < state.accepted,
      (∀ sockfd client, state.clients sockfd = some client →
        client.connection ≠ connection) →
      Accounted connection [] trace

namespace Echoing

variable
  {multiplexer : Multiplexer}
  {listening : Listening multiplexer}
  {servSockfd sockfd : Nat}
  {trace events : List Event}
  {state next : State multiplexer}
  {position : Position multiplexer.Scan}
  {client changed : Client}

theorem initially :
    Echoing [] (system listening).initial where
  numbered _ member := by cases member
  distinct isOpen := by cases isOpen
  isOpen isOpen := by cases isOpen
  isClosed _ less := by cases less

/-- The server goes on, and nothing happens on any connection. -/
theorem goTo
    (echoing : Echoing trace state)
    (sameFlight :
      ∀ other, position.inFlight other = state.position.inFlight other) :
    Echoing (trace ++ []) (state.goTo position) := by
  rw [List.append_nil]
  exact
    { numbered := echoing.numbered
      distinct := echoing.distinct
      isOpen := by
        intro other client isOpen
        simpa [State.goTo, sameFlight] using echoing.isOpen isOpen
      isClosed := echoing.isClosed }

/-- Events on one connection change nothing for the others. -/
theorem accounted_append
    {connection other : Nat}
    {rest : List UInt8}
    (concerns : ∀ event ∈ events, event.connection = connection)
    (different : other ≠ connection)
    (accounted : Accounted other rest trace) :
    Accounted other rest (trace ++ events) := by
  intro notLossy
  have noEvents : eventsOn other events = [] := by
    refine eventsOn_eq_nil ?_
    intro event member same
    exact different (same.symm.trans (concerns event member))
  rw [arrivedOn_append, writtenOn_append]
  simp only [arrivedOn, writtenOn, noEvents, List.flatMap_nil, List.append_nil]
  exact accounted (not_lossy_of_append notLossy).1

/-- A step whose events are all about one connection. -/
theorem step
    (echoing : Echoing trace state)
    (connection : Nat)
    (concerns : ∀ event ∈ events, event.connection = connection)
    (grows : state.accepted ≤ next.accepted)
    (isNumber : connection < next.accepted)
    (distinct :
      ∀ {sockfd other client otherClient},
        next.clients sockfd = some client →
        next.clients other = some otherClient →
        client.connection = otherClient.connection → sockfd = other)
    (others :
      ∀ other client, next.clients other = some client →
        client.connection ≠ connection →
        state.clients other = some client ∧
          next.position.inFlight other = state.position.inFlight other)
    (own :
      ∀ other client, next.clients other = some client →
        client.connection = connection →
        (client.reset = true → Lossy connection (trace ++ events)) ∧
          .closed connection ∉ trace ++ events ∧
          Accounted connection
            (next.position.inFlight other ++ client.queue)
            (trace ++ events))
    (closed :
      ∀ number < next.accepted,
        (∀ other client, next.clients other = some client →
          client.connection ≠ number) →
        (number = connection → Accounted number [] (trace ++ events)) ∧
          (number ≠ connection →
            number < state.accepted ∧
              ∀ other client, state.clients other = some client →
                client.connection ≠ number)) :
    Echoing (trace ++ events) next where
  numbered event member := by
    rcases List.mem_append.mp member with before | now
    · exact Nat.lt_of_lt_of_le (echoing.numbered event before) grows
    · exact concerns event now ▸ isNumber
  distinct := distinct
  isOpen := by
    intro other client isOpen
    by_cases same : client.connection = connection
    · exact ⟨same ▸ isNumber, same ▸ own other client isOpen same⟩
    · obtain ⟨wasOpen, sameFlight⟩ := others other client isOpen same
      obtain ⟨less, lossy, notClosed, accounted⟩ := echoing.isOpen wasOpen
      refine ⟨Nat.lt_of_lt_of_le less grows,
        fun isReset => List.mem_append_left _ (lossy isReset), ?_, ?_⟩
      · intro member
        rcases List.mem_append.mp member with before | now
        · exact notClosed before
        · exact same (concerns _ now)
      · rw [sameFlight]
        exact accounted_append concerns same accounted
  isClosed number less free := by
    obtain ⟨own, other⟩ := closed number less free
    by_cases same : number = connection
    · exact own same
    · obtain ⟨wasLess, wasFree⟩ := other same
      exact accounted_append concerns same
        (echoing.isClosed number wasLess wasFree)

/-- A step that changes the socket of one client. -/
theorem turn
    (echoing : Echoing trace state)
    (position : Position multiplexer.Scan)
    (isOpen : state.clients sockfd = some client)
    (concerns : ∀ event ∈ events, event.connection = client.connection)
    (otherFlight :
      ∀ other, other ≠ sockfd →
        position.inFlight other = state.position.inFlight other)
    (sameConnection : changed.connection = client.connection)
    (isReset :
      changed.reset = true → Lossy client.connection (trace ++ events))
    (notClosed : .closed client.connection ∉ events)
    (accounted :
      Accounted client.connection
        (position.inFlight sockfd ++ changed.queue) (trace ++ events)) :
    Echoing (trace ++ events)
      ((state.set sockfd (some changed)).goTo position) := by
  obtain ⟨isNumber, -, wasNotClosed, -⟩ := echoing.isOpen isOpen
  have open_cases :
      ∀ other old,
        ((state.set sockfd (some changed)).goTo position).clients other =
            some old →
        (other = sockfd ∧ old = changed) ∨
          (other ≠ sockfd ∧ state.clients other = some old) := by
    intro other old oldOpen
    by_cases same : other = sockfd
    · subst same
      exact .inl ⟨rfl, by simpa [State.goTo, State.set] using oldOpen.symm⟩
    · exact .inr ⟨same,
        by simpa [State.goTo, State.set, same] using oldOpen⟩
  refine echoing.step client.connection concerns (Nat.le_refl _) isNumber
    ?_ ?_ ?_ ?_
  · intro first second firstClient secondClient firstOpen secondOpen same
    rcases open_cases _ _ firstOpen with ⟨rfl, rfl⟩ | ⟨-, firstWas⟩
    · rcases open_cases _ _ secondOpen with ⟨rfl, rfl⟩ | ⟨-, secondWas⟩
      · rfl
      · exact echoing.distinct isOpen secondWas (sameConnection ▸ same)
    · rcases open_cases _ _ secondOpen with ⟨rfl, rfl⟩ | ⟨-, secondWas⟩
      · exact echoing.distinct firstWas isOpen (sameConnection ▸ same)
      · exact echoing.distinct firstWas secondWas same
  · intro other old oldOpen different
    rcases open_cases _ _ oldOpen with ⟨rfl, rfl⟩ | ⟨isOther, wasOpen⟩
    · exact absurd sameConnection different
    · exact ⟨wasOpen, otherFlight other isOther⟩
  · intro other old oldOpen same
    rcases open_cases _ _ oldOpen with ⟨rfl, rfl⟩ | ⟨isOther, wasOpen⟩
    · refine ⟨isReset, ?_, accounted⟩
      intro member
      rcases List.mem_append.mp member with before | now
      · exact wasNotClosed before
      · exact notClosed now
    · exact absurd (echoing.distinct wasOpen isOpen same) isOther
  · intro number less free
    have different : number ≠ client.connection := by
      rintro rfl
      exact free sockfd changed (by simp [State.goTo, State.set])
        sameConnection
    refine ⟨fun same => absurd same different, fun _ => ⟨less, ?_⟩⟩
    intro other old wasOpen same
    by_cases isSockfd : other = sockfd
    · subst isSockfd
      rw [isOpen, Option.some.injEq] at wasOpen
      subst wasOpen
      exact different same.symm
    · exact free other old
        (by simpa [State.goTo, State.set, isSockfd] using wasOpen) same

/-- A step of the server that leaves the socket of its client alone. -/
theorem turn_same
    (echoing : Echoing trace state)
    (position : Position multiplexer.Scan)
    (isOpen : state.clients sockfd = some client)
    (concerns : ∀ event ∈ events, event.connection = client.connection)
    (otherFlight :
      ∀ other, other ≠ sockfd →
        position.inFlight other = state.position.inFlight other)
    (notClosed : .closed client.connection ∉ events)
    (accounted :
      Accounted client.connection
        (position.inFlight sockfd ++ client.queue) (trace ++ events)) :
    Echoing (trace ++ events) (state.goTo position) := by
  have same : (state.set sockfd (some client)).goTo position =
      state.goTo position := by
    simp [State.set, State.goTo, ← isOpen]
  rw [← same]
  have lossy := (echoing.isOpen isOpen).2.1
  exact echoing.turn position isOpen concerns otherFlight rfl
    (fun isReset => List.mem_append_left _ (lossy isReset)) notClosed
    accounted

/-- A new connection has a number of its own. -/
theorem accepts
    {scan : multiplexer.Scan}
    {watch : multiplexer.Watch}
    (echoing : Echoing trace state)
    (isAccepting : state.position = .accepting scan)
    (isFree : state.clients sockfd = none)
    (isNew : client.connection = state.accepted ∧ client.reset = false) :
    Echoing (trace ++ [.arrived state.accepted client.queue])
      { (state.set sockfd (some client)).goTo (.scanning scan) with
        watch := watch
        accepted := state.accepted + 1 } := by
  obtain ⟨isConnection, notReset⟩ := isNew
  have open_cases :
      ∀ other old,
        (state.set sockfd (some client)).clients other = some old →
        (other = sockfd ∧ old = client) ∨
          (other ≠ sockfd ∧ state.clients other = some old) := by
    intro other old oldOpen
    by_cases same : other = sockfd
    · subst same
      exact .inl ⟨rfl, by simpa [State.set] using oldOpen.symm⟩
    · exact .inr ⟨same, by simpa [State.set, same] using oldOpen⟩
  have older :
      ∀ other old, state.clients other = some old →
        old.connection ≠ state.accepted := by
    intro other old wasOpen
    exact Nat.ne_of_lt (echoing.isOpen wasOpen).1
  refine echoing.step state.accepted (by simp [Event.connection])
    (Nat.le_succ _) (Nat.lt_succ_self _) ?_ ?_ ?_ ?_
  · intro first second firstClient secondClient firstOpen secondOpen same
    rcases open_cases _ _ firstOpen with ⟨rfl, rfl⟩ | ⟨-, firstWas⟩
    · rcases open_cases _ _ secondOpen with ⟨rfl, rfl⟩ | ⟨-, secondWas⟩
      · rfl
      · exact absurd (same.symm.trans isConnection) (older _ _ secondWas)
    · rcases open_cases _ _ secondOpen with ⟨rfl, rfl⟩ | ⟨-, secondWas⟩
      · exact absurd (same.trans isConnection) (older _ _ firstWas)
      · exact echoing.distinct firstWas secondWas same
  · intro other old oldOpen different
    rcases open_cases _ _ oldOpen with ⟨rfl, rfl⟩ | ⟨-, wasOpen⟩
    · exact absurd isConnection different
    · exact ⟨wasOpen, by simp [State.goTo, isAccepting, Position.inFlight]⟩
  · intro other old oldOpen same
    rcases open_cases _ _ oldOpen with ⟨rfl, rfl⟩ | ⟨-, wasOpen⟩
    · have noEvents : eventsOn state.accepted trace = [] :=
        eventsOn_eq_nil fun event member =>
          Nat.ne_of_lt (echoing.numbered event member)
      refine ⟨by simp [notReset], ?_, fun _ => ?_⟩
      · intro member
        have before : .closed state.accepted ∈ trace := by
          simpa using member
        exact Nat.lt_irrefl _ (echoing.numbered _ before)
      · have isArrived :=
          arrivedOn_own (.arrived state.accepted old.queue)
        have isWritten :=
          writtenOn_own (.arrived state.accepted old.queue)
        simp only [Event.connection, Event.arrivedBytes, Event.writtenBytes]
          at isArrived isWritten
        rw [arrivedOn_append, writtenOn_append, isArrived, isWritten,
          arrivedOn, writtenOn, noEvents]
        simp [State.goTo, Position.inFlight]
    · exact absurd same (older _ _ wasOpen)
  · intro number less free
    have different : number ≠ state.accepted := by
      rintro rfl
      exact free sockfd client (by simp [State.goTo, State.set]) isConnection
    refine ⟨fun same => absurd same different, fun _ => ⟨?_, ?_⟩⟩
    · exact Nat.lt_of_le_of_ne (Nat.le_of_lt_succ less) different
    · intro other old wasOpen
      have isOther : other ≠ sockfd := by
        rintro rfl
        rw [isFree] at wasOpen
        cases wasOpen
      exact free other old
        (by simpa [State.goTo, State.set, isOther] using wasOpen)

/-- A connection is closed when all that has arrived has been written. -/
theorem closes
    {scan : multiplexer.Scan}
    {watch : multiplexer.Watch}
    (echoing : Echoing trace state)
    (isReading : state.position = .reading sockfd scan)
    (isOpen : state.clients sockfd = some client)
    (isEmpty : client.queue = []) :
    Echoing (trace ++ [.closed client.connection])
      { (state.set sockfd none).goTo (.scanning scan) with
        watch := watch } := by
  obtain ⟨isNumber, -, -, accounted⟩ := echoing.isOpen isOpen
  have was_open :
      ∀ other old, (state.set sockfd none).clients other = some old →
        other ≠ sockfd ∧ state.clients other = some old := by
    intro other old oldOpen
    have isOther : other ≠ sockfd := by
      rintro rfl
      simp [State.set] at oldOpen
    exact ⟨isOther, by simpa [State.set, isOther] using oldOpen⟩
  have noOther :
      ∀ other old, (state.set sockfd none).clients other = some old →
        old.connection ≠ client.connection := by
    intro other old oldOpen same
    obtain ⟨isOther, wasOpen⟩ := was_open other old oldOpen
    exact isOther (echoing.distinct wasOpen isOpen same)
  refine echoing.step client.connection
    (by simp [Event.connection]) (Nat.le_refl _) isNumber ?_ ?_ ?_ ?_
  · intro first second firstClient secondClient firstOpen secondOpen same
    exact echoing.distinct (was_open _ _ firstOpen).2
      (was_open _ _ secondOpen).2 same
  · intro other old oldOpen different
    exact ⟨(was_open _ _ oldOpen).2,
      by simp [State.goTo, isReading, Position.inFlight]⟩
  · intro other old oldOpen same
    exact absurd same (noOther _ _ oldOpen)
  · intro number less free
    refine ⟨?_, fun different => ⟨less, ?_⟩⟩
    · rintro rfl notLossy
      have before := accounted (not_lossy_of_append notLossy).1
      have isArrived := arrivedOn_own (.closed client.connection)
      have isWritten := writtenOn_own (.closed client.connection)
      simp only [Event.connection, Event.arrivedBytes, Event.writtenBytes]
        at isArrived isWritten
      rw [arrivedOn_append, writtenOn_append, isArrived, isWritten, before]
      simp [isReading, Position.inFlight, isEmpty]
    · intro other old wasOpen same
      by_cases isSockfd : other = sockfd
      · subst isSockfd
        rw [isOpen, Option.some.injEq] at wasOpen
        subst wasOpen
        exact different same.symm
      · exact free other old
          (by simpa [State.goTo, State.set, isSockfd] using wasOpen) same

/-- What an event adds to what has arrived and to what has been written. -/
theorem accounted_snoc
    (event : Event)
    {rest later : List UInt8}
    (accounted : Accounted event.connection rest trace)
    (moves : rest ++ event.arrivedBytes = event.writtenBytes ++ later) :
    Accounted event.connection later (trace ++ [event]) := by
  intro notLossy
  rw [arrivedOn_append, writtenOn_append, arrivedOn_own, writtenOn_own,
    accounted (not_lossy_of_append notLossy).1, List.append_assoc, moves,
    List.append_assoc]

/-- Every step accounts for the bytes it moves. -/
theorem preserved
    (echoing : Echoing trace state)
    (sound : Sound servSockfd state)
    (taken : Taken servSockfd state next events) :
    Echoing (trace ++ events) next := by
  cases taken with
  | @arrives current client bytes isOpen =>
      obtain ⟨-, lossy, -, accounted⟩ := echoing.isOpen isOpen
      refine echoing.turn state.position isOpen (by simp [Event.connection])
        (fun _ _ => rfl) rfl
        (fun isReset => List.mem_append_left _ (lossy isReset)) (by simp) ?_
      exact accounted_snoc (.arrived client.connection bytes) accounted
        (by simp [Event.arrivedBytes, Event.writtenBytes])
  | closes isOpen =>
      obtain ⟨-, lossy, -, accounted⟩ := echoing.isOpen isOpen
      refine echoing.turn state.position isOpen (by simp)
        (fun _ _ => rfl) rfl
        (fun isReset => List.mem_append_left _ (lossy isReset)) (by simp) ?_
      simpa using accounted
  | resets isOpen =>
      refine echoing.turn state.position isOpen (by simp [Event.connection])
        (fun _ _ => rfl) rfl (fun _ => by simp [Lossy]) (by simp) ?_
      exact fun notLossy => absurd (by simp [Lossy]) notLossy
  | reports isPosition | leaves isPosition | ends isPosition
  | skips isPosition | connects isPosition | handles isPosition
  | acceptFails isPosition | overflows isPosition
  | readsClosed isPosition =>
      refine echoing.goTo ?_
      simp [Position.inFlight, isPosition]
  | accepts isAccepting added isFree isClient isNew =>
      exact echoing.accepts isAccepting isFree isNew
  | @readFails current scan client isReading isOpen isReset =>
      obtain ⟨-, lossy, -, -⟩ := echoing.isOpen isOpen
      refine echoing.turn (.scanning scan) isOpen (by simp [Event.connection])
        (by simp [Position.inFlight, isReading]) rfl (by simp) (by simp) ?_
      exact fun notLossy =>
        absurd (lossy isReset) (not_lossy_of_append notLossy).1
  | readsEnd isReading isOpen isEmpty =>
      exact echoing.closes isReading isOpen isEmpty
  | @reads current count scan client isReading isOpen =>
      obtain ⟨-, lossy, -, accounted⟩ := echoing.isOpen isOpen
      refine echoing.turn _ isOpen (by simp [Event.connection]) ?_ rfl
        (fun isReset => List.mem_append_left _ (lossy isReset)) (by simp) ?_
      · intro other different
        simp [Position.inFlight, isReading, Ne.symm different]
      · exact accounted_snoc
          (.received client.connection (client.queue.take count)) accounted (by
            simp [Event.arrivedBytes, Event.writtenBytes, Position.inFlight,
              isReading])
  | @writes current buf scan isWriting =>
      obtain ⟨-, isOpen, -⟩ :=
        sound.serving current scan (by rw [isWriting]; rfl)
      obtain ⟨client, isOpen⟩ := Option.isSome_iff_exists.mp isOpen
      obtain ⟨-, -, -, accounted⟩ := echoing.isOpen isOpen
      simp only [State.told, isOpen]
      refine echoing.turn_same _ isOpen (by simp [Event.connection]) ?_
        (by simp) ?_
      · intro other different
        simp [Position.inFlight, isWriting, Ne.symm different]
      · exact accounted_snoc (.written client.connection buf) accounted (by
            simp [Event.arrivedBytes, Event.writtenBytes, Position.inFlight,
              isWriting])
  | @writeFails current buf scan position isWriting goesOn =>
      obtain ⟨-, isOpen, -⟩ :=
        sound.serving current scan (by rw [isWriting]; rfl)
      obtain ⟨client, isOpen⟩ := Option.isSome_iff_exists.mp isOpen
      simp only [State.told, isOpen]
      refine echoing.turn_same _ isOpen (by simp [Event.connection]) ?_
        (by simp) ?_
      · intro other different
        rcases goesOn with rfl | rfl <;>
          simp [Position.inFlight, isWriting, Ne.symm different]
      · exact fun notLossy => absurd (by simp [Lossy]) notLossy

theorem of_reaches
    (reaches : (system listening).Reaches trace state) :
    Echoing trace state := by
  induction reaches with
  | initial =>
      exact initially
  | step earlier taken inductionHypothesis =>
      exact inductionHypothesis.preserved (Sound.of_reaches earlier)
        (taken_of_step? taken)

end Echoing

section Runs

variable
  {multiplexer : Multiplexer}
  {listening : Listening multiplexer}
  {trace : List Event}
  {state : State multiplexer}

/--
Nothing but what has arrived is ever written, in order; while the server waits
all that has been read has been written, and a connection is closed when all
that has arrived has been.
-/
theorem echoes_in_order
    (reaches : (system listening).Reaches trace state) :
    (∀ connection, ¬ Lossy connection trace →
      writtenOn connection trace <+: arrivedOn connection trace) ∧
    (state.position = .waiting →
      ∀ sockfd client, state.clients sockfd = some client →
        ¬ Lossy client.connection trace →
        arrivedOn client.connection trace =
          writtenOn client.connection trace ++ client.queue) ∧
    ∀ connection, .closed connection ∈ trace →
      ¬ Lossy connection trace →
      writtenOn connection trace = arrivedOn connection trace := by
  have echoing := Echoing.of_reaches reaches
  have gone :
      ∀ connection < state.accepted,
        (∀ sockfd client, state.clients sockfd = some client →
          client.connection ≠ connection) →
        ¬ Lossy connection trace →
        arrivedOn connection trace = writtenOn connection trace := by
    intro connection less free notLossy
    simpa using echoing.isClosed connection less free notLossy
  refine ⟨?_, ?_, ?_⟩
  · intro connection notLossy
    by_cases less : connection < state.accepted
    · by_cases free :
          ∀ sockfd client, state.clients sockfd = some client →
            client.connection ≠ connection
      · exact gone connection less free notLossy ▸ List.prefix_rfl
      · push Not at free
        obtain ⟨sockfd, client, isOpen, rfl⟩ := free
        rw [(echoing.isOpen isOpen).2.2.2 notLossy]
        exact List.prefix_append _ _
    · have noEvents : eventsOn connection trace = [] := by
        refine eventsOn_eq_nil fun event member same => ?_
        exact less (same ▸ echoing.numbered event member)
      rw [writtenOn, noEvents]
      exact List.nil_prefix
  · intro isWaiting sockfd client isOpen notLossy
    have accounted := (echoing.isOpen isOpen).2.2.2 notLossy
    simpa [isWaiting, Position.inFlight] using accounted
  · intro connection isClosed notLossy
    have less := echoing.numbered _ isClosed
    refine (gone connection less ?_ notLossy).symm
    rintro sockfd client isOpen rfl
    exact (echoing.isOpen isOpen).2.2.1 isClosed

/-- All three bytes are written before the connection is closed. -/
theorem echoes_in_order_threeBytes :
    ∃ trace state,
      (system firstFree).Reaches trace state ∧
        .closed 0 ∈ trace ∧ ¬ Lossy 0 trace ∧
        arrivedOn 0 trace = [1, 2, 3] ∧
        writtenOn 0 trace = arrivedOn 0 trace := by
  obtain ⟨trace, state, reaches, observed⟩ :=
    System.Reaches.exists_of_run?
      (by decide +kernel :
        ((system firstFree).run? (system firstFree).initial
            threeBytes).any
          (fun outcome => decide (
            .closed 0 ∈ outcome.2 ∧ .lost 0 ∉ outcome.2 ∧
              arrivedOn 0 outcome.2 = [1, 2, 3])) = true)
  obtain ⟨isClosed, notLost, arrived⟩ := of_decide_eq_true observed
  exact ⟨trace, state, reaches, isClosed, notLost, arrived,
    (echoes_in_order reaches).2.2 0 isClosed notLost⟩

end Runs

end CsPrimer.EchoServer.LevelTriggered
