import CsPrimer.EchoServer.LevelTriggered

namespace CsPrimer.EchoServer.LevelTriggered

open Library

/-!
# What the level-triggered echo servers do for their clients

Whatever is reported stays readable until it is read, since nobody else reads
it; so no read blocks, and every reported client is read from once.  What has
arrived from a client has been written back to it, is about to be, or has not
been read.
-/

/-- What a step of a server or of a peer can do. -/
inductive Taken
    {multiplexer : Multiplexer}
    (servSockfd : Nat)
    (state : State multiplexer) : State multiplexer → List Event → Prop where
  | arrives
      {sockfd : Nat}
      {client : Client}
      {bytes : List UInt8}
      (isOpen : state.clients sockfd = some client) :
      Taken servSockfd state
        (state.set sockfd (some { client with queue := client.queue ++ bytes }))
        [.arrived client.connection bytes]
  | closes
      {sockfd : Nat}
      {client : Client}
      (isOpen : state.clients sockfd = some client) :
      Taken servSockfd state
        (state.set sockfd (some { client with closed := true })) []
  | resets
      {sockfd : Nat}
      {client : Client}
      (isOpen : state.clients sockfd = some client) :
      Taken servSockfd state
        (state.set sockfd (some { client with queue := [], reset := true }))
        [.lost client.connection]
  | reports
      {connecting : Bool}
      {scan : multiplexer.Scan}
      (isWaiting : state.position = .waiting)
      (reported :
        multiplexer.reports state.watch
          (state.ready servSockfd connecting) scan = true) :
      Taken servSockfd state (state.goTo (.scanning scan)) []
  | leaves
      (isWaiting : state.position = .waiting) :
      Taken servSockfd state (state.goTo .left) []
  | ends
      {scan : multiplexer.Scan}
      (isScanning : state.position = .scanning scan)
      (isEnd : multiplexer.next? state.watch scan = none) :
      Taken servSockfd state (state.goTo .waiting) []
  | skips
      {scan later : multiplexer.Scan}
      (isScanning : state.position = .scanning scan)
      (isNext : multiplexer.next? state.watch scan = some (none, later)) :
      Taken servSockfd state (state.goTo (.scanning later)) []
  | connects
      {scan later : multiplexer.Scan}
      (isScanning : state.position = .scanning scan)
      (isNext :
        multiplexer.next? state.watch scan = some (some servSockfd, later)) :
      Taken servSockfd state (state.goTo (.accepting later)) []
  | handles
      {scan later : multiplexer.Scan}
      {sockfd : Nat}
      (isScanning : state.position = .scanning scan)
      (isNext :
        multiplexer.next? state.watch scan = some (some sockfd, later))
      (isClient : sockfd ≠ servSockfd) :
      Taken servSockfd state (state.goTo (.reading sockfd later)) []
  | accepts
      {scan : multiplexer.Scan}
      {sockfd : Nat}
      {client : Client}
      {watch : multiplexer.Watch}
      (isAccepting : state.position = .accepting scan)
      (added : multiplexer.add state.watch sockfd = some watch)
      (isFree : state.clients sockfd = none)
      (isClient : sockfd ≠ servSockfd)
      (isNew :
        client.connection = state.accepted ∧ client.reset = false) :
      Taken servSockfd state
        { (state.set sockfd (some client)).goTo (.scanning scan) with
          watch := watch
          accepted := state.accepted + 1 }
        [.arrived state.accepted client.queue]
  | overflows
      {scan : multiplexer.Scan}
      (isAccepting : state.position = .accepting scan) :
      Taken servSockfd state (state.goTo .undefined) []
  | acceptFails
      {scan : multiplexer.Scan}
      (isAccepting : state.position = .accepting scan) :
      Taken servSockfd state (state.goTo (.scanning scan)) []
  | readFails
      {sockfd : Nat}
      {scan : multiplexer.Scan}
      {client : Client}
      (isReading : state.position = .reading sockfd scan)
      (isOpen : state.clients sockfd = some client)
      (isReset : client.reset = true) :
      Taken servSockfd state
        ((state.set sockfd
            (some { client with closed := true, reset := false })).goTo
          (.scanning scan))
        [.readFailed client.connection]
  | readsEnd
      {sockfd : Nat}
      {scan : multiplexer.Scan}
      {client : Client}
      (isReading : state.position = .reading sockfd scan)
      (isOpen : state.clients sockfd = some client)
      (isEmpty : client.queue = []) :
      Taken servSockfd state
        { (state.set sockfd none).goTo (.scanning scan) with
          watch := multiplexer.remove state.watch sockfd }
        [.closed client.connection]
  | reads
      {sockfd count : Nat}
      {scan : multiplexer.Scan}
      {client : Client}
      (isReading : state.position = .reading sockfd scan)
      (isOpen : state.clients sockfd = some client) :
      Taken servSockfd state
        ((state.set sockfd
            (some { client with queue := client.queue.drop count })).goTo
          (.writing sockfd (client.queue.take count) scan))
        [.received client.connection (client.queue.take count)]
  | readsClosed
      {sockfd : Nat}
      {scan : multiplexer.Scan}
      (isReading : state.position = .reading sockfd scan)
      (isFree : state.clients sockfd = none) :
      Taken servSockfd state (state.goTo (.scanning scan)) []
  | writes
      {sockfd : Nat}
      {buf : List UInt8}
      {scan : multiplexer.Scan}
      (isWriting : state.position = .writing sockfd buf scan) :
      Taken servSockfd state (state.goTo (.scanning scan))
        (state.told sockfd fun connection => .written connection buf)
  | writeFails
      {sockfd : Nat}
      {buf : List UInt8}
      {scan : multiplexer.Scan}
      {position : Position multiplexer.Scan}
      (isWriting : state.position = .writing sockfd buf scan)
      (goesOn : position = .scanning scan ∨ position = .left) :
      Taken servSockfd state (state.goTo position)
        (state.told sockfd .lost)

section Inversion

variable
  {multiplexer : Multiplexer}
  {listening : Listening multiplexer}
  {servSockfd : Nat}
  {state next : State multiplexer}
  {events : List Event}

theorem arriveAt_eq_some
    {sockfd : Nat}
    {change : Client → Option (Client × List Event)}
    (taken : arriveAt state sockfd change = some (next, events)) :
    ∃ client changed,
      state.clients sockfd = some client ∧
        change client = some (changed, events) ∧
        next = state.set sockfd (some changed) := by
  simp only [arriveAt, Option.bind_eq_some_iff, Option.map_eq_some_iff,
    Prod.mk.injEq] at taken
  obtain ⟨client, isOpen, ⟨changed, emitted⟩, isChange, rfl, rfl⟩ := taken
  exact ⟨client, changed, isOpen, isChange, rfl⟩

theorem taken_of_readInto
    {sockfd count : Nat}
    {scan : multiplexer.Scan}
    (isReading : state.position = .reading sockfd scan)
    (taken : readInto state sockfd scan count = some (next, events)) :
    Taken servSockfd state next events := by
  unfold readInto at taken
  cases isOpen : state.clients sockfd with
  | none =>
      simp only [isOpen, Option.some.injEq, Prod.mk.injEq] at taken
      obtain ⟨rfl, rfl⟩ := taken
      exact .readsClosed isReading isOpen
  | some client =>
      by_cases isReset : client.reset = true
      · simp only [isOpen, isReset, if_true, Option.some.injEq,
          Prod.mk.injEq] at taken
        obtain ⟨rfl, rfl⟩ := taken
        exact .readFails isReading isOpen isReset
      · cases isQueue : client.queue with
        | nil =>
            simp only [isOpen, if_neg isReset, isQueue,
              Option.ite_none_right_eq_some, Option.some.injEq,
              Prod.mk.injEq] at taken
            obtain ⟨-, rfl, rfl⟩ := taken
            exact .readsEnd isReading isOpen isQueue
        | cons byte behind =>
            simp only [isOpen, if_neg isReset, isQueue,
              Option.ite_none_right_eq_some, Option.some.injEq,
              Prod.mk.injEq] at taken
            obtain ⟨-, rfl, rfl⟩ := taken
            rw [← isQueue]
            exact .reads isReading isOpen

theorem taken_of_step?
    {action : Action multiplexer.Scan}
    (taken :
      (system listening).step? state action = some (next, events)) :
    Taken listening.servSockfd state next events := by
  simp only [system] at taken
  split at taken
  · obtain ⟨client, changed, isOpen, isChange, rfl⟩ :=
      arriveAt_eq_some taken
    rw [Option.ite_none_left_eq_some] at isChange
    obtain ⟨-, isChange⟩ := isChange
    cases isChange
    exact .arrives isOpen
  · obtain ⟨client, changed, isOpen, isChange, rfl⟩ :=
      arriveAt_eq_some taken
    cases isChange
    exact .closes isOpen
  · obtain ⟨client, changed, isOpen, isChange, rfl⟩ :=
      arriveAt_eq_some taken
    cases isChange
    exact .resets isOpen
  · next isWaiting =>
    rw [Option.ite_none_right_eq_some] at taken
    obtain ⟨reported, isNext⟩ := taken
    cases isNext
    exact .reports isWaiting reported
  · next isWaiting =>
    cases taken
    exact .leaves isWaiting
  · next isScanning =>
    split at taken
    · next isEnd =>
      cases taken
      exact .ends isScanning isEnd
    · next isNext =>
      cases taken
      exact .skips isScanning isNext
    · next isNext =>
      split at taken
      · next isServ =>
        cases taken
        exact .connects isScanning (isServ ▸ isNext)
      · next isClient =>
        cases taken
        exact .handles isScanning isNext isClient
  · next isAccepting =>
    rw [Option.ite_none_right_eq_some] at taken
    obtain ⟨⟨isFree, isClient⟩, isNext⟩ := taken
    split at isNext
    · cases isNext
      exact .overflows isAccepting
    · next added =>
      cases isNext
      exact .accepts isAccepting added isFree isClient ⟨rfl, rfl⟩
  · next isAccepting =>
    cases taken
    exact .acceptFails isAccepting
  · next isReading =>
    exact taken_of_readInto isReading taken
  · next isWriting =>
    cases taken
    exact .writes isWriting
  · next isWriting =>
    cases taken
    exact .writeFails isWriting (.inl rfl)
  · next isWriting =>
    cases taken
    exact .writeFails isWriting (.inr rfl)
  · cases taken

end Inversion

/-- The descriptors that have been reported and have not been read. -/
def Pending
    {multiplexer : Multiplexer}
    (position : Position multiplexer.Scan)
    (sockfd : Nat) : Prop :=
  match position with
  | .scanning scan | .accepting scan | .writing _ _ scan =>
      multiplexer.Due scan sockfd
  | .reading current scan =>
      sockfd = current ∨ multiplexer.Due scan sockfd
  | .waiting | .left | .undefined => False

/-- The client of a read or write, which is not reported again. -/
def Position.serving?
    {Scan : Type} : Position Scan → Option (Nat × Scan)
  | .reading sockfd scan | .writing sockfd _ scan => some (sockfd, scan)
  | .waiting | .scanning _ | .accepting _ | .left | .undefined => none

/-- The descriptors a server waits for, and those it still has to read. -/
structure Sound
    {multiplexer : Multiplexer}
    (servSockfd : Nat)
    (state : State multiplexer) : Prop where
  notClient :
    state.clients servSockfd = none
  watches :
    ∀ sockfd, multiplexer.Watches state.watch sockfd ↔
      sockfd = servSockfd ∨ (state.clients sockfd).isSome
  pending :
    ∀ sockfd, Pending state.position sockfd → sockfd ≠ servSockfd →
      ∃ client, state.clients sockfd = some client ∧ client.ready = true
  serving :
    ∀ sockfd scan, state.position.serving? = some (sockfd, scan) →
      sockfd ≠ servSockfd ∧ (state.clients sockfd).isSome ∧
        ¬ multiplexer.Due scan sockfd

namespace Sound

variable
  {multiplexer : Multiplexer}
  {listening : Listening multiplexer}
  {servSockfd sockfd : Nat}
  {state next : State multiplexer}
  {position : Position multiplexer.Scan}
  {client changed : Client}

theorem initially :
    Sound listening.servSockfd (system listening).initial where
  notClient := rfl
  watches _ := by
    simp [system, multiplexer.watches_initial listening.isInitial]
  pending _ isPending := isPending.elim
  serving _ _ isServing := by cases isServing

/-- The server goes on, to a position that has no more to read. -/
theorem goTo
    (sound : Sound servSockfd state)
    (pending :
      ∀ other, Pending position other → Pending state.position other)
    (notServing : position.serving? = none) :
    Sound servSockfd (state.goTo position) where
  notClient := sound.notClient
  watches := sound.watches
  pending other isPending := sound.pending other (pending other isPending)
  serving other scan isServing := by
    rw [State.goTo, notServing] at isServing
    cases isServing

/-- The socket of one client changes, and the server may go on. -/
theorem turn
    (sound : Sound servSockfd state)
    (position : Position multiplexer.Scan)
    (isOpen : state.clients sockfd = some client)
    (pending :
      ∀ other, Pending position other →
        Pending state.position other ∧
          (other = sockfd → client.ready = true → changed.ready = true))
    (serving :
      ∀ serving, position.serving? = some serving →
        state.position.serving? = some serving) :
    Sound servSockfd
      ((state.set sockfd (some changed)).goTo position) := by
  have isSome :
      ∀ other,
        ((Function.update state.clients sockfd (some changed)) other).isSome ↔
          (state.clients other).isSome := by
    intro other
    by_cases same : other = sockfd
    · subst same
      simp [isOpen]
    · rw [Function.update_of_ne same]
  have isClient : servSockfd ≠ sockfd := by
    rintro rfl
    rw [sound.notClient] at isOpen
    cases isOpen
  exact
    { notClient := by
        simpa only [State.goTo, State.set, Function.update_of_ne isClient]
          using sound.notClient
      watches := by
        intro other
        simp only [State.goTo, State.set, isSome]
        exact sound.watches other
      pending := by
        intro other isPending different
        obtain ⟨before, stays⟩ := pending other isPending
        obtain ⟨old, oldOpen, oldReady⟩ :=
          sound.pending other before different
        by_cases same : other = sockfd
        · subst same
          rw [isOpen, Option.some.injEq] at oldOpen
          subst oldOpen
          exact ⟨changed, by simp [State.goTo, State.set],
            stays rfl oldReady⟩
        · exact ⟨old, by simpa [State.goTo, State.set, same] using oldOpen,
            oldReady⟩
      serving := by
        intro other scan isServing
        obtain ⟨notServ, wasOpen, notDue⟩ :=
          sound.serving other scan (serving _ isServing)
        exact ⟨notServ, (isSome other).mpr wasOpen, notDue⟩ }

/-- A new client is waited for as well. -/
theorem accepts
    {scan : multiplexer.Scan}
    {watch : multiplexer.Watch}
    {accepted : Nat}
    (sound : Sound servSockfd state)
    (isAccepting : state.position = .accepting scan)
    (added : multiplexer.add state.watch sockfd = some watch)
    (isFree : state.clients sockfd = none)
    (isClient : sockfd ≠ servSockfd) :
    Sound servSockfd
      { (state.set sockfd (some client)).goTo (.scanning scan) with
        watch := watch
        accepted := accepted } where
  notClient := by
    simpa [State.goTo, State.set, Function.update_of_ne isClient.symm]
      using sound.notClient
  watches other := by
    have before := sound.watches other
    rw [multiplexer.watches_add added, before]
    by_cases same : other = sockfd
    · simp [State.goTo, State.set, same]
    · simp [State.goTo, State.set, same]
  pending other isPending different := by
    have before : Pending state.position other := by
      rw [isAccepting]
      exact isPending
    obtain ⟨old, oldOpen, oldReady⟩ := sound.pending other before different
    have same : other ≠ sockfd := by
      rintro rfl
      rw [isFree] at oldOpen
      cases oldOpen
    exact ⟨old, by simpa [State.goTo, State.set, same] using oldOpen, oldReady⟩
  serving other later isServing := by
    cases isServing

/-- The descriptor of a client that has closed is closed and forgotten. -/
theorem closes
    {scan : multiplexer.Scan}
    (sound : Sound servSockfd state)
    (isReading : state.position = .reading sockfd scan) :
    Sound servSockfd
      { (state.set sockfd none).goTo (.scanning scan) with
        watch := multiplexer.remove state.watch sockfd } := by
  obtain ⟨isClient, -, notDue⟩ :=
    sound.serving sockfd scan (by rw [isReading]; rfl)
  exact
    { notClient := by
        simpa [State.goTo, State.set, Function.update_of_ne isClient.symm]
          using sound.notClient
      watches := by
        intro other
        rw [multiplexer.watches_remove, sound.watches other]
        by_cases same : other = sockfd
        · simp [State.goTo, State.set, same, isClient]
        · simp [State.goTo, State.set, same]
      pending := by
        intro other isPending different
        have before : Pending state.position other := by
          rw [isReading]
          exact .inr isPending
        obtain ⟨old, oldOpen, oldReady⟩ :=
          sound.pending other before different
        have same : other ≠ sockfd := by
          rintro rfl
          exact notDue isPending
        exact ⟨old, by simpa [State.goTo, State.set, same] using oldOpen,
          oldReady⟩
      serving := by
        intro other later isServing
        cases isServing }

/-- What is reported can be read. -/
theorem reports
    {connecting : Bool}
    {scan : multiplexer.Scan}
    (sound : Sound servSockfd state)
    (reported :
      multiplexer.reports state.watch
        (state.ready servSockfd connecting) scan = true) :
    Sound servSockfd (state.goTo (.scanning scan)) where
  notClient := sound.notClient
  watches := sound.watches
  pending other isPending different := by
    have isReady := (multiplexer.due_of_reports reported isPending).2
    rw [State.ready, if_neg different, Option.any_eq_true] at isReady
    exact isReady
  serving other later isServing := by
    cases isServing

/-- A reported client is going to be read. -/
theorem handles
    {scan later : multiplexer.Scan}
    (sound : Sound servSockfd state)
    (isScanning : state.position = .scanning scan)
    (isNext : multiplexer.next? state.watch scan = some (some sockfd, later))
    (isClient : sockfd ≠ servSockfd) :
    Sound servSockfd (state.goTo (.reading sockfd later)) where
  notClient := sound.notClient
  watches := sound.watches
  pending other isPending different := by
    refine sound.pending other ?_ different
    rw [isScanning]
    rcases isPending with rfl | isDue
    · exact (multiplexer.due_of_next isNext).1
    · exact (((multiplexer.due_of_next isNext).2 other).mp isDue).1
  serving other scan' isServing := by
    cases isServing
    have isDue : Pending state.position sockfd := by
      rw [isScanning]
      exact (multiplexer.due_of_next isNext).1
    obtain ⟨client, isOpen, -⟩ := sound.pending sockfd isDue isClient
    refine ⟨isClient, by simp [State.goTo, isOpen], ?_⟩
    intro again
    exact (((multiplexer.due_of_next isNext).2 sockfd).mp again).2 rfl

/-- Every step keeps what the server waits for and has to read. -/
theorem preserved
    {events : List Event}
    (sound : Sound servSockfd state)
    (taken : Taken servSockfd state next events) :
    Sound servSockfd next := by
  cases taken with
  | arrives isOpen =>
      refine sound.turn state.position isOpen ?_ fun _ => id
      intro other isPending
      refine ⟨isPending, fun _ isReady => ?_⟩
      rw [Client.ready_eq_true] at isReady ⊢
      rcases isReady with hasQueue | others
      · exact .inl (by simp [hasQueue])
      · exact .inr others
  | closes isOpen =>
      refine sound.turn state.position isOpen ?_ fun _ => id
      intro other isPending
      exact ⟨isPending, fun _ _ => Client.ready_eq_true.mpr (.inr (.inl rfl))⟩
  | resets isOpen =>
      refine sound.turn state.position isOpen ?_ fun _ => id
      intro other isPending
      exact ⟨isPending, fun _ _ => Client.ready_eq_true.mpr (.inr (.inr rfl))⟩
  | reports isWaiting reported =>
      exact sound.reports reported
  | leaves | ends | overflows =>
      exact sound.goTo (fun _ isPending => isPending.elim) rfl
  | skips isScanning isNext =>
      refine sound.goTo ?_ rfl
      intro other isPending
      rw [isScanning]
      exact (multiplexer.due_of_skip isNext other).mp isPending
  | connects isScanning isNext =>
      refine sound.goTo ?_ rfl
      intro other isPending
      rw [isScanning]
      exact (((multiplexer.due_of_next isNext).2 other).mp isPending).1
  | handles isScanning isNext isClient =>
      exact sound.handles isScanning isNext isClient
  | accepts isAccepting added isFree isClient =>
      exact sound.accepts isAccepting added isFree isClient
  | acceptFails isAccepting =>
      refine sound.goTo ?_ rfl
      intro other isPending
      rw [isAccepting]
      exact isPending
  | @readFails current scan client isReading isOpen isReset =>
      obtain ⟨-, -, notDue⟩ :=
        sound.serving current scan (by rw [isReading]; rfl)
      refine sound.turn (.scanning scan) isOpen ?_ (by simp [Position.serving?])
      intro other isPending
      rw [isReading]
      refine ⟨.inr isPending, ?_⟩
      rintro rfl
      exact absurd isPending notDue
  | readsEnd isReading =>
      exact sound.closes isReading
  | @reads current count scan client isReading isOpen =>
      obtain ⟨-, -, notDue⟩ :=
        sound.serving current scan (by rw [isReading]; rfl)
      refine sound.turn _ isOpen ?_ (by simp [Position.serving?, isReading])
      intro other isPending
      rw [isReading]
      refine ⟨.inr isPending, ?_⟩
      rintro rfl
      exact absurd isPending notDue
  | readsClosed isReading =>
      refine sound.goTo ?_ rfl
      intro other isPending
      rw [isReading]
      exact .inr isPending
  | writes isWriting =>
      refine sound.goTo ?_ rfl
      intro other isPending
      rw [isWriting]
      exact isPending
  | writeFails isWriting goesOn =>
      rcases goesOn with rfl | rfl
      · refine sound.goTo ?_ rfl
        intro other isPending
        rw [isWriting]
        exact isPending
      · exact sound.goTo (fun _ isPending => isPending.elim) rfl

theorem of_reaches
    {trace : List Event}
    (reaches : (system listening).Reaches trace state) :
    Sound listening.servSockfd state := by
  induction reaches with
  | initial =>
      exact initially
  | step earlier taken inductionHypothesis =>
      exact inductionHypothesis.preserved (taken_of_step? taken)

end Sound

/-- Behind a read everything is defined. -/
theorem ne_undefined_of_readInto
    {multiplexer : Multiplexer}
    {state next : State multiplexer}
    {sockfd count : Nat}
    {scan : multiplexer.Scan}
    {events : List Event}
    (taken : readInto state sockfd scan count = some (next, events)) :
    next.position ≠ .undefined := by
  simp only [readInto] at taken
  split at taken
  · cases taken
    simp [State.goTo]
  · split at taken
    · cases taken
      simp [State.goTo]
    · split at taken <;>
        rw [Option.ite_none_right_eq_some] at taken <;>
        obtain ⟨-, taken⟩ := taken <;>
        cases taken <;>
        simp [State.goTo]

/-- An `accept` of a descriptor that cannot be waited for. -/
def Overflows
    (multiplexer : Multiplexer)
    (action : Action multiplexer.Scan) : Prop :=
  ∃ sockfd queue closed,
    action = .accept sockfd queue closed ∧ ¬ multiplexer.Fits sockfd

/-- Nothing is undefined but the addition of a descriptor that does not fit. -/
theorem undefined_iff_of_step
    {multiplexer : Multiplexer}
    {listening : Listening multiplexer}
    {state next : State multiplexer}
    {action : Action multiplexer.Scan}
    {events : List Event}
    (taken :
      (system listening).step? state action = some (next, events)) :
    next.position = .undefined ↔
      state.position = .undefined ∨ Overflows multiplexer action := by
  simp only [system] at taken
  split at taken
  case h_1 | h_2 | h_3 =>
    obtain ⟨client, changed, isOpen, isChange, rfl⟩ :=
      arriveAt_eq_some taken
    simp [State.set, Overflows]
  case h_4 isWaiting =>
    rw [Option.ite_none_right_eq_some] at taken
    obtain ⟨-, isNext⟩ := taken
    cases isNext
    simp [State.goTo, isWaiting, Overflows]
  case h_6 isScanning =>
    split at taken
    · cases taken
      simp [State.goTo, isScanning, Overflows]
    · cases taken
      simp [State.goTo, isScanning, Overflows]
    · split at taken <;>
        cases taken <;>
        simp [State.goTo, isScanning, Overflows]
  case h_7 isAccepting =>
    rw [Option.ite_none_right_eq_some] at taken
    obtain ⟨-, isNext⟩ := taken
    split at isNext
    · next overflows =>
      cases isNext
      simpa [State.goTo, isAccepting, Overflows] using
        multiplexer.add_eq_none.mp overflows
    · next added =>
      cases isNext
      simpa [State.goTo, isAccepting, Overflows] using
        multiplexer.fits_of_add added
  case h_9 isReading =>
    simp [ne_undefined_of_readInto taken, isReading, Overflows]
  case h_5 isPosition | h_8 isPosition | h_10 isPosition
  | h_11 isPosition | h_12 isPosition =>
    cases taken
    simp [State.goTo, isPosition, Overflows]
  case h_13 =>
    cases taken

/--
No read blocks, whatever can be read can be reported, and nothing is undefined
but the addition of a descriptor that does not fit.
-/
theorem readable_of_reaches
    {multiplexer : Multiplexer}
    {listening : Listening multiplexer}
    {trace : List Event}
    {state : State multiplexer}
    (reaches : (system listening).Reaches trace state) :
    (∀ sockfd scan, state.position = .reading sockfd scan →
      ∃ count, (system listening).Enabled state (.read count)) ∧
    (state.position = .waiting →
      ∀ sockfd client, state.clients sockfd = some client →
        client.ready = true →
        ∃ connecting scan,
          (system listening).step? state (.wait connecting scan) =
            some (state.goTo (.scanning scan), []) ∧
          multiplexer.Due scan sockfd) ∧
    ∀ action next events,
      (system listening).step? state action = some (next, events) →
      (next.position = .undefined ↔
        state.position = .undefined ∨ Overflows multiplexer action) := by
  have sound := Sound.of_reaches reaches
  refine ⟨?_, ?_, fun _ _ _ taken => undefined_iff_of_step taken⟩
  · intro sockfd scan isReading
    have isClient :=
      (sound.serving sockfd scan (by rw [isReading]; rfl)).1
    obtain ⟨client, isOpen, isReady⟩ :=
      sound.pending sockfd (by rw [isReading]; exact .inl rfl) isClient
    refine ⟨1, ?_⟩
    have positive := multiplexer.bufSize_pos
    rw [Client.ready_eq_true] at isReady
    cases isReset : client.reset with
    | true =>
        simp [System.Enabled, system, isReading, readInto, isOpen, isReset]
    | false =>
        cases isQueue : client.queue with
        | nil =>
            have isClosed : client.closed = true := by
              simpa [isQueue, isReset] using isReady
            simp [System.Enabled, system, isReading, readInto, isOpen,
              isReset, isQueue, isClosed]
        | cons byte behind =>
            simp [System.Enabled, system, isReading, readInto, isOpen,
              isReset, isQueue, Nat.succ_le_of_lt positive]
  · intro isWaiting sockfd client isOpen isReady
    have isClient : sockfd ≠ listening.servSockfd := by
      rintro rfl
      rw [sound.notClient] at isOpen
      cases isOpen
    have watches : multiplexer.Watches state.watch sockfd :=
      (sound.watches sockfd).mpr (.inr (by rw [isOpen]; rfl))
    have ready :
        state.ready listening.servSockfd false sockfd = true := by
      rw [State.ready, if_neg isClient, isOpen]
      exact isReady
    obtain ⟨scan, reported, isDue⟩ :=
      multiplexer.reports_of_ready watches ready
    refine ⟨false, scan, ?_, isDue⟩
    simp [system, isWaiting, reported]

/-- `echo_selectserver.c` has been given the first free descriptor. -/
def firstFree : Listening selectserver where
  servSockfd := 3
  watch := (selectserver.initial 3).get (by decide)
  isInitial := (Option.some_get _).symm

/-- A client of `echo_selectserver.c` sends three bytes and closes. -/
def threeBytes : List (Action selectserver.Scan) :=
  [.wait true { i := 0, cpyReads := [3] }, .next, .next, .next, .next,
    .accept 4 [] false, .next, .next, .arrive 4 [1, 2, 3],
    .wait false { i := 0, cpyReads := [4] }, .next, .next, .next, .next,
    .next, .read 2, .write, .next,
    .wait false { i := 0, cpyReads := [4] }, .next, .next, .next, .next,
    .next, .close 4, .read 1, .write, .next,
    .wait false { i := 0, cpyReads := [4] }, .next, .next, .next, .next,
    .next, .read 0]

/--
While the third byte waits to be read, it can be reported; and if the first
client were given a descriptor behind the bits of an `fd_set`, nothing would be
defined.
-/
theorem readable_of_reaches_threeBytes :
    (∃ trace state,
      (system firstFree).Reaches trace state ∧
        ∃ connecting scan,
          (system firstFree).step? state (.wait connecting scan) =
            some (state.goTo (.scanning scan), []) ∧
          selectserver.Due scan 4) ∧
      ∃ trace state next events,
        (system firstFree).Reaches trace state ∧
          (system firstFree).step? state (.accept 1024 [] false) =
            some (next, events) ∧
          next.position = .undefined := by
  obtain ⟨trace, state, reaches, observed⟩ :=
    System.Reaches.exists_of_run?
      (by decide +kernel :
        ((system firstFree).run? (system firstFree).initial
            (threeBytes.take 18)).any
          (fun outcome =>
            outcome.1.position.isWaiting &&
              (outcome.1.clients 4).any Client.ready) = true)
  obtain ⟨isWaiting, isReady⟩ := (Bool.and_eq_true _ _).mp observed
  obtain ⟨client, isOpen, isReady⟩ := (Option.any_eq_true _ _).mp isReady
  obtain ⟨trace', state', reaches', isEnabled⟩ :=
    System.Reaches.exists_of_run?
      (by decide +kernel :
        ((system firstFree).run? (system firstFree).initial
            (threeBytes.take 5)).any
          (fun outcome =>
            ((system firstFree).step? outcome.1
              (.accept 1024 [] false)).isSome) = true)
  obtain ⟨⟨next, events⟩, taken⟩ := Option.isSome_iff_exists.mp isEnabled
  exact
    ⟨⟨trace, state, reaches,
        (readable_of_reaches reaches).2.1
          (Position.isWaiting_eq_true.mp isWaiting) 4 client isOpen
          isReady⟩,
      trace', state', next, events, reaches', taken,
      ((readable_of_reaches reaches').2.2 _ next events taken).mpr
        (.inr ⟨1024, [], false, rfl, Nat.lt_irrefl 1024⟩)⟩

/-- The server has read from this connection, with whatever result. -/
def Event.serves (connection : Nat) : Event → Prop
  | .received other _ | .readFailed other | .closed other =>
      other = connection
  | .arrived _ _ | .written _ _ | .lost _ => False

/-- The server has left its loop, or what it does is not defined. -/
def Position.IsOver {Scan : Type} (position : Position Scan) : Prop :=
  position = .left ∨ position = .undefined

/-- A client has been served since, or it is still to be. -/
def Served
    {multiplexer : Multiplexer}
    (servSockfd sockfd connection : Nat)
    (trace : List Event)
    (state : State multiplexer) : Prop :=
  Sound servSockfd state ∧
    ((∃ event ∈ trace, event.serves connection) ∨
      state.position.IsOver ∨
      Pending state.position sockfd ∧
        ∃ client, state.clients sockfd = some client ∧
          client.connection = connection)

section Round

variable
  {multiplexer : Multiplexer}
  {listening : Listening multiplexer}
  {servSockfd sockfd connection : Nat}
  {state next : State multiplexer}
  {events : List Event}

/-- A reported client stays reported until it is served. -/
theorem pending_step
    {client : Client}
    (sound : Sound servSockfd state)
    (isClient : sockfd ≠ servSockfd)
    (isPending : Pending state.position sockfd)
    (isOpen : state.clients sockfd = some client)
    (taken : Taken servSockfd state next events) :
    (∃ event ∈ events, event.serves client.connection) ∨
      next.position.IsOver ∨
      Pending next.position sockfd ∧
        ∃ later, next.clients sockfd = some later ∧
          later.connection = client.connection := by
  have peer :
      ∀ {other : Nat} {old changed : Client},
        state.clients other = some old →
        changed.connection = old.connection →
        ∃ later,
          Function.update state.clients other (some changed) sockfd =
              some later ∧
            later.connection = client.connection := by
    intro other old changed otherOpen same
    by_cases isOther : sockfd = other
    · subst isOther
      rw [isOpen, Option.some.injEq] at otherOpen
      subst otherOpen
      exact ⟨changed, by simp, same⟩
    · exact ⟨client, by simp [isOther, isOpen], rfl⟩
  cases taken with
  | arrives otherOpen | closes otherOpen | resets otherOpen =>
      exact .inr (.inr ⟨isPending, peer otherOpen rfl⟩)
  | reports isWaiting | leaves isWaiting =>
      rw [isWaiting] at isPending
      exact isPending.elim
  | ends isScanning isEnd =>
      rw [isScanning] at isPending
      have watches : multiplexer.Watches state.watch sockfd :=
        (sound.watches sockfd).mpr (.inr (by rw [isOpen]; rfl))
      exact absurd watches (multiplexer.due_of_end isEnd isPending)
  | skips isScanning isNext =>
      rw [isScanning] at isPending
      exact .inr (.inr
        ⟨(multiplexer.due_of_skip isNext sockfd).mpr isPending,
          client, isOpen, rfl⟩)
  | connects isScanning isNext =>
      rw [isScanning] at isPending
      exact .inr (.inr
        ⟨((multiplexer.due_of_next isNext).2 sockfd).mpr
            ⟨isPending, isClient⟩,
          client, isOpen, rfl⟩)
  | @handles scan later current isScanning isNext =>
      rw [isScanning] at isPending
      refine .inr (.inr ⟨?_, client, isOpen, rfl⟩)
      by_cases isCurrent : sockfd = current
      · exact .inl isCurrent
      · exact .inr (((multiplexer.due_of_next isNext).2 sockfd).mpr
          ⟨isPending, isCurrent⟩)
  | @accepts scan other new watch isAccepting added isFree =>
      rw [isAccepting] at isPending
      refine .inr (.inr ⟨isPending, client, ?_, rfl⟩)
      have different : sockfd ≠ other := by
        rintro rfl
        rw [isFree] at isOpen
        cases isOpen
      simpa [State.goTo, State.set, different] using isOpen
  | acceptFails isAccepting =>
      rw [isAccepting] at isPending
      exact .inr (.inr ⟨isPending, client, isOpen, rfl⟩)
  | overflows =>
      exact .inr (.inl (.inr rfl))
  | @readFails current scan old isReading oldOpen =>
      rw [isReading] at isPending
      rcases isPending with rfl | isDue
      · rw [isOpen, Option.some.injEq] at oldOpen
        subst oldOpen
        exact .inl ⟨_, List.mem_singleton_self _, rfl⟩
      · exact .inr (.inr ⟨isDue, peer oldOpen rfl⟩)
  | @readsEnd current scan old isReading oldOpen =>
      rw [isReading] at isPending
      by_cases isCurrent : sockfd = current
      · subst isCurrent
        rw [isOpen, Option.some.injEq] at oldOpen
        subst oldOpen
        exact .inl ⟨_, List.mem_singleton_self _, rfl⟩
      · refine .inr (.inr ⟨isPending.resolve_left isCurrent, client, ?_, rfl⟩)
        simpa [State.goTo, State.set, isCurrent] using isOpen
  | @reads current count scan old isReading oldOpen =>
      rw [isReading] at isPending
      rcases isPending with rfl | isDue
      · rw [isOpen, Option.some.injEq] at oldOpen
        subst oldOpen
        exact .inl ⟨_, List.mem_singleton_self _, rfl⟩
      · exact .inr (.inr ⟨isDue, peer oldOpen rfl⟩)
  | @readsClosed current scan isReading isFree =>
      rw [isReading] at isPending
      rcases isPending with rfl | isDue
      · rw [isFree] at isOpen
        cases isOpen
      · exact .inr (.inr ⟨isDue, client, isOpen, rfl⟩)
  | writes isWriting =>
      rw [isWriting] at isPending
      exact .inr (.inr ⟨isPending, client, isOpen, rfl⟩)
  | writeFails isWriting goesOn =>
      rw [isWriting] at isPending
      rcases goesOn with rfl | rfl
      · exact .inr (.inr ⟨isPending, client, isOpen, rfl⟩)
      · exact .inr (.inl (.inl rfl))

/-- A server that has left its loop does not come back. -/
theorem isOver_step
    (isOver : state.position.IsOver)
    (taken : Taken servSockfd state next events) :
    next.position.IsOver := by
  cases taken with
  | arrives | closes | resets =>
      exact isOver
  | leaves =>
      exact .inl rfl
  | overflows =>
      exact .inr rfl
  | reports isOther | ends isOther | skips isOther | connects isOther
  | handles isOther | accepts isOther | acceptFails isOther
  | readFails isOther | readsEnd isOther | reads isOther
  | readsClosed isOther | writes isOther | writeFails isOther =>
      rw [isOther] at isOver
      rcases isOver with isLeft | isUndefined
      · cases isLeft
      · cases isUndefined

/-- What a step says about a client that is served or is still to be. -/
theorem Served.step
    {trace : List Event}
    (isClient : sockfd ≠ servSockfd)
    (served : Served servSockfd sockfd connection trace state)
    (taken : Taken servSockfd state next events) :
    Served servSockfd sockfd connection (trace ++ events) next := by
  obtain ⟨sound, progress⟩ := served
  refine ⟨sound.preserved taken, ?_⟩
  rcases progress with ⟨event, member, serves⟩ | isOver |
    ⟨isPending, client, isOpen, rfl⟩
  · exact .inl ⟨event, List.mem_append_left _ member, serves⟩
  · exact .inr (.inl (isOver_step isOver taken))
  · rcases pending_step sound isClient isPending isOpen taken with
      ⟨event, member, serves⟩ | goesOn
    · exact .inl ⟨event, List.mem_append_right _ member, serves⟩
    · exact .inr goesOn

/--
Every client that has been reported is read from, whatever happens meanwhile,
before the server waits again.
-/
theorem round_serves
    {trace later : List Event}
    {final : State multiplexer}
    {scan : multiplexer.Scan}
    {client : Client}
    {actions : List (Action multiplexer.Scan)}
    (reaches : (system listening).Reaches trace state)
    (isScanning : state.position = .scanning scan)
    (isDue : multiplexer.Due scan sockfd)
    (isOpen : state.clients sockfd = some client)
    (executed :
      (system listening).run? state actions =
        some (final, later))
    (isWaiting : final.position = .waiting) :
    ∃ event ∈ later, event.serves client.connection := by
  have sound := Sound.of_reaches reaches
  have isClient : sockfd ≠ listening.servSockfd := by
    rintro rfl
    rw [sound.notClient] at isOpen
    cases isOpen
  have start :
      Served listening.servSockfd sockfd client.connection [] state :=
    ⟨sound, .inr (.inr ⟨by rw [isScanning]; exact isDue,
      client, isOpen, rfl⟩)⟩
  have served :=
    System.run?_preserves
      (fun served taken => served.step isClient (taken_of_step? taken))
      start executed
  rcases served.2 with isServed | isOver | ⟨isPending, -⟩
  · simpa using isServed
  · rw [isWaiting] at isOver
    rcases isOver with isLeft | isUndefined
    · cases isLeft
    · cases isUndefined
  · rw [isWaiting] at isPending
    exact isPending.elim

/-- The second report of the same client is served in its round. -/
theorem round_serves_threeBytes :
    ∃ trace state final later,
      (system firstFree).Reaches trace state ∧
        (system firstFree).run? state ((threeBytes.drop 19).take 9) =
          some (final, later) ∧
        final.position = .waiting ∧
        ∃ event ∈ later, event.serves 0 := by
  obtain ⟨trace, state, reaches, observed⟩ :=
    System.Reaches.exists_of_run?
      (by decide +kernel :
        ((system firstFree).run? (system firstFree).initial
            (threeBytes.take 19)).any
          (fun outcome =>
            outcome.1.position.scanning?.any (fun scan : SelectScan =>
                scan.cpyReads.contains 4 && scan.i ≤ 4) &&
              (outcome.1.clients 4).any
                (fun client => client.connection = 0) &&
              ((system firstFree).run? outcome.1
                  ((threeBytes.drop 19).take 9)).any
                (fun final => final.1.position.isWaiting)) = true)
  rw [Bool.and_eq_true, Bool.and_eq_true] at observed
  obtain ⟨⟨hasScan, hasClient⟩, goesOn⟩ := observed
  obtain ⟨scan, isScanning, isDue⟩ := (Option.any_eq_true _ _).mp hasScan
  obtain ⟨client, isOpen, isZero⟩ := (Option.any_eq_true _ _).mp hasClient
  obtain ⟨⟨final, later⟩, executed, isWaiting⟩ :=
    (Option.any_eq_true _ _).mp goesOn
  rw [Bool.and_eq_true] at isDue
  have waiting := Position.isWaiting_eq_true.mp isWaiting
  refine ⟨trace, state, final, later, reaches, executed, waiting, ?_⟩
  rw [← of_decide_eq_true isZero]
  exact round_serves reaches
    (Position.scanning?_eq_some.mp isScanning)
    ⟨List.contains_iff_mem.mp isDue.1, of_decide_eq_true isDue.2⟩ isOpen
    executed waiting

end Round

end CsPrimer.EchoServer.LevelTriggered
