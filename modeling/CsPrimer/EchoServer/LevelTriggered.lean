import CsPrimer.Library.TransitionSystem
import Mathlib.Order.Lattice

namespace CsPrimer.EchoServer.LevelTriggered

open Library

/-!
# The level-triggered echo servers

`echo_selectserver.c`, `echo_epollserver.c` and `echo_EPLTserver.c` wait for
descriptors with something to read, and read from each of them once before they
wait again.  They differ in how they keep the descriptors they wait for and in
how they go through those that are reported.  All descriptors are blocking, so
a read without input has no successor.  A timeout of `select` only starts it
again, and is left out; `accept` and the call that adds the new descriptor are
one step.

An `fd_set` has `FD_SETSIZE` bits, and `FD_SET` of a descriptor behind them is
undefined.  `echo_selectserver.c` does not check what `accept` returns, so there
is a position for what follows.  `epoll_ctl` is taken to succeed.
-/

/-- How a server waits for descriptors and goes through the reported ones. -/
structure Multiplexer where
  /-- `BUF_SIZE`. -/
  bufSize : Nat
  /-- What the server keeps about the descriptors it waits for. -/
  Watch : Type
  /-- What it keeps about those that are still to be handled. -/
  Scan : Type
  /-- The descriptors that can be waited for. -/
  Fits (sockfd : Nat) : Prop
  initial (servSockfd : Nat) : Option Watch
  /-- `none` where the call is undefined. -/
  add (watch : Watch) (sockfd : Nat) : Option Watch
  remove (watch : Watch) (sockfd : Nat) : Watch
  /-- Whether a call can report this. -/
  reports (watch : Watch) (ready : Nat → Bool) (scan : Scan) : Bool
  /-- The head of the loop over the reported descriptors. -/
  next? (watch : Watch) (scan : Scan) : Option (Option Nat × Scan)
  Watches (watch : Watch) (sockfd : Nat) : Prop
  Due (scan : Scan) (sockfd : Nat) : Prop
  bufSize_pos : 0 < bufSize
  add_eq_none :
    ∀ {watch sockfd}, add watch sockfd = none ↔ ¬ Fits sockfd
  watches_initial :
    ∀ {servSockfd watch sockfd}, initial servSockfd = some watch →
      (Watches watch sockfd ↔ sockfd = servSockfd)
  watches_add :
    ∀ {watch later sockfd other}, add watch sockfd = some later →
      (Watches later other ↔ other = sockfd ∨ Watches watch other)
  watches_remove :
    ∀ {watch sockfd other}, Watches (remove watch sockfd) other ↔
      Watches watch other ∧ other ≠ sockfd
  /-- Only what is ready is reported. -/
  due_of_reports :
    ∀ {watch ready scan sockfd}, reports watch ready scan = true →
      Due scan sockfd → Watches watch sockfd ∧ ready sockfd = true
  /-- What is ready can be reported. -/
  reports_of_ready :
    ∀ {watch ready sockfd}, Watches watch sockfd → ready sockfd = true →
      ∃ scan, reports watch ready scan = true ∧ Due scan sockfd
  due_of_next :
    ∀ {watch scan sockfd later},
      next? watch scan = some (some sockfd, later) →
      Due scan sockfd ∧
        ∀ other, Due later other ↔ Due scan other ∧ other ≠ sockfd
  due_of_skip :
    ∀ {watch scan later},
      next? watch scan = some (none, later) →
      ∀ other, Due later other ↔ Due scan other
  /-- Nothing is left out when the loop ends. -/
  due_of_end :
    ∀ {watch scan sockfd}, next? watch scan = none → Due scan sockfd →
      ¬ Watches watch sockfd

/-- What has been added fits. -/
theorem Multiplexer.fits_of_add
    (multiplexer : Multiplexer)
    {watch later : multiplexer.Watch}
    {sockfd : Nat}
    (added : multiplexer.add watch sockfd = some later) :
    multiplexer.Fits sockfd := by
  by_contra notFits
  rw [multiplexer.add_eq_none.mpr notFits] at added
  cases added

section Select

/-- `FD_SETSIZE`. -/
abbrev fdSetSize : Nat := 1024

/-- `reads` and `fd_max`. -/
structure SelectWatch where
  reads : List Nat
  fdMax : Nat
  bounded : ∀ sockfd ∈ reads, sockfd ≤ fdMax
  fits : fdMax < fdSetSize

/-- `i` and `cpy_reads`. -/
structure SelectScan where
  i : Nat
  cpyReads : List Nat
  deriving Repr, DecidableEq

/-- `FD_ZERO(&reads)`, `FD_SET(serv_sockfd, &reads)` and the first `fd_max`. -/
def SelectWatch.initial (servSockfd : Nat) : Option SelectWatch :=
  if fits : servSockfd < fdSetSize then
    some
      { reads := [servSockfd]
        fdMax := servSockfd
        bounded := by simp
        fits := fits }
  else
    none

/-- `FD_SET(clnt_sockfd, &reads)`, behind which `fd_max` is raised. -/
def SelectWatch.add (watch : SelectWatch) (sockfd : Nat) :
    Option SelectWatch :=
  if fits : sockfd < fdSetSize then
    some
      { reads := sockfd :: watch.reads
        fdMax := if watch.fdMax < sockfd then sockfd else watch.fdMax
        bounded := by
          intro other member
          rcases List.mem_cons.mp member with rfl | before
          · split <;> omega
          · have bound := watch.bounded other before
            split <;> omega
        fits := by
          have before := watch.fits
          split <;> omega }
  else
    none

/-- `FD_CLR(i, &reads)`. -/
def SelectWatch.remove (watch : SelectWatch) (sockfd : Nat) :
    SelectWatch where
  reads := watch.reads.filter (· ≠ sockfd)
  fdMax := watch.fdMax
  bounded := by
    intro other member
    exact watch.bounded other (List.mem_filter.mp member).1
  fits := watch.fits

/-- What `select(fd_max+1, &cpy_reads, 0, 0, &timeout)` leaves in the copy. -/
def SelectWatch.reports
    (watch : SelectWatch)
    (ready : Nat → Bool)
    (scan : SelectScan) : Bool :=
  scan.i = 0 && scan.cpyReads ≠ [] &&
    scan.cpyReads =
      watch.reads.filter fun sockfd => sockfd < watch.fdMax + 1 && ready sockfd

/-- `for(i = 0; i < fd_max+1; ++i)` and `FD_ISSET(i, &cpy_reads)`. -/
def SelectWatch.next?
    (watch : SelectWatch)
    (scan : SelectScan) : Option (Option Nat × SelectScan) :=
  if scan.i < watch.fdMax + 1 then
    some (if scan.i ∈ scan.cpyReads then some scan.i else none,
      { scan with i := scan.i + 1 })
  else
    none

/-- `echo_selectserver.c`. -/
def selectserver : Multiplexer where
  bufSize := 100
  Watch := SelectWatch
  Scan := SelectScan
  Fits sockfd := sockfd < fdSetSize
  initial := SelectWatch.initial
  add := SelectWatch.add
  remove := SelectWatch.remove
  reports := SelectWatch.reports
  next? := SelectWatch.next?
  Watches watch sockfd := sockfd ∈ watch.reads
  Due scan sockfd := sockfd ∈ scan.cpyReads ∧ scan.i ≤ sockfd
  bufSize_pos := by decide
  add_eq_none := by simp [SelectWatch.add]
  watches_initial := by
    intro servSockfd watch sockfd isInitial
    simp only [SelectWatch.initial, Option.dite_none_right_eq_some,
      Option.some.injEq] at isInitial
    obtain ⟨-, rfl⟩ := isInitial
    exact List.mem_singleton
  watches_add := by
    intro watch later sockfd other added
    simp only [SelectWatch.add, Option.dite_none_right_eq_some,
      Option.some.injEq] at added
    obtain ⟨-, rfl⟩ := added
    exact List.mem_cons
  watches_remove := by simp [SelectWatch.remove]
  due_of_reports := by
    intro watch ready scan sockfd reported isDue
    simp only [SelectWatch.reports, Bool.and_eq_true, decide_eq_true_eq]
      at reported
    rw [reported.2] at isDue
    have member := List.mem_filter.mp isDue.1
    exact ⟨member.1, (Bool.and_eq_true _ _ ▸ member.2).2⟩
  reports_of_ready := by
    intro watch ready sockfd watches isReady
    have member :
        sockfd ∈ watch.reads.filter fun other =>
          other < watch.fdMax + 1 && ready other := by
      have bound := watch.bounded sockfd watches
      simp only [List.mem_filter, Bool.and_eq_true, decide_eq_true_eq]
      exact ⟨watches, Nat.lt_succ_of_le bound, isReady⟩
    refine ⟨{ i := 0, cpyReads := watch.reads.filter fun other =>
      other < watch.fdMax + 1 && ready other }, ?_, member, Nat.zero_le _⟩
    simp only [SelectWatch.reports, Bool.and_eq_true, decide_eq_true_eq,
      and_true, true_and]
    exact List.ne_nil_of_mem member
  due_of_next := by
    intro watch scan sockfd later isNext
    simp only [SelectWatch.next?, Option.ite_none_right_eq_some,
      Option.some.injEq, Prod.mk.injEq, Option.ite_none_right_eq_some]
      at isNext
    obtain ⟨-, ⟨isSet, rfl⟩, rfl⟩ := isNext
    refine ⟨⟨isSet, Nat.le_refl _⟩, fun other => ?_⟩
    constructor
    · rintro ⟨member, behind⟩
      exact ⟨⟨member, Nat.le_of_succ_le behind⟩, Nat.ne_of_gt behind⟩
    · rintro ⟨⟨member, notBefore⟩, different⟩
      exact ⟨member, Nat.lt_of_le_of_ne notBefore (Ne.symm different)⟩
  due_of_skip := by
    intro watch scan later isNext other
    simp only [SelectWatch.next?, Option.ite_none_right_eq_some,
      Option.some.injEq, Prod.mk.injEq, ite_eq_right_iff, reduceCtorEq,
      imp_false] at isNext
    obtain ⟨-, notSet, rfl⟩ := isNext
    constructor
    · rintro ⟨member, behind⟩
      exact ⟨member, Nat.le_of_succ_le behind⟩
    · rintro ⟨member, notBefore⟩
      have different : scan.i ≠ other := fun same => notSet (same ▸ member)
      exact ⟨member, Nat.lt_of_le_of_ne notBefore different⟩
  due_of_end := by
    intro watch scan sockfd isEnd isDue watches
    simp only [SelectWatch.next?, ite_eq_right_iff, reduceCtorEq, imp_false]
      at isEnd
    have bound := watch.bounded sockfd watches
    omega

end Select

section Epoll

/-- `EPOLL_SIZE`. -/
abbrev epollSize : Nat := 50

/-- The rest of the `event_cnt` events in `ep_events`. -/
def EpollScan : Type :=
  { events : List Nat // events.Nodup }

/-- What `epoll_wait(epfd, ep_events, EPOLL_SIZE, -1)` can report. -/
def epollReports
    (watch : List Nat)
    (ready : Nat → Bool)
    (scan : EpollScan) : Bool :=
  scan.val ≠ [] && scan.val.length ≤ epollSize &&
    scan.val.all fun sockfd => watch.contains sockfd && ready sockfd

/-- `for(i = 0; i < event_cnt; ++i)`. -/
def epollNext?
    (_ : List Nat)
    (scan : EpollScan) : Option (Option Nat × EpollScan) :=
  match scan with
  | ⟨[], _⟩ => none
  | ⟨sockfd :: rest, nodup⟩ =>
      some (some sockfd, ⟨rest, (List.nodup_cons.mp nodup).2⟩)

/-- A server with level-triggered epoll. -/
def epoll (bufSize : Nat) (bufSize_pos : 0 < bufSize) : Multiplexer where
  bufSize := bufSize
  Watch := List Nat
  Scan := EpollScan
  Fits _ := True
  initial servSockfd := some [servSockfd]
  add watch sockfd := some (sockfd :: watch)
  remove watch sockfd := watch.filter (· ≠ sockfd)
  reports := epollReports
  next? := epollNext?
  Watches watch sockfd := sockfd ∈ watch
  Due scan sockfd := sockfd ∈ scan.val
  bufSize_pos := bufSize_pos
  add_eq_none := by simp
  watches_initial := by
    rintro servSockfd watch sockfd ⟨⟩
    exact List.mem_singleton
  watches_add := by
    rintro watch later sockfd other ⟨⟩
    exact List.mem_cons
  watches_remove := by simp
  due_of_reports := by
    intro watch ready scan sockfd reported isDue
    simp only [epollReports, Bool.and_eq_true, List.all_eq_true,
      List.contains_iff_mem] at reported
    exact reported.2 sockfd isDue
  reports_of_ready := by
    intro watch ready sockfd watches isReady
    refine ⟨⟨[sockfd], by simp⟩, ?_,
      List.mem_singleton_self sockfd⟩
    simp [epollReports, watches, isReady, epollSize]
  due_of_next := by
    rintro watch ⟨events, nodup⟩ sockfd later isNext
    cases events with
    | nil =>
        cases isNext
    | cons first rest =>
        cases isNext
        have notMember := (List.nodup_cons.mp nodup).1
        refine ⟨List.mem_cons_self, fun other => ?_⟩
        constructor
        · intro member
          refine ⟨List.mem_cons_of_mem _ member, ?_⟩
          rintro rfl
          exact notMember member
        · rintro ⟨member, different⟩
          exact (List.mem_cons.mp member).resolve_left different
  due_of_skip := by
    rintro watch ⟨events, nodup⟩ later isNext
    cases events <;> cases isNext
  due_of_end := by
    rintro watch ⟨events, nodup⟩ sockfd isEnd isDue
    cases events with
    | nil =>
        cases isDue
    | cons first rest =>
        cases isEnd

/-- `echo_epollserver.c`. -/
def epollserver : Multiplexer :=
  epoll 100 (by decide)

/-- `echo_EPLTserver.c`. -/
def epltserver : Multiplexer :=
  epoll 4 (by decide)

end Epoll

/-- The socket behind the descriptor of a client. -/
structure Client where
  /-- The number of the `accept` that has returned the descriptor. -/
  connection : Nat
  /-- What has arrived and has not been read. -/
  queue : List UInt8
  /-- Whether the end of the stream has arrived. -/
  closed : Bool
  /-- Whether the connection has been reset, which one read reports. -/
  reset : Bool
  deriving Repr, DecidableEq

/-- There is something to read, be it the end or an error. -/
def Client.ready (client : Client) : Bool :=
  client.queue ≠ [] || client.closed || client.reset

theorem Client.ready_eq_true
    {client : Client} :
    client.ready = true ↔
      client.queue ≠ [] ∨ client.closed = true ∨ client.reset = true := by
  simp [ready, or_assoc]

/-- Where `main` is in its loops. -/
inductive Position (Scan : Type) where
  | waiting
  | scanning (scan : Scan)
  | accepting (scan : Scan)
  | reading (sockfd : Nat) (scan : Scan)
  | writing (sockfd : Nat) (buf : List UInt8) (scan : Scan)
  | left
  /-- A descriptor has been added that does not fit. -/
  | undefined

/-- The server is in `select` or `epoll_wait`. -/
def Position.isWaiting {Scan : Type} : Position Scan → Bool
  | .waiting => true
  | _ => false

/-- What the server is going through, at the head of its inner loop. -/
def Position.scanning? {Scan : Type} : Position Scan → Option Scan
  | .scanning scan => some scan
  | _ => none

theorem Position.isWaiting_eq_true
    {Scan : Type}
    {position : Position Scan} :
    position.isWaiting = true ↔ position = .waiting := by
  cases position <;> simp [isWaiting]

theorem Position.scanning?_eq_some
    {Scan : Type}
    {position : Position Scan}
    {scan : Scan} :
    position.scanning? = some scan ↔ position = .scanning scan := by
  cases position <;> simp [scanning?]

/-- The server and the open descriptors of its clients. -/
structure State (multiplexer : Multiplexer) where
  position : Position multiplexer.Scan
  watch : multiplexer.Watch
  clients : Nat → Option Client
  /-- The number of connections so far. -/
  accepted : Nat

/-- A step of the server with the results of its calls, or of a peer. -/
inductive Action (Scan : Type) where
  | arrive (sockfd : Nat) (bytes : List UInt8)
  | close (sockfd : Nat)
  | reset (sockfd : Nat)
  | wait (connecting : Bool) (scan : Scan)
  | waitFails
  | next
  | accept (sockfd : Nat) (queue : List UInt8) (closed : Bool)
  | acceptFails
  | read (count : Nat)
  | write
  | writeFails
  | writeKills

/-- What happens on a connection. -/
inductive Event where
  | arrived (connection : Nat) (bytes : List UInt8)
  | received (connection : Nat) (buf : List UInt8)
  | written (connection : Nat) (buf : List UInt8)
  | readFailed (connection : Nat)
  | closed (connection : Nat)
  /-- Bytes are lost when the peer resets or a write fails. -/
  | lost (connection : Nat)
  deriving Repr, DecidableEq

section Steps

variable {multiplexer : Multiplexer}

/-- The descriptor of a client refers to other contents, or is closed. -/
def State.set
    (state : State multiplexer)
    (sockfd : Nat)
    (client : Option Client) : State multiplexer :=
  { state with clients := Function.update state.clients sockfd client }

/-- `main` goes on in its loops. -/
def State.goTo
    (state : State multiplexer)
    (position : Position multiplexer.Scan) : State multiplexer :=
  { state with position := position }

/-- The descriptors with something to read, or with a connection to accept. -/
def State.ready
    (state : State multiplexer)
    (servSockfd : Nat)
    (connecting : Bool)
    (sockfd : Nat) : Bool :=
  if sockfd = servSockfd then
    connecting
  else
    (state.clients sockfd).any Client.ready

/-- `read(i, buf, BUF_SIZE)` and the branch it leads to. -/
def readInto
    (state : State multiplexer)
    (sockfd : Nat)
    (scan : multiplexer.Scan)
    (count : Nat) : Option (State multiplexer × List Event) :=
  match state.clients sockfd with
  | none =>
      some (state.goTo (.scanning scan), [])
  | some client =>
      if client.reset then
        -- The result is -1, and a write of that many bytes fails.
        some ((state.set sockfd
            (some { client with closed := true, reset := false })).goTo
            (.scanning scan), [.readFailed client.connection])
      else
        match client.queue with
        | [] =>
            if client.closed then
              some ({ (state.set sockfd none).goTo (.scanning scan) with
                  watch := multiplexer.remove state.watch sockfd },
                [.closed client.connection])
            else
              none
        | _ :: _ =>
            if 0 < count ∧ count ≤ multiplexer.bufSize ∧
                count ≤ client.queue.length then
              some ((state.set sockfd
                  (some
                    { client with queue := client.queue.drop count })).goTo
                  (.writing sockfd (client.queue.take count) scan),
                [.received client.connection (client.queue.take count)])
            else
              none

/-- What a step of a peer does to the socket of a client. -/
def arriveAt
    (state : State multiplexer)
    (sockfd : Nat)
    (change : Client → Option (Client × List Event)) :
    Option (State multiplexer × List Event) :=
  (state.clients sockfd).bind fun client =>
    (change client).map fun (changed, events) =>
      (state.set sockfd (some changed), events)

/-- The events of a write to the client behind a descriptor. -/
def State.told
    (state : State multiplexer)
    (sockfd : Nat)
    (event : Nat → Event) : List Event :=
  match state.clients sockfd with
  | none => []
  | some client => [event client.connection]

end Steps

/-- A server behind its initialisation. -/
structure Listening (multiplexer : Multiplexer) where
  servSockfd : Nat
  watch : multiplexer.Watch
  isInitial : multiplexer.initial servSockfd = some watch

/-- The server behind its initialisation, and its peers. -/
def system
    {multiplexer : Multiplexer}
    (listening : Listening multiplexer) :
    System (State multiplexer) (Action multiplexer.Scan) Event where
  initial :=
    { position := .waiting
      watch := listening.watch
      clients := fun _ => none
      accepted := 0 }
  step? state action :=
    match action, state.position with
    | .arrive sockfd bytes, _ =>
        arriveAt state sockfd fun client =>
          if client.closed || client.reset then
            none
          else
            some ({ client with queue := client.queue ++ bytes },
              [.arrived client.connection bytes])
    | .close sockfd, _ =>
        arriveAt state sockfd fun client =>
          some ({ client with closed := true }, [])
    | .reset sockfd, _ =>
        -- What has arrived and has not been read is discarded as well.
        arriveAt state sockfd fun client =>
          some ({ client with queue := [], reset := true },
            [.lost client.connection])
    | .wait connecting scan, .waiting =>
        if multiplexer.reports state.watch
            (state.ready listening.servSockfd connecting) scan then
          some (state.goTo (.scanning scan), [])
        else
          none
    | .waitFails, .waiting =>
        some (state.goTo .left, [])
    | .next, .scanning scan =>
        match multiplexer.next? state.watch scan with
        | none =>
            some (state.goTo .waiting, [])
        | some (none, later) =>
            some (state.goTo (.scanning later), [])
        | some (some sockfd, later) =>
            if sockfd = listening.servSockfd then
              some (state.goTo (.accepting later), [])
            else
              some (state.goTo (.reading sockfd later), [])
    | .accept sockfd queue closed, .accepting scan =>
        if state.clients sockfd = none ∧
            sockfd ≠ listening.servSockfd then
          match multiplexer.add state.watch sockfd with
          | none =>
              some (state.goTo .undefined, [])
          | some watch =>
              some ({ (state.set sockfd
                    (some
                      { connection := state.accepted
                        queue := queue
                        closed := closed
                        reset := false })).goTo (.scanning scan) with
                  watch := watch
                  accepted := state.accepted + 1 },
                [.arrived state.accepted queue])
        else
          none
    | .acceptFails, .accepting scan =>
        some (state.goTo (.scanning scan), [])
    | .read count, .reading sockfd scan =>
        readInto state sockfd scan count
    | .write, .writing sockfd buf scan =>
        some (state.goTo (.scanning scan),
          state.told sockfd fun connection => .written connection buf)
    | .writeFails, .writing sockfd _ scan =>
        some (state.goTo (.scanning scan), state.told sockfd .lost)
    | .writeKills, .writing sockfd _ _ =>
        some (state.goTo .left, state.told sockfd .lost)
    | _, _ =>
        none

end CsPrimer.EchoServer.LevelTriggered
