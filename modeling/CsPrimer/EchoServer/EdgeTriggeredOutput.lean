import CsPrimer.EchoServer.EdgeTriggered
import CsPrimer.Library.ByteStream

namespace CsPrimer.EchoServer

open Library

/-!
# When the edge-triggered server echoes every byte

The descriptors of the clients are made non-blocking, so a write may take only
some of the bytes it is offered, or none; the server does not look.  What it
has offered to a client is always what it has read, so it has sent that exactly
if every write has taken all.
-/

/-- What a step has read from a connection. -/
def Event.receivedFrom (connection : Nat) : Event → List UInt8
  | .received other buf => if other = connection then buf else []
  | _ => []

/-- What a step has offered to a connection. -/
def Event.offeredTo (connection : Nat) : Event → List UInt8
  | .written other buf _ => if other = connection then buf else []
  | _ => []

/-- What a connection has taken of it. -/
def Event.sentTo (connection : Nat) : Event → List UInt8
  | .written other buf count =>
      if other = connection then buf.take count else []
  | _ => []

/-- The bytes the server has read from a connection, in order. -/
def receivedFrom (connection : Nat) (trace : List Event) : List UInt8 :=
  trace.flatMap (Event.receivedFrom connection)

/-- The bytes the server has offered to a connection, in order. -/
def offeredTo (connection : Nat) (trace : List Event) : List UInt8 :=
  trace.flatMap (Event.offeredTo connection)

/-- The bytes the server has sent to a connection, in order. -/
def sentTo (connection : Nat) (trace : List Event) : List UInt8 :=
  trace.flatMap (Event.sentTo connection)

/-- Every write to a connection has taken all the bytes it was offered. -/
def TakesAll (connection : Nat) (trace : List Event) : Prop :=
  ∀ buf count, .written connection buf count ∈ trace → count = buf.length

section Writes

variable {connection : Nat}

/-- A write takes a prefix, which is all if and only if it is as long. -/
theorem Event.sentTo_prefix
    (connection : Nat)
    (event : Event) :
    event.sentTo connection <+: event.offeredTo connection := by
  cases event with
  | written other buf count =>
      by_cases same : other = connection
      · simpa [sentTo, offeredTo, same] using List.take_prefix count buf
      · simp [sentTo, offeredTo, same]
  | _ =>
      exact List.prefix_rfl

/-- All has been sent exactly if every write has taken all. -/
theorem sentTo_eq_offeredTo_iff
    {trace : List Event}
    (prefixes :
      ∀ buf count, .written connection buf count ∈ trace →
        count ≤ buf.length) :
    sentTo connection trace = offeredTo connection trace ↔
      TakesAll connection trace := by
  rw [sentTo, offeredTo,
    flatMap_eq_iff_of_prefix (Event.sentTo_prefix connection)]
  constructor
  · intro takesAll buf count member
    have all : buf.take count = buf := by
      simpa [Event.sentTo, Event.offeredTo] using takesAll _ member
    have length := congrArg List.length all
    rw [List.length_take, Nat.min_eq_left (prefixes buf count member)]
      at length
    exact length
  · intro takesAll event member
    cases event with
    | written other buf count =>
        by_cases same : other = connection
        · subst same
          simp [Event.sentTo, Event.offeredTo,
            takesAll buf count member]
        · simp [Event.sentTo, Event.offeredTo, same]
    | _ =>
        rfl

end Writes

/-- The bytes that have been read and are about to be offered. -/
def State.pending (state : State) (connection : Nat) : List UInt8 :=
  match state.position with
  | .writing sockfd buf _ =>
      if (state.clients sockfd).map Client.connection = some connection then
        buf
      else
        []
  | _ => []

/-- What has been read has been offered, or is about to be. -/
structure Offering (trace : List Event) (state : State) : Prop where
  parts :
    ∀ connection buf count, .written connection buf count ∈ trace →
      count ≤ buf.length
  isOpen :
    ∀ sockfd buf rest, state.position = .writing sockfd buf rest →
      (state.clients sockfd).isSome
  offered :
    state.position ≠ .left →
      ∀ connection, receivedFrom connection trace =
        offeredTo connection trace ++ state.pending connection

/-- Between a write and the next read nothing is pending. -/
theorem State.pending_eq_nil
    (state : State)
    (notWriting :
      ∀ sockfd buf rest, state.position ≠ .writing sockfd buf rest)
    (connection : Nat) :
    state.pending connection = [] := by
  unfold pending
  split
  · next isWriting =>
    exact absurd isWriting (notWriting _ _ _)
  · rfl

namespace Offering

variable
  {servSockfd : Nat}
  {trace : List Event}
  {state next : State}

theorem initial (servSockfd : Nat) :
    Offering [] (system servSockfd).initial where
  parts _ _ _ member := by
    cases member
  isOpen _ _ _ isWriting := by
    cases isWriting
  offered _ _ :=
    rfl

/-- What arrives for a client changes nothing about the output. -/
theorem arrive
    {sockfd : Nat}
    {client changed : Client}
    (offering : Offering trace state)
    (isOpen : state.clients sockfd = some client)
    (sameConnection : changed.connection = client.connection) :
    Offering trace (state.set sockfd (some changed)) := by
  have sameConnections :
      ∀ other,
        ((state.set sockfd (some changed)).clients other).map
            Client.connection =
          (state.clients other).map Client.connection := by
    intro other
    by_cases isSockfd : other = sockfd
    · subst isSockfd
      simp [State.set, isOpen, sameConnection]
    · simp [State.set, isSockfd]
  refine ⟨offering.parts, ?_, ?_⟩
  · intro other buf rest isWriting
    have same := congrArg Option.isSome (sameConnections other)
    rw [Option.isSome_map, Option.isSome_map] at same
    rw [same]
    exact offering.isOpen other buf rest isWriting
  · intro stays connection
    rw [offering.offered stays connection]
    simp only [State.pending, sameConnections]
    rfl

/-- A step away from the writes reads nothing and offers nothing. -/
theorem silent
    {events : List Event}
    (offering : Offering trace state)
    (stays : state.position ≠ .left)
    (notWriting :
      ∀ sockfd buf rest, state.position ≠ .writing sockfd buf rest)
    (stillNotWriting :
      ∀ sockfd buf rest, next.position ≠ .writing sockfd buf rest)
    (drains : ∀ event ∈ events, ∃ connection, event = .drained connection) :
    Offering (trace ++ events) next := by
  have received :
      ∀ connection, receivedFrom connection events = [] ∧
        offeredTo connection events = [] := by
    intro connection
    constructor <;>
      refine List.flatMap_eq_nil_iff.mpr fun event member => ?_ <;>
      obtain ⟨other, rfl⟩ := drains event member <;>
      rfl
  refine ⟨?_, ?_, ?_⟩
  · intro connection buf count member
    rcases List.mem_append.mp member with earlier | isEvent
    · exact offering.parts connection buf count earlier
    · obtain ⟨other, impossible⟩ := drains _ isEvent
      cases impossible
  · intro sockfd buf rest isWriting
    exact absurd isWriting (stillNotWriting sockfd buf rest)
  · intro _ connection
    have before := offering.offered stays connection
    obtain ⟨noneReceived, noneOffered⟩ := received connection
    unfold receivedFrom offeredTo at *
    rw [List.flatMap_append, List.flatMap_append, noneReceived,
      noneOffered, State.pending_eq_nil next stillNotWriting, before,
      State.pending_eq_nil state notWriting]

/-- Every step offers what the one before it has read. -/
theorem preserved
    {events : List Event}
    (offering : Offering trace state)
    (taken : Taken servSockfd state next events) :
    Offering (trace ++ events) next := by
  cases taken with
  | arrives isOpen | closes isOpen =>
      rw [List.append_nil]
      exact offering.arrive isOpen rfl
  | reports isPosition | waits isPosition | accepts isPosition
  | acceptFails isPosition | sets isPosition | adds isPosition
  | readsEnd isPosition | readsNothing isPosition
  | readsClosed isPosition | readFails isPosition =>
      refine offering.silent ?_ ?_ ?_ ?_ <;>
        simp [isPosition, State.goTo]
  | handles isHandling =>
      refine offering.silent ?_ ?_ ?_ ?_
      · simp [isHandling]
      · simp [isHandling]
      · intro sockfd buf rest
        simp only [State.goTo]
        split <;> simp
      · simp
  | leaves mayLeave =>
      rw [List.append_nil]
      refine ⟨offering.parts, ?_, fun stays => absurd rfl stays⟩
      intro sockfd buf rest impossible
      cases impossible
  | @reads sockfd count rest client isReading isOpen =>
      have nothing :=
        State.pending_eq_nil state (by simp [isReading])
      refine ⟨?_, ?_, ?_⟩
      · simpa using offering.parts
      · intro other buf behind isWriting
        obtain ⟨rfl, -, -⟩ := Position.writing.inj isWriting
        simp [State.set, State.goTo]
      · intro _ connection
        have before := offering.offered (by simp [isReading]) connection
        rw [nothing, List.append_nil] at before
        unfold receivedFrom offeredTo at *
        rw [List.flatMap_append, List.flatMap_append, before]
        simp [State.pending, State.set, State.goTo, Event.receivedFrom,
          Event.offeredTo]
  | @writes sockfd count buf rest client isWriting isOpen isPart =>
      have nothing :=
        State.pending_eq_nil (state.goTo (.reading sockfd rest))
          (by simp [State.goTo])
      refine ⟨?_, ?_, ?_⟩
      · intro connection other taken member
        rcases List.mem_append.mp member with earlier | isEvent
        · exact offering.parts connection other taken earlier
        · obtain ⟨-, rfl, rfl⟩ :=
            Event.written.inj (List.mem_singleton.mp isEvent)
          exact isPart
      · intro other later behind impossible
        cases impossible
      · intro _ connection
        have before := offering.offered (by simp [isWriting]) connection
        rw [nothing, List.append_nil]
        unfold receivedFrom offeredTo at *
        rw [List.flatMap_append, List.flatMap_append, before]
        simp [State.pending, isWriting, isOpen, Event.receivedFrom,
          Event.offeredTo]
  | @writesClosed sockfd buf rest isWriting isFree =>
      have isOpen := offering.isOpen sockfd buf rest isWriting
      rw [isFree] at isOpen
      cases isOpen

end Offering

/-- What holds whenever a client has been drained. -/
def Echoes (before : List Event) (event : Event) : Prop :=
  ∀ connection, event = .drained connection →
    (sentTo connection before = receivedFrom connection before ↔
      TakesAll connection before)

/-- At the end of a drain everything that has been read has been offered. -/
theorem Offering.echoes
    {trace : List Event}
    {state : State}
    {sockfd connection : Nat}
    {rest : List Nat}
    (offering : Offering trace state)
    (isReading : state.position = .reading sockfd rest) :
    Echoes trace (.drained connection) := by
  rintro other -
  have offered := offering.offered (by simp [isReading]) other
  rw [State.pending_eq_nil state (by simp [isReading]), List.append_nil]
    at offered
  rw [offered]
  exact sentTo_eq_offeredTo_iff (offering.parts other)

/--
Whenever the server has drained the input of a client, it has sent it exactly
what it has read from it if and only if every write to it has taken all the
bytes it was offered.
-/
theorem echoed_iff
    (servSockfd : Nat)
    (trace : List Event)
    (state : State)
    (reaches : (system servSockfd).Reaches trace state)
    (before : List Event)
    (connection : Nat)
    (after : List Event)
    (isDrained : trace = before ++ .drained connection :: after) :
    sentTo connection before = receivedFrom connection before ↔
      TakesAll connection before := by
  have everywhere : Offering trace state ∧ AtEvery Echoes trace := by
    clear isDrained
    induction reaches with
    | initial =>
        exact ⟨Offering.initial servSockfd, AtEvery.nil⟩
    | step earlier taken inductionHypothesis =>
        obtain ⟨offering, echoes⟩ := inductionHypothesis
        refine ⟨offering.preserved (taken_of_step? taken), ?_⟩
        cases taken_of_step? taken with
        | readsEnd isReading | readsNothing isReading =>
            exact echoes.snoc (offering.echoes isReading)
        | reads | writes =>
            exact echoes.snoc fun _ impossible => by cases impossible
        | _ =>
            rwa [List.append_nil]
  exact everywhere.2 before (.drained connection) after isDrained connection
    rfl

/-- A client that sends six bytes, and two writes of the server. -/
def sixBytes (first second : Nat) : List Action :=
  [.epollWait [3], .nextEvent, .accept 5 [1, 2, 3, 4, 5, 6] false,
    .setNonblocking, .epollAdd, .nextEvent, .epollWait [5], .nextEvent,
    .read 4, .write first, .read 2, .write second, .read 0]

/-- What happens on the connection before it is drained. -/
def sixEvents (first second : Nat) : List Event :=
  [.received 0 [1, 2, 3, 4], .written 0 [1, 2, 3, 4] first,
    .received 0 [5, 6], .written 0 [5, 6] second]

/-- Both writes take all. -/
theorem echoed_iff_sixBytes :
    ∃ state,
      (system 3).Reaches (sixEvents 4 2 ++ [.drained 0]) state ∧
        sentTo 0 (sixEvents 4 2) = receivedFrom 0 (sixEvents 4 2) := by
  obtain ⟨trace, state, reaches, observed⟩ :=
    System.Reaches.exists_of_run?
      (by decide +kernel :
        ((system 3).run? (system 3).initial (sixBytes 4 2)).any
          (fun outcome => decide (
            outcome.2 = sixEvents 4 2 ++ [.drained 0])) = true)
  obtain rfl := of_decide_eq_true observed
  refine ⟨state, reaches, ?_⟩
  rw [echoed_iff 3 _ state reaches (sixEvents 4 2) 0 [] rfl]
  intro buf count member
  rcases (by simpa [sixEvents] using member :
    (buf = [1, 2, 3, 4] ∧ count = 4) ∨ (buf = [5, 6] ∧ count = 2)) with
    ⟨rfl, rfl⟩ | ⟨rfl, rfl⟩
  · rfl
  · rfl

/-- The first write takes three bytes, and the second one would block. -/
theorem not_echoed :
    ¬ ∀ servSockfd trace state,
      (system servSockfd).Reaches trace state →
        ∀ before connection after,
          trace = before ++ .drained connection :: after →
            sentTo connection before = receivedFrom connection before := by
  intro always
  obtain ⟨trace, state, reaches, observed⟩ :=
    System.Reaches.exists_of_run?
      (by decide +kernel :
        ((system 3).run? (system 3).initial (sixBytes 3 0)).any
          (fun outcome => decide (
            outcome.2 = sixEvents 3 0 ++ [.drained 0])) = true)
  obtain rfl := of_decide_eq_true observed
  have echoed := always 3 _ state reaches (sixEvents 3 0) 0 [] rfl
  exact absurd echoed (by decide)

end CsPrimer.EchoServer
