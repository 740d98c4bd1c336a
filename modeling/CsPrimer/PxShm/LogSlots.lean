import CsPrimer.PxShm.LogInvariant

namespace CsPrimer.PxShm

open Library

/-!
# What the slots of the message log hold

A token of `nstroed` does not say whose copy has ended.  As long as the server
only takes one when the copy to the slot it prints next has ended, every slot
between that position and the last reservation is either owned by the client
that reserved it or holds its complete message.
-/

variable
  {nclients : Nat}
  {nloop : Int}
  {trace events : List (Event nclients)}
  {state : State nclients}
  {sender : Fin nclients}
  {after : Shared nclients}
  {next : Client}
  {nextServer : Server}

/--
The server only passes `sem_wait(&ptr->nstroed)` when no client has yet to
complete its copy to `msgoff[index]`.
-/
def Announced
    (state : State nclients)
    (action : Action nclients) : Prop :=
  action = .server → state.server.pc = .waitNstroed →
    ∀ process, ∀ offset ∈ (state.clients process).owns?,
      state.shared.offsetAt state.server.index ≠ some offset

instance (state : State nclients) (action : Action nclients) :
    Decidable (Announced state action) :=
  inferInstanceAs (Decidable (_ → _ → _))

/-- The client of a message has yet to complete its copy to an offset. -/
def State.Owned
    (state : State nclients)
    (message : Message nclients)
    (offset : Nat) : Prop :=
  (state.clients message.1).Owns message.2 offset

/-- A message is complete at an offset and was copied since its release. -/
def Filled
    (trace : List (Event nclients))
    (shared : Shared nclients)
    (message : Message nclients)
    (offset : Nat) : Prop :=
  shared.msgdata offset = Text.whole message ∧
    FreshCopy trace offset message

/-- A printed string is a message copied since the last release. -/
def PrintsFresh
    (before : List (Event nclients))
    (event : Event nclients) : Prop :=
  ∀ offset text, event = .printed offset text →
    ∃ message, text = Text.whole message ∧
      FreshCopy before offset message

/-- Steps that print nothing have nothing to show. -/
theorem printsFresh_of_silent
    (silent : printsIn events = []) :
    AtEvery (fun before event => PrintsFresh (trace ++ before) event)
      events := by
  rintro before event later rfl offset text rfl
  simp [printsIn, Event.printed?] at silent

/-- What the slots hold, and what the server has printed. -/
structure Slots
    (trace : List (Event nclients))
    (state : State nclients) : Prop where
  unowned :
    state.server.token = 1 →
      ∀ message, ¬ state.Owned message (place (printsIn trace).length)
  slots :
    ∀ (position : Nat) (message : Message nclients),
      (reservedIn trace)[position]? = some message →
      (printsIn trace).length ≤ position →
      state.Owned message (place position) ∨
        Filled trace state.shared message (place position)
  owners :
    ∀ (message : Message nclients) (offset : Nat),
      state.Owned message offset →
      ∃ position : Nat, (printsIn trace).length ≤ position ∧
        (reservedIn trace)[position]? = some message ∧
        offset = place position
  half :
    ∀ process, (state.clients process).Half process state.shared
  prints :
    printsIn trace =
      ((reservedIn trace).take (printsIn trace).length).map Text.whole
  fresh :
    AtEvery PrintsFresh trace

/-- A reservation takes the position behind all others. -/
theorem reservedIn_snoc_eq_some
    {position : Nat}
    {new message : Message nclients} :
    (reservedIn (trace ++ [.reserved new]))[position]? = some message ↔
      (reservedIn trace)[position]? = some message ∨
        (position = (reservedIn trace).length ∧ new = message) := by
  rw [reservedIn_append, reservedIn_reserved, List.getElem?_append]
  by_cases earlier : position < (reservedIn trace).length
  · simp [earlier, Nat.ne_of_lt earlier]
  · have none : (reservedIn trace)[position]? = none :=
      List.getElem?_eq_none (Nat.le_of_not_lt earlier)
    rw [if_neg earlier, none, List.getElem?_singleton]
    by_cases last : position = (reservedIn trace).length
    · simp [last]
    · have later : position - (reservedIn trace).length ≠ 0 := by omega
      simp [last, later]

/-- The reserved positions that are not printed fit into one ring. -/
theorem Counts.near
    (counts : Counts trace state)
    {position : Nat}
    {message : Message nclients}
    (found : (reservedIn trace)[position]? = some message) :
    position + state.server.debt < (printsIn trace).length + nmsg := by
  have bound := (List.getElem?_eq_some_iff.mp found).1
  have nempty := counts.nempty
  omega

/-- `msgoff[index]` is the place of the position the server prints next. -/
theorem Counts.offsetAt_index
    (counts : Counts trace state)
    (isIndex : state.server.index = (printsIn trace).length % nmsg) :
    state.shared.offsetAt state.server.index =
      some (place (printsIn trace).length) := by
  have inBounds : state.server.index < nmsg :=
    isIndex ▸ Nat.mod_lt _ (by decide)
  rw [Shared.offsetAt, dif_pos inBounds, counts.msgoff, place, ← isIndex]

namespace Slots

/-- Only the client of its message owns the slot of a position. -/
theorem owner_eq
    (slots : Slots trace state)
    (counts : Counts trace state)
    {position : Nat}
    {message owner : Message nclients}
    (found : (reservedIn trace)[position]? = some message)
    (unprinted : (printsIn trace).length ≤ position)
    (owned : state.Owned owner (place position)) :
    owner = message := by
  obtain ⟨other, otherUnprinted, otherFound, same⟩ :=
    slots.owners owner _ owned
  have near := counts.near found
  have otherNear := counts.near otherFound
  have samePosition :=
    place_inj ⟨unprinted, by omega⟩ ⟨otherUnprinted, by omega⟩ same
  subst samePosition
  exact Option.some.inj (otherFound.symm.trans found)

/-- Two messages that are being copied have different slots. -/
theorem apart
    (slots : Slots trace state)
    (counts : Counts trace state)
    {first second : Message nclients}
    {offset : Nat}
    (ownsFirst : state.Owned first offset)
    (ownsSecond : state.Owned second offset) :
    first = second := by
  obtain ⟨position, unprinted, found, rfl⟩ :=
    slots.owners second offset ownsSecond
  exact slots.owner_eq counts found unprinted ownsFirst

/-- A client that writes to its slot leaves the other copies alone. -/
theorem half_step
    (slots : Slots trace state)
    (counts : Counts trace state)
    (half : next.Half sender after)
    (frame : ∀ offset, (state.clients sender).owns? ≠ some offset →
      after.msgdata offset = state.shared.msgdata offset)
    (process : Fin nclients) :
    (Function.update state.clients sender next process).Half process
      after := by
  by_cases same : process = sender
  · subst same
    simpa using half
  · simp only [Function.update_of_ne same]
    refine (slots.half process).frame fun offset owns => ?_
    refine frame offset fun senderOwns => same ?_
    have owned :
        state.Owned (process, (state.clients process).index) offset :=
      ⟨owns, rfl⟩
    have senderOwned :
        state.Owned (sender, (state.clients sender).index) offset :=
      ⟨senderOwns, rfl⟩
    exact congrArg Prod.fst (slots.apart counts owned senderOwned)

/-- A step that neither reserves, nor completes, nor prints a message. -/
theorem keep
    {final : State nclients}
    (slots : Slots trace state)
    (silent : reservedIn events = [] ∧ printsIn events = [])
    (sameOwners : ∀ message offset,
      final.Owned message offset ↔ state.Owned message offset)
    (filled : ∀ (position : Nat) message,
      (reservedIn trace)[position]? = some message →
      (printsIn trace).length ≤ position →
      ¬ state.Owned message (place position) →
      Filled trace state.shared message (place position) →
      Filled (trace ++ events) final.shared message (place position))
    (half : ∀ process, (final.clients process).Half process final.shared)
    (unowned : final.server.token = 1 →
      ∀ message, ¬ state.Owned message (place (printsIn trace).length)) :
    Slots (trace ++ events) final := by
  obtain ⟨noReserved, noPrint⟩ := silent
  have sameReserved : reservedIn (trace ++ events) = reservedIn trace := by
    simp [noReserved]
  have samePrints : printsIn (trace ++ events) = printsIn trace := by
    simp [noPrint]
  constructor
  case unowned =>
    simpa only [samePrints, sameOwners] using unowned
  case slots =>
    simp only [sameReserved, samePrints, sameOwners]
    intro position message found unprinted
    by_cases owned : state.Owned message (place position)
    · exact .inl owned
    · refine .inr (filled position message found unprinted owned ?_)
      exact (slots.slots position message found unprinted).resolve_left
        owned
  case owners =>
    simpa only [sameReserved, samePrints, sameOwners] using slots.owners
  case half =>
    exact half
  case prints =>
    simpa only [sameReserved, samePrints] using slots.prints
  case fresh =>
    exact slots.fresh.append (printsFresh_of_silent noPrint)

/-- A step of a client that keeps what the client owns. -/
theorem quiet_step
    (slots : Slots trace state)
    (silent : events = [] ∨ ∃ message, events = [.accepted message])
    (sameData : after.msgdata = state.shared.msgdata)
    (sameOwns : ∀ index offset, next.Owns index offset ↔
      (state.clients sender).Owns index offset)
    (half : ∀ process,
      (Function.update state.clients sender next process).Half process
        after) :
    Slots (trace ++ events)
      { state with
        shared := after
        clients := Function.update state.clients sender next } := by
  have kept :
      (reservedIn events = [] ∧ printsIn events = []) ∧
        ∀ offset, .released offset ∉ events := by
    rcases silent with rfl | ⟨message, rfl⟩
    · exact ⟨⟨rfl, rfl⟩, by simp⟩
    · exact ⟨⟨rfl, rfl⟩, by simp⟩
  refine slots.keep kept.1 ?_ ?_ half slots.unowned
  · intro message offset
    exact related_update_iff (Client.Owns · message.2)
      (sameOwns message.2) message.1 offset
  · intro position message found unprinted notOwned filled
    exact ⟨sameData ▸ filled.1, filled.2.append (kept.2 _)⟩

/-- A client stores the first part of its message. -/
theorem fill_step
    (slots : Slots trace state)
    (counts : Counts trace state)
    {offset : Nat}
    (owns : (state.clients sender).owns? = some offset ∧
      next.owns? = some offset)
    (sameIndex : next.index = (state.clients sender).index)
    (frame : ∀ other, (state.clients sender).owns? ≠ some other →
      after.msgdata other = state.shared.msgdata other)
    (half : ∀ process,
      (Function.update state.clients sender next process).Half process
        after) :
    Slots (trace ++ [])
      { state with
        shared := after
        clients := Function.update state.clients sender next } := by
  refine slots.keep ⟨rfl, rfl⟩ ?_ ?_ half slots.unowned
  · intro message other
    refine related_update_iff (Client.Owns · message.2) ?_ message.1 other
    simp [Client.Owns, owns.1, owns.2, sameIndex]
  · intro position message found unprinted notOwned filled
    refine ⟨(frame _ fun sameOffset => notOwned ?_).trans filled.1,
      filled.2.append (by simp)⟩
    have owned :
        state.Owned (sender, (state.clients sender).index)
          (place position) :=
      ⟨sameOffset, rfl⟩
    exact slots.owner_eq counts found unprinted owned ▸ owned

/-- A client completes its copy. -/
theorem copy_step
    (slots : Slots trace state)
    (counts : Counts trace state)
    {offset : Nat}
    (stored :
      after.msgdata =
        Function.update state.shared.msgdata offset
          (Text.whole (sender, (state.clients sender).index)))
    (owns : (state.clients sender).owns? = some offset ∧
      next.owns? = none)
    (half : ∀ process,
      (Function.update state.clients sender next process).Half process
        after) :
    Slots
      (trace ++ [.copied offset (sender, (state.clients sender).index)])
      { state with
        shared := after
        clients := Function.update state.clients sender next } := by
  have fewerOwners :
      ∀ (message : Message nclients) other,
        (Function.update state.clients sender next message.1).Owns
          message.2 other ↔
        message.1 ≠ sender ∧ state.Owned message other := by
    intro message other
    by_cases same : message.1 = sender
    · simp [same, Client.Owns, owns.2]
    · simp [same, State.Owned]
  have owned :
      state.Owned (sender, (state.clients sender).index) offset :=
    ⟨owns.1, rfl⟩
  have sameReserved :
      reservedIn (trace ++
        [.copied offset (sender, (state.clients sender).index)]) =
          reservedIn trace := by
    simp [reservedIn, Event.reserved?]
  have samePrints :
      printsIn (trace ++
        [.copied offset (sender, (state.clients sender).index)]) =
          printsIn trace := by
    simp [printsIn, Event.printed?]
  constructor
  case unowned =>
    intro token message ownedAfter
    rw [samePrints] at ownedAfter
    exact slots.unowned token message
      ((fewerOwners message _).mp ownedAfter).2
  case slots =>
    rw [sameReserved, samePrints]
    intro position message found unprinted
    by_cases sameOffset : place position = offset
    · -- This is the slot that has just been completed.
      subst sameOffset
      obtain rfl := slots.owner_eq counts found unprinted owned
      refine .inr ⟨?_, FreshCopy.last trace _ _⟩
      simp [stored]
    · rcases slots.slots position message found unprinted with
        ownedBefore | filled
      · refine .inl ((fewerOwners message _).mpr ⟨?_, ownedBefore⟩)
        intro isSender
        have sameOwner := ownedBefore.1
        rw [isSender, owns.1] at sameOwner
        exact sameOffset (Option.some.inj sameOwner).symm
      · refine .inr ⟨?_, filled.2.append (by simp)⟩
        simpa [stored, sameOffset] using filled.1
  case owners =>
    rw [sameReserved, samePrints]
    intro message other ownedAfter
    exact slots.owners message other
      ((fewerOwners message other).mp ownedAfter).2
  case half =>
    exact half
  case prints =>
    rw [sameReserved, samePrints]
    exact slots.prints
  case fresh =>
    exact slots.fresh.append (printsFresh_of_silent rfl)

/-- A client reserves the slot of the next position. -/
theorem reserve_step
    (slots : Slots trace state)
    (counts : Counts trace state)
    (sameData : after.msgdata = state.shared.msgdata)
    (owns : (state.clients sender).owns? = none ∧
      next.owns? = some (state.shared.nput * msgSize))
    (inside : (state.clients sender).crit = 1 ∧
      (state.clients sender).resetting = 0)
    (sameIndex : next.index = (state.clients sender).index)
    (holds : (state.clients sender).held = 1)
    (half : ∀ process,
      (Function.update state.clients sender next process).Half process
        after) :
    Slots
      (trace ++ [.reserved (sender, (state.clients sender).index)])
      { state with
        shared := after
        clients := Function.update state.clients sender next } := by
  have isPlace :
      state.shared.nput * msgSize = place (reservedIn trace).length := by
    have room := counts.room inside.1 inside.2
    rw [place, ← counts.nput, Nat.mod_eq_of_lt room]
  have behind :
      (printsIn trace).length + state.server.token ≤
          (reservedIn trace).length := by
    have nstroed := counts.nstroed
    omega
  have room :
      (reservedIn trace).length < (printsIn trace).length + nmsg := by
    have nempty := counts.nempty
    have weight := weight_le_total Client.held state.clients sender
    omega
  have oneMoreOwner :
      ∀ (message : Message nclients) offset,
        (Function.update state.clients sender next message.1).Owns
          message.2 offset ↔
        state.Owned message offset ∨
          (message = (sender, (state.clients sender).index) ∧
            offset = place (reservedIn trace).length) := by
    rintro ⟨process, index⟩ offset
    by_cases same : process = sender
    · subst same
      simp [Client.Owns, State.Owned, owns.1, owns.2, sameIndex, isPlace,
        eq_comm, and_comm]
    · simp [same, State.Owned]
  have samePrints :
      printsIn (trace ++
        [.reserved (sender, (state.clients sender).index)]) =
          printsIn trace := by
    simp [printsIn, Event.printed?]
  constructor
  case unowned =>
    intro token message ownedAfter
    rw [samePrints] at ownedAfter
    rcases (oneMoreOwner message _).mp ownedAfter with
      ownedBefore | ⟨-, samePlace⟩
    · exact slots.unowned token message ownedBefore
    · have isToken : state.server.token = 1 := token
      exact place_ne (by omega) room samePlace
  case slots =>
    rw [samePrints]
    intro position message found unprinted
    rcases reservedIn_snoc_eq_some.mp found with earlier | ⟨rfl, rfl⟩
    · rcases slots.slots position message earlier unprinted with
        ownedBefore | filled
      · exact .inl ((oneMoreOwner message _).mpr (.inl ownedBefore))
      · exact .inr ⟨sameData ▸ filled.1, filled.2.append (by simp)⟩
    · exact .inl ((oneMoreOwner _ _).mpr (.inr ⟨rfl, rfl⟩))
  case owners =>
    rw [samePrints]
    intro message offset ownedAfter
    rcases (oneMoreOwner message offset).mp ownedAfter with
      ownedBefore | ⟨rfl, rfl⟩
    · obtain ⟨position, unprinted, found, isOffset⟩ :=
        slots.owners message offset ownedBefore
      exact ⟨position, unprinted,
        reservedIn_snoc_eq_some.mpr (.inl found), isOffset⟩
    · exact ⟨(reservedIn trace).length, by omega,
        reservedIn_snoc_eq_some.mpr (.inr ⟨rfl, rfl⟩), rfl⟩
  case half =>
    exact half
  case prints =>
    rw [samePrints, reservedIn_append,
      List.take_append_of_le_length (by omega)]
    exact slots.prints
  case fresh =>
    exact slots.fresh.append (printsFresh_of_silent rfl)

/-- Every step of a client preserves what the slots hold. -/
theorem client_step
    (slots : Slots trace state)
    (counts : Counts trace state)
    (taken :
      client nloop sender state.shared (state.clients sender) =
        some (after, next, events)) :
    Slots (trace ++ events)
      { state with
        shared := after
        clients := Function.update state.clients sender next } := by
  have move := client_move (counts.locals sender) taken
  have frame : ∀ offset, (state.clients sender).owns? ≠ some offset →
      after.msgdata offset = state.shared.msgdata offset :=
    fun offset other => move.frame (slots.half sender) other
  have half := slots.half_step counts (counts.effect taken).half frame
  cases move with
  | stays silent sameData sameSlot sameIndex sameHeld past =>
      refine slots.quiet_step (.inl silent) sameData ?_ half
      simp [Client.Owns, sameSlot, sameIndex]
  | increments silent sameData ownsNothing nextIndex holdsNothing =>
      refine slots.quiet_step (.inl silent) sameData ?_ half
      simp [Client.Owns, ownsNothing.1, ownsNothing.2]
  | accepts isAccepted sameData ownsNothing sameIndex takes fresh =>
      refine slots.quiet_step (.inr ⟨_, isAccepted⟩) sameData ?_ half
      simp [Client.Owns, ownsNothing.1, ownsNothing.2]
  | reserves isReserved sameData owns inside sameIndex gives past =>
      subst isReserved
      exact slots.reserve_step counts sameData owns inside sameIndex
        gives.1 half
  | fills offset silent stored owns sameIndex holdsNothing past =>
      subst silent
      exact slots.fill_step counts owns sameIndex frame half
  | copies offset isCopied stored owns outside sameIndex holdsNothing past =>
      subst isCopied
      exact slots.copy_step counts (stored (slots.half sender)) owns half

/-- The server prints the complete message of its position. -/
theorem print_step
    (slots : Slots trace state)
    (counts : Counts trace state)
    (sameData : after.msgdata = state.shared.msgdata)
    (token : state.server.token = 1 ∧ nextServer.token = 0) :
    Slots
      (trace ++ [.printed (place (printsIn trace).length)
        (state.shared.msgdata (place (printsIn trace).length))])
      { state with shared := after, server := nextServer } := by
  have more : (printsIn trace).length < (reservedIn trace).length := by
    have nstroed := counts.nstroed
    omega
  have found := List.getElem?_eq_getElem more
  have unowned := slots.unowned token.1
  obtain ⟨complete, copied⟩ :=
    (slots.slots _ _ found (Nat.le_refl _)).resolve_left (unowned _)
  have sameReserved :
      reservedIn (trace ++ [.printed (place (printsIn trace).length)
        (state.shared.msgdata (place (printsIn trace).length))]) =
          reservedIn trace := by
    simp [reservedIn, Event.reserved?]
  have morePrints :
      (printsIn (trace ++ [.printed (place (printsIn trace).length)
        (state.shared.msgdata (place (printsIn trace).length))])).length =
          (printsIn trace).length + 1 := by
    simp
  constructor
  case unowned =>
    intro hasToken
    exact absurd (token.2.symm.trans hasToken) Nat.zero_ne_one
  case slots =>
    rw [sameReserved, morePrints]
    intro position message isReserved unprinted
    rcases slots.slots position message isReserved (by omega) with
      owned | filled
    · exact .inl owned
    · exact .inr ⟨sameData ▸ filled.1, filled.2.append (by simp)⟩
  case owners =>
    rw [sameReserved, morePrints]
    intro message offset owned
    obtain ⟨position, unprinted, isReserved, rfl⟩ :=
      slots.owners message offset owned
    rcases Nat.eq_or_lt_of_le unprinted with rfl | later
    · exact absurd owned (unowned message)
    · exact ⟨position, later, isReserved, rfl⟩
  case half =>
    exact fun process =>
      (slots.half process).frame fun offset _ => by rw [sameData]
  case prints =>
    rw [sameReserved, morePrints, printsIn_append, printsIn_printed,
      List.take_add_one, found, List.map_append, ← slots.prints, complete]
    rfl
  case fresh =>
    refine slots.fresh.snoc ?_
    rintro offset text same
    obtain ⟨rfl, rfl⟩ : place (printsIn trace).length = offset ∧
        state.shared.msgdata (place (printsIn trace).length) = text := by
      simpa using same
    exact ⟨_, complete, copied⟩

/-- Every announced step of the server preserves what the slots hold. -/
theorem server_step
    (slots : Slots trace state)
    (counts : Counts trace state)
    (announced : Announced state .server)
    (taken :
      server state.shared state.server =
        some (after, nextServer, events)) :
    Slots (trace ++ events)
      { state with shared := after, server := nextServer } := by
  obtain ⟨effect, move⟩ :=
    server_effect counts.serverOk counts.msgoff taken
  have sameData := effect.frame.2.2
  have half : ∀ process, (state.clients process).Half process after :=
    fun process =>
      (slots.half process).frame fun offset _ => by rw [sameData]
  cases move with
  | stays silent sameToken sameDebt =>
      refine slots.keep ⟨effect.silent.2, silent.1⟩
        (fun _ _ => Iff.rfl) ?_ half ?_
      · intro position message found unprinted notOwned filled
        exact ⟨sameData ▸ filled.1, filled.2.append (silent.2 _)⟩
      · exact fun token => slots.unowned (sameToken ▸ token)
  | takes waits silent =>
      subst silent
      refine slots.keep ⟨rfl, rfl⟩ (fun _ _ => Iff.rfl) ?_ half ?_
      · intro position message found unprinted notOwned filled
        exact ⟨sameData ▸ filled.1, filled.2.append (by simp)⟩
      · intro _ message owned
        have isIndex :
            state.server.index = (printsIn trace).length % nmsg := by
          simpa only [Server.Ok, waits] using counts.serverOk
        exact announced rfl waits message.1 _ owned.1
          (counts.offsetAt_index isIndex)
  | prints shown usesToken makesDebt =>
      subst shown
      exact slots.print_step counts sameData usesToken
  | releases last isLast released paysDebt noToken =>
      subst released
      refine slots.keep ⟨rfl, rfl⟩ (fun _ _ => Iff.rfl) ?_ half ?_
      · intro position message found unprinted notOwned filled
        refine ⟨sameData ▸ filled.1, filled.2.append ?_⟩
        have near := counts.near found
        have different : place last ≠ place position :=
          place_ne (by omega) (by omega)
        simpa using different.symm
      · intro token
        exact absurd (noToken.symm.trans token) Nat.zero_ne_one

/-- What the slots hold in runs in which the server takes no token early. -/
theorem of_reaches
    {nloop : Fin nclients → Int}
    (reaches :
      ((system nloop).guarded Announced).Reaches trace state) :
    Slots trace state := by
  induction reaches with
  | initial =>
      constructor <;> simp [System.guarded, system, reservedIn, printsIn,
        Server.initial, Server.token, Client.initial, Client.Half,
        State.Owned, Client.Owns, Client.owns?, AtEvery.nil]
  | step earlier taken slots =>
      have counts := Counts.of_reaches earlier.of_guarded
      obtain ⟨announced, stepped⟩ := System.guarded_step?_eq_some.mp taken
      rcases system_step_cases stepped with
        ⟨sender, after, process, -, clientStep, rfl⟩ |
        ⟨after, process, rfl, serverStep, rfl⟩
      · exact slots.client_step counts clientStep
      · exact slots.server_step counts announced serverStep

end Slots

end CsPrimer.PxShm
