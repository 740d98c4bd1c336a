import CsPrimer.PxShm.LogMoves

namespace CsPrimer.PxShm

open Library

/-!
# Counts, messages and slots in every run of the message log

`Counts` balances the tokens of the semaphores against the processes that
hold them, and `Journal` follows the messages from their acceptance to their
reservation.  Both hold in every run.
-/

variable
  {nclients : Nat}
  {nloop : Int}
  {trace events : List (Event nclients)}
  {state : State nclients}
  {sender : Fin nclients}
  {after : Shared nclients}
  {next : Client}
  {nextServer : Server}

/-- Where the tokens are, and how far the server and `nput` have come. -/
structure Counts
    (trace : List (Event nclients))
    (state : State nclients) : Prop where
  locals :
    ∀ process, (state.clients process).Ok state.shared
  serverOk :
    state.server.Ok (printsIn trace).length
  mutex :
    state.shared.mutex + total Client.crit state.clients +
      state.server.crit = 1
  noverflowmutex :
    state.shared.noverflowmutex + total Client.counting state.clients +
      state.server.counting = 1
  nempty :
    state.shared.nempty + total Client.held state.clients +
        (reservedIn trace).length + state.server.debt =
      nmsg + (printsIn trace).length
  nstroed :
    state.shared.nstroed + (printsIn trace).length + state.server.token +
        total Client.unposted state.clients =
      (reservedIn trace).length
  nput :
    state.shared.nput % nmsg = (reservedIn trace).length % nmsg
  wraps :
    state.shared.nput < nmsg + total Client.resetting state.clients
  msgoff :
    state.shared.msgoff = fun index => index.val * msgSize

namespace Counts

/-- Only the client that resets `nput` sees it out of bounds. -/
theorem room
    (counts : Counts trace state)
    (inside : (state.clients sender).crit = 1)
    (notResetting : (state.clients sender).resetting = 0) :
    state.shared.nput < nmsg := by
  have exclusive : total Client.crit state.clients ≤ 1 := by
    have mutex := counts.mutex
    omega
  have others :
      total Client.resetting state.clients =
        (state.clients sender).resetting :=
    total_eq_of_exclusive exclusive (inside ▸ Nat.one_pos)
      Client.resetting_eq_zero
  have wraps := counts.wraps
  rw [others, notResetting] at wraps
  exact wraps

theorem effect
    (counts : Counts trace state)
    (taken :
      client nloop sender state.shared (state.clients sender) =
        some (after, next, events)) :
    ClientEffect sender state.shared after (state.clients sender) next
      events :=
  client_effect (counts.locals sender) counts.room counts.msgoff taken

/-- Every step of a client preserves the counts. -/
theorem client_step
    (counts : Counts trace state)
    (taken :
      client nloop sender state.shared (state.clients sender) =
        some (after, next, events)) :
    Counts (trace ++ events)
      { state with
        shared := after
        clients := Function.update state.clients sender next } := by
  have effect := counts.effect taken
  have changes := fun weight =>
    total_update weight state.clients sender next
  have noPrint : (printsIn (trace ++ events)).length =
      (printsIn trace).length := by
    simp [effect.silent.1]
  constructor
  case locals =>
    intro process
    by_cases same : process = sender
    · subst same
      simpa using effect.ok
    · simp only [Function.update_of_ne same]
      refine (counts.locals process).frame fun inside => ?_
      have alone := pair_le_total Client.crit state.clients same
      have mutex := counts.mutex
      exact effect.outside (by omega)
  case serverOk =>
    rw [noPrint]
    exact counts.serverOk
  case mutex =>
    have before := counts.mutex
    have moved := effect.mutex
    have change := changes Client.crit
    simp only
    omega
  case noverflowmutex =>
    have before := counts.noverflowmutex
    have moved := effect.noverflowmutex
    have change := changes Client.counting
    simp only
    omega
  case nempty =>
    have before := counts.nempty
    have moved := effect.nempty
    have change := changes Client.held
    simp only [noPrint, reservedIn_append, List.length_append]
    omega
  case nstroed =>
    have before := counts.nstroed
    have moved := effect.nstroed
    have change := changes Client.unposted
    simp only [noPrint, reservedIn_append, List.length_append]
    omega
  case nput =>
    simp only [reservedIn_append, List.length_append]
    exact effect.nput.trans (Nat.ModEq.add_right _ counts.nput)
  case wraps =>
    have before := counts.wraps
    have change := changes Client.resetting
    have weight :=
      weight_le_total Client.resetting
        (Function.update state.clients sender next) sender
    simp only [Function.update_self] at weight
    rcases effect.wraps with less | ⟨sameNput, sameResetting⟩
    · exact less.trans_le (Nat.add_le_add_left weight nmsg)
    · simp only [sameNput]
      omega
  case msgoff =>
    exact effect.msgoff.trans counts.msgoff

/-- Every step of the server preserves the counts. -/
theorem server_step
    (counts : Counts trace state)
    (taken :
      server state.shared state.server =
        some (after, nextServer, events)) :
    Counts (trace ++ events)
      { state with shared := after, server := nextServer } := by
  obtain ⟨effect, -⟩ := server_effect counts.serverOk counts.msgoff taken
  obtain ⟨sameNput, sameMsgoff, -⟩ := effect.frame
  have noReservation : (reservedIn (trace ++ events)).length =
      (reservedIn trace).length := by
    simp [effect.silent.2]
  constructor
  case locals =>
    exact fun process =>
      (counts.locals process).frame fun _ => sameNput
  case serverOk =>
    rw [printsIn_append, List.length_append]
    exact effect.ok
  case mutex =>
    have before := counts.mutex
    have moved := effect.mutex
    simp only
    omega
  case noverflowmutex =>
    have before := counts.noverflowmutex
    have moved := effect.noverflowmutex
    simp only
    omega
  case nempty =>
    have before := counts.nempty
    have moved := effect.nempty
    simp only [noReservation, printsIn_append, List.length_append]
    omega
  case nstroed =>
    have before := counts.nstroed
    have moved := effect.nstroed
    simp only [noReservation, printsIn_append, List.length_append]
    omega
  case nput =>
    simpa only [noReservation, sameNput] using counts.nput
  case wraps =>
    simpa only [sameNput] using counts.wraps
  case msgoff =>
    exact sameMsgoff.trans counts.msgoff

/-- The counts hold in every run. -/
theorem of_reaches
    {nloop : Fin nclients → Int}
    (reaches : (system nloop).Reaches trace state) :
    Counts trace state := by
  induction reaches with
  | initial =>
      constructor <;> simp [system, Shared.initial, Server.initial,
        Client.initial, reservedIn, printsIn, total, Client.crit,
        Client.counting, Client.held, Client.unposted, Client.resetting,
        Client.Ok, Server.Ok, Server.crit, Server.counting, Server.debt,
        Server.token]
  | step earlier taken counts =>
      rcases system_step_cases taken with
        ⟨sender, after, process, -, stepped, rfl⟩ |
        ⟨after, process, -, stepped, rfl⟩
      · exact counts.client_step stepped
      · exact counts.server_step stepped

end Counts

/-- How far the message of every iteration of every client has come. -/
structure Journal
    (trace : List (Event nclients))
    (state : State nclients) : Prop where
  reservedOnce :
    (reservedIn trace).Nodup
  reserved :
    ∀ message ∈ reservedIn trace,
      (state.clients message.1).Reserved message.2
  acceptedOnce :
    (acceptedIn trace).Nodup
  accepted :
    ∀ message, message ∈ acceptedIn trace ↔
      message ∈ reservedIn trace ∨
        (state.clients message.1).Holds message.2

namespace Journal

/-- A step without an event of the journal. -/
theorem quiet_step
    (journal : Journal trace state)
    (silent : acceptedIn events = [] ∧ reservedIn events = [])
    (kept : ∀ index, (state.clients sender).Reserved index →
      next.Reserved index)
    (same : ∀ index, next.Holds index ↔
      (state.clients sender).Holds index) :
    Journal (trace ++ events)
      { state with
        shared := after
        clients := Function.update state.clients sender next } := by
  obtain ⟨noAccepted, noReserved⟩ := silent
  constructor
  case reservedOnce =>
    simpa [noReserved] using journal.reservedOnce
  case reserved =>
    intro message member
    have earlier : message ∈ reservedIn trace := by
      simpa [noReserved] using member
    exact related_update Client.Reserved kept
      (journal.reserved message earlier)
  case acceptedOnce =>
    simpa [noAccepted] using journal.acceptedOnce
  case accepted =>
    intro message
    simp only [acceptedIn_append, reservedIn_append, noAccepted,
      noReserved, List.append_nil]
    rw [related_update_iff Client.Holds same message.1 message.2]
    exact journal.accepted message

/-- A client that goes on to its next message. -/
theorem increment_step
    (journal : Journal trace state)
    (nextIndex : next.index = (state.clients sender).index + 1)
    (holdsNothing : (state.clients sender).held = 0 ∧ next.held = 0) :
    Journal (trace ++ [])
      { state with
        shared := after
        clients := Function.update state.clients sender next } := by
  refine journal.quiet_step ⟨rfl, rfl⟩ ?_ ?_
  · rintro index (earlier | ⟨rfl, -⟩)
    · exact .inl (nextIndex ▸ Nat.lt_succ_of_lt earlier)
    · exact .inl (nextIndex ▸ Nat.lt_succ_self _)
  · simp [Client.Holds, holdsNothing.1, holdsNothing.2]

/-- A copying client keeps its reservation. -/
theorem copy_step
    (journal : Journal trace state)
    (silent : acceptedIn events = [] ∧ reservedIn events = [])
    (sameIndex : next.index = (state.clients sender).index)
    (holdsNothing : (state.clients sender).held = 0 ∧ next.held = 0)
    (past : next.Past) :
    Journal (trace ++ events)
      { state with
        shared := after
        clients := Function.update state.clients sender next } := by
  refine journal.quiet_step silent ?_ ?_
  · rintro index (earlier | ⟨rfl, -⟩)
    · exact .inl (sameIndex ▸ earlier)
    · exact .inr ⟨sameIndex.symm, past⟩
  · simp [Client.Holds, holdsNothing.1, holdsNothing.2]

/-- A client accepts the message of its iteration. -/
theorem accept_step
    (journal : Journal trace state)
    (sameIndex : next.index = (state.clients sender).index)
    (takes : (state.clients sender).held = 0 ∧ next.held = 1)
    (fresh : ¬ (state.clients sender).Past) :
    Journal (trace ++ [.accepted (sender, (state.clients sender).index)])
      { state with
        shared := after
        clients := Function.update state.clients sender next } := by
  have unreserved :
      ∀ index, (state.clients sender).Reserved index →
        index < (state.clients sender).index := by
    rintro index (earlier | ⟨-, past⟩)
    · exact earlier
    · exact absurd past fresh
  have isNew :
      (sender, (state.clients sender).index) ∉ acceptedIn trace := by
    intro member
    rcases (journal.accepted _).mp member with reserved | ⟨held, -⟩
    · exact Nat.lt_irrefl _
        (unreserved _ (journal.reserved _ reserved))
    · exact Nat.zero_ne_one (takes.1.symm.trans held)
  constructor
  case reservedOnce =>
    simpa using journal.reservedOnce
  case reserved =>
    intro message member
    have earlier : message ∈ reservedIn trace := by
      simpa using member
    refine related_update Client.Reserved (fun index reserved => ?_)
      (journal.reserved message earlier)
    exact .inl (sameIndex ▸ unreserved index reserved)
  case acceptedOnce =>
    simpa using journal.acceptedOnce.concat isNew
  case accepted =>
    rintro ⟨process, index⟩
    have before := journal.accepted (process, index)
    by_cases same : process = sender
    · subst same
      simp_all [Client.Holds]
    · simp_all

/-- A client reserves a slot for its message. -/
theorem reserve_step
    (journal : Journal trace state)
    (sameIndex : next.index = (state.clients sender).index)
    (gives : (state.clients sender).held = 1 ∧ next.held = 0)
    (past : ¬ (state.clients sender).Past ∧ next.Past) :
    Journal (trace ++ [.reserved (sender, (state.clients sender).index)])
      { state with
        shared := after
        clients := Function.update state.clients sender next } := by
  have isNew :
      (sender, (state.clients sender).index) ∉ reservedIn trace := by
    intro member
    rcases journal.reserved _ member with earlier | ⟨-, isPast⟩
    · exact Nat.lt_irrefl _ earlier
    · exact past.1 isPast
  constructor
  case reservedOnce =>
    simpa using journal.reservedOnce.concat isNew
  case reserved =>
    intro message member
    have earlierOrNew :
        message ∈ reservedIn trace ∨
          message = (sender, (state.clients sender).index) := by
      simpa using member
    rcases earlierOrNew with earlier | rfl
    · refine related_update Client.Reserved (fun index reserved => ?_)
        (journal.reserved message earlier)
      rcases reserved with before | ⟨rfl, isPast⟩
      · exact .inl (sameIndex ▸ before)
      · exact absurd isPast past.1
    · simp [Client.Reserved, sameIndex, past.2]
  case acceptedOnce =>
    simpa using journal.acceptedOnce
  case accepted =>
    rintro ⟨process, index⟩
    have before := journal.accepted (process, index)
    by_cases same : process = sender
    · subst same
      simp_all [Client.Holds]
    · simp_all

/-- Every step of a client preserves the journal. -/
theorem client_step
    (journal : Journal trace state)
    (move :
      ClientMove sender state.shared after (state.clients sender) next
        events) :
    Journal (trace ++ events)
      { state with
        shared := after
        clients := Function.update state.clients sender next } := by
  cases move with
  | stays silent _ _ sameIndex sameHeld past =>
      subst silent
      refine journal.quiet_step ⟨rfl, rfl⟩ ?_ ?_
      · rintro index (earlier | ⟨rfl, isPast⟩)
        · exact .inl (sameIndex ▸ earlier)
        · exact .inr ⟨sameIndex.symm, past isPast⟩
      · simp [Client.Holds, sameIndex, sameHeld]
  | increments silent _ _ nextIndex holdsNothing =>
      subst silent
      exact journal.increment_step nextIndex holdsNothing
  | accepts isAccepted _ _ sameIndex takes fresh =>
      subst isAccepted
      exact journal.accept_step sameIndex takes fresh
  | reserves isReserved _ _ _ sameIndex gives past =>
      subst isReserved
      exact journal.reserve_step sameIndex gives past
  | fills offset silent _ _ sameIndex holdsNothing past =>
      subst silent
      exact journal.copy_step ⟨rfl, rfl⟩ sameIndex holdsNothing past.2
  | copies offset isCopied _ _ _ sameIndex holdsNothing past =>
      subst isCopied
      exact journal.copy_step ⟨rfl, rfl⟩ sameIndex holdsNothing past.2

/-- The journal does not depend on the server. -/
theorem server_step
    (journal : Journal trace state)
    (silent : acceptedIn events = [] ∧ reservedIn events = []) :
    Journal (trace ++ events)
      { state with shared := after, server := nextServer } := by
  obtain ⟨noAccepted, noReserved⟩ := silent
  constructor <;> simp only [acceptedIn_append, reservedIn_append,
    noAccepted, noReserved, List.append_nil]
  · exact journal.reservedOnce
  · exact journal.reserved
  · exact journal.acceptedOnce
  · exact journal.accepted

/-- The journal holds in every run. -/
theorem of_reaches
    {nloop : Fin nclients → Int}
    (reaches : (system nloop).Reaches trace state) :
    Journal trace state := by
  induction reaches with
  | initial =>
      constructor <;> simp [system, acceptedIn, reservedIn, Client.initial,
        Client.Holds, Client.held]
  | step earlier taken journal =>
      have counts := Counts.of_reaches earlier
      rcases system_step_cases taken with
        ⟨sender, after, process, -, stepped, rfl⟩ |
        ⟨after, process, -, stepped, rfl⟩
      · exact journal.client_step
          (client_move (counts.locals sender) stepped)
      · exact journal.server_step
          (server_effect counts.serverOk counts.msgoff stepped).1.silent

end Journal

end CsPrimer.PxShm
