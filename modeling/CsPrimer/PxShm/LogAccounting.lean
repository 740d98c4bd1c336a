import CsPrimer.PxShm.LogWork

namespace CsPrimer.PxShm

open Library

/-!
# Back-pressure and overflow accounting of the message log

A slot is always in one of four places: a token of `nempty`, a client that
fills it, a token of `nstroed`, or the server that prints it.  An iteration of
a client ends with a reservation or is counted in `noverflow`.
-/

variable
  {nclients : Nat}
  {trace events : List (Event nclients)}
  {state : State nclients}
  {sender : Fin nclients}

namespace Client

/-- Is between a successful `sem_trywait` and its post of `nstroed`. -/
def holding (process : Client) : Nat :=
  match process.pc with
  | .waitMutex | .loadSlot | .loadOffset _ | .loadNput _ | .storeNput _ _
  | .resetNput _ | .postMutex _ | .copyFirst _ | .copyRest _
  | .postNstroed => 1
  | _ => 0

/-- The iterations whose reservation or overflow has been counted. -/
def settled (process : Client) : Nat :=
  match process.pc with
  | .resetNput _ | .postMutex _ | .copyFirst _ | .copyRest _
  | .postNstroed | .postOverflow | .increment => process.index + 1
  | _ => process.index

/-- What a client that increments `noverflow` has loaded. -/
def Loaded
    {nclients : Nat}
    (shared : Shared nclients)
    (process : Client) : Prop :=
  match process.pc with
  | .storeOverflow noverflow => noverflow = shared.noverflow
  | _ => True

/-- How the loop variable stands to the number of iterations. -/
def Counted (nloop : Int) (process : Client) : Prop :=
  match process.pc with
  | .testLoop => process.index ≤ nloop.toNat
  | .returned => process.index = nloop.toNat
  | _ => process.index < nloop.toNat

theorem holding_eq (process : Client) :
    process.holding = process.held + process.unposted := by
  obtain ⟨pc, index⟩ := process
  cases pc <;> rfl

/-- What a client has loaded only depends on `noverflow`. -/
theorem Loaded.frame
    {before after : Shared nclients}
    {process : Client}
    (loaded : process.Loaded before)
    (kept : process.counting = 1 → after.noverflow = before.noverflow) :
    process.Loaded after := by
  obtain ⟨pc, index⟩ := process
  cases pc with
  | storeOverflow noverflow =>
      simpa only [Loaded, kept rfl] using loaded
  | _ =>
      trivial

end Client

/-- Is between its wait on `nstroed` and its post of `nempty`. -/
def Server.holding (process : Server) : Nat :=
  match process.pc with
  | .waitMutex | .loadOffset | .print | .advance | .postMutex
  | .postNempty => 1
  | _ => 0

theorem Server.holding_eq (process : Server) :
    process.holding = process.token + process.debt := by
  obtain ⟨pc, index, offset, lastnoverflow, temp⟩ := process
  cases pc <;> rfl

/-- What one step of a client changes in the count of overflows. -/
structure OverflowEffect
    (nloop : Int)
    (before after : Shared nclients)
    (process next : Client)
    (events : List (Event nclients)) : Prop where
  loaded :
    next.Loaded after
  counted :
    next.Counted nloop
  settled :
    after.noverflow + (reservedIn events).length + process.settled =
      before.noverflow + next.settled
  outside :
    process.counting = 0 → after.noverflow = before.noverflow

open Client in
/-- Every step of a client counts an iteration at most once. -/
theorem client_overflow
    {nloop : Int}
    {before after : Shared nclients}
    {process next : Client}
    (loaded : process.Loaded before)
    (counted : process.Counted nloop)
    (taken :
      client nloop sender before process = some (after, next, events)) :
    OverflowEffect nloop before after process next events := by
  obtain ⟨pc, index⟩ := process
  cases pc with
  | testLoop =>
      simp only [Counted] at counted
      by_cases more : index < nloop
      · simp only [client, if_pos more, Option.some.injEq,
          Prod.mk.injEq] at taken
        obtain ⟨rfl, rfl, rfl⟩ := taken
        have less : index < nloop.toNat := by omega
        constructor <;> simp [Loaded, Counted, settled, reservedIn, less]
      · simp only [client, if_neg more, Option.some.injEq,
          Prod.mk.injEq] at taken
        obtain ⟨rfl, rfl, rfl⟩ := taken
        have isLast : index = nloop.toNat := by omega
        constructor <;> simp [Loaded, Counted, settled, reservedIn, isLast]
  | tryWait =>
      simp only [Counted] at counted
      cases available : semWait before.nempty <;>
        simp only [client, available, Option.some.injEq,
          Prod.mk.injEq] at taken <;>
        obtain ⟨rfl, rfl, rfl⟩ := taken <;>
        constructor <;> simp [Loaded, Counted, settled, reservedIn,
          Event.reserved?, counted]
  | waitOverflow | waitMutex | loadOffset =>
      simp only [Counted] at counted
      obtain ⟨value, -, outcome⟩ := Option.map_eq_some_iff.mp taken
      simp only [Prod.mk.injEq] at outcome
      obtain ⟨rfl, rfl, rfl⟩ := outcome
      constructor <;> simp [Loaded, Counted, settled, reservedIn, counted]
  | storeOverflow noverflow =>
      obtain rfl : noverflow = before.noverflow := loaded
      simp only [Counted] at counted
      simp only [client, Option.some.injEq, Prod.mk.injEq] at taken
      obtain ⟨rfl, rfl, rfl⟩ := taken
      constructor <;> simp [Loaded, Counted, settled, reservedIn, counting,
        counted]
      omega
  | storeNput offset nput =>
      simp only [Counted] at counted
      by_cases wraps : nmsg ≤ nput + 1 <;>
        simp only [client, wraps, if_true, if_false, Option.some.injEq,
          Prod.mk.injEq] at taken <;>
        obtain ⟨rfl, rfl, rfl⟩ := taken <;>
        constructor <;> simp [Loaded, Counted, settled, counted] <;>
        omega
  | copyRest offset =>
      simp only [Counted] at counted
      simp only [client, Option.some.injEq, Prod.mk.injEq] at taken
      obtain ⟨rfl, rfl, rfl⟩ := taken
      constructor <;> simp [Loaded, Counted, settled, reservedIn,
        Event.reserved?, counted]
  | increment =>
      simp only [Counted] at counted
      simp only [client, Option.some.injEq, Prod.mk.injEq] at taken
      obtain ⟨rfl, rfl, rfl⟩ := taken
      constructor <;> simp [Loaded, Counted, settled, reservedIn]
      omega
  | returned =>
      simp [client] at taken
  | _ =>
      simp only [Counted] at counted
      simp only [client, Option.some.injEq, Prod.mk.injEq] at taken
      obtain ⟨rfl, rfl, rfl⟩ := taken
      constructor <;> simp [Loaded, Counted, settled, reservedIn, counted]

/-- The server only reads `noverflow`. -/
theorem server_noverflow
    {before after : Shared nclients}
    {process next : Server}
    (taken : server before process = some (after, next, events)) :
    after.noverflow = before.noverflow := by
  obtain ⟨pc, index, offset, lastnoverflow, temp⟩ := process
  cases pc with
  | waitNstroed | waitMutex | waitOverflow | loadOffset =>
      obtain ⟨value, -, outcome⟩ := Option.map_eq_some_iff.mp taken
      simp only [Prod.mk.injEq] at outcome
      obtain ⟨rfl, rfl, rfl⟩ := outcome
      rfl
  | testOverflow =>
      by_cases same : temp = lastnoverflow <;>
        simp [server, same] at taken <;>
        obtain ⟨rfl, rfl, rfl⟩ := taken <;>
        rfl
  | _ =>
      simp only [server, Option.some.injEq, Prod.mk.injEq] at taken
      obtain ⟨rfl, rfl, rfl⟩ := taken
      rfl

/-- How the iterations of the clients are accounted for. -/
structure Accounts
    (nloop : Fin nclients → Int)
    (trace : List (Event nclients))
    (state : State nclients) : Prop where
  loaded :
    ∀ process, (state.clients process).Loaded state.shared
  counted :
    ∀ process, (state.clients process).Counted (nloop process)
  settled :
    (total Client.settled state.clients : Int) =
      (reservedIn trace).length + state.shared.noverflow

namespace Accounts

variable {nloop : Fin nclients → Int}

/-- Every step of a client preserves the accounts. -/
theorem client_step
    {after : Shared nclients}
    {next : Client}
    (accounts : Accounts nloop trace state)
    (counts : Counts trace state)
    (taken :
      client (nloop sender) sender state.shared (state.clients sender) =
        some (after, next, events)) :
    Accounts nloop (trace ++ events)
      { state with
        shared := after
        clients := Function.update state.clients sender next } := by
  have effect :=
    client_overflow (accounts.loaded sender) (accounts.counted sender) taken
  constructor
  case loaded =>
    intro process
    by_cases same : process = sender
    · subst same
      simpa using effect.loaded
    · simp only [Function.update_of_ne same]
      refine (accounts.loaded process).frame fun inside => ?_
      have alone := pair_le_total Client.counting state.clients same
      have noverflowmutex := counts.noverflowmutex
      exact effect.outside (by omega)
  case counted =>
    intro process
    by_cases same : process = sender
    · subst same
      simpa using effect.counted
    · simpa only [Function.update_of_ne same] using
        accounts.counted process
  case settled =>
    have before := accounts.settled
    have moved := effect.settled
    have change := total_update Client.settled state.clients sender next
    simp only [reservedIn_append, List.length_append]
    push_cast
    omega

/-- The accounts hold in every run. -/
theorem of_reaches
    (reaches : (system nloop).Reaches trace state) :
    Accounts nloop trace state := by
  induction reaches with
  | initial =>
      constructor <;> simp [system, Shared.initial, Client.initial,
        reservedIn, total, Client.Loaded, Client.Counted, Client.settled]
  | @step trace events state next action earlier taken accounts =>
      have counts := Counts.of_reaches earlier
      rcases system_step_cases taken with
        ⟨sender, after, process, -, stepped, rfl⟩ |
        ⟨after, process, -, stepped, rfl⟩
      · exact accounts.client_step counts stepped
      · have sameNoverflow := server_noverflow stepped
        have silent :=
          (server_effect counts.serverOk counts.msgoff stepped).1.silent
        refine ⟨fun other => ?_, accounts.counted, ?_⟩
        · exact (accounts.loaded other).frame fun _ => sameNoverflow
        · simpa [silent.2, sameNoverflow] using accounts.settled

end Accounts

/-- A free `mutex` means that no client is resetting `nput`. -/
theorem Counts.nput_of_free
    (counts : Counts trace state)
    (free : state.shared.mutex ≠ 0) :
    state.shared.nput = (reservedIn trace).length % nmsg := by
  have noClient : total Client.crit state.clients = 0 := by
    have mutex := counts.mutex
    omega
  have noReset : total Client.resetting state.clients = 0 := by
    refine total_eq_zero_iff.mpr fun process => ?_
    exact Client.resetting_eq_zero _ (total_eq_zero_iff.mp noClient process)
  have inBounds := counts.wraps
  rw [noReset, Nat.add_zero] at inBounds
  rw [← counts.nput, Nat.mod_eq_of_lt inBounds]

/--
`client2` and `server2`, for every number of clients, all loop counts and
every interleaving: the slots are the tokens of `nempty` and `nstroed` and
those the clients and the server hold; `nput` counts the reservations whenever
`mutex` is free; `msgoff` is read in bounds; and once the clients have
returned, each iteration was a reservation or is counted in `noverflow`.
-/
theorem messageLog_accounting
    (nloop : Fin nclients → Int)
    (reaches : (system nloop).Reaches trace state) :
    state.shared.nempty + total Client.holding state.clients +
        state.shared.nstroed + state.server.holding = nmsg ∧
      (state.shared.mutex ≠ 0 →
        state.shared.nput = (reservedIn trace).length % nmsg) ∧
      (∀ process slot, (state.clients process).pc = .loadOffset slot →
        slot < nmsg) ∧
      (state.server.pc = .loadOffset → state.server.index < nmsg) ∧
      ((∀ process, (state.clients process).pc = .returned) →
        (∀ process,
          (state.clients process).index = (nloop process).toNat) ∧
        (total Client.index state.clients : Int) =
          (reservedIn trace).length + state.shared.noverflow) := by
  have counts := Counts.of_reaches reaches
  have accounts := Accounts.of_reaches reaches
  refine ⟨?_, counts.nput_of_free, ?_, ?_, ?_⟩
  · have nempty := counts.nempty
    have nstroed := counts.nstroed
    have claimed :
        total Client.holding state.clients =
          total Client.held state.clients +
            total Client.unposted state.clients := by
      simp only [total, Client.holding_eq, Finset.sum_add_distrib]
    rw [claimed, Server.holding_eq]
    omega
  · intro process slot pc
    have ok := counts.locals process
    simp only [Client.Ok, pc] at ok
    exact ok.1 ▸ ok.2
  · intro pc
    have ok := counts.serverOk
    simp only [Server.Ok, pc] at ok
    exact ok ▸ Nat.mod_lt _ (by decide)
  · intro returned
    have isLast :
        ∀ process,
          (state.clients process).index = (nloop process).toNat := by
      intro process
      simpa only [Client.Counted, returned process] using
        accounts.counted process
    have allSettled :
        total Client.settled state.clients =
          total Client.index state.clients := by
      refine Finset.sum_congr rfl fun process _ => ?_
      simp [Client.settled, returned process]
    exact ⟨isLast, allSettled ▸ accounts.settled⟩

/--
Seventeen clients fill the log before the server moves: one of them is counted
in `noverflow`, and all slots wait to be printed.
-/
theorem messageLog_accounting_overflow :
    ∃ trace state,
      (system (fun _ : Fin 17 => 1)).Reaches trace state ∧
        state.shared.noverflow = 1 ∧
        (reservedIn trace).length = 16 ∧
        state.shared.nput = 0 ∧
        state.shared.nempty = 0 ∧
        total Client.holding state.clients + state.shared.nstroed = nmsg := by
  obtain ⟨trace, state, reaches, outcome⟩ :=
    System.Reaches.exists_of_run?
      (by decide +kernel :
        ((system (fun _ : Fin 17 => 1)).run?
          (system (fun _ : Fin 17 => 1)).initial
          ((List.finRange 17).flatMap fun process =>
            List.replicate
              (if process < 15 then 13 else if process < 16 then 14 else 8)
              (.client process))).any
          (fun outcome => decide (
            (∀ process, (outcome.1.clients process).pc = .returned) ∧
              outcome.1.shared.noverflow = 1 ∧
              outcome.1.shared.mutex = 1 ∧
              outcome.1.shared.nempty = 0 ∧
              outcome.1.server.holding = 0)) = true)
  obtain ⟨returned, noverflow, mutex, nempty, noHolder⟩ :=
    of_decide_eq_true outcome
  dsimp only at returned noverflow mutex nempty noHolder
  obtain ⟨slots, nput, -, -, settled⟩ :=
    messageLog_accounting (fun _ : Fin 17 => 1) reaches
  obtain ⟨isLast, iterations⟩ := settled returned
  have reserved : (reservedIn trace).length = 16 := by
    have seventeen : (17 : Int) = (reservedIn trace).length + 1 := by
      simpa [total, isLast, noverflow] using iterations
    omega
  refine ⟨trace, state, reaches, noverflow, reserved, ?_, nempty, ?_⟩
  · have isCount := nput (by omega)
    rwa [reserved] at isCount
  · omega

end CsPrimer.PxShm
