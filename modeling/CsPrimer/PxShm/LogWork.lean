import CsPrimer.PxShm.LogSlots

namespace CsPrimer.PxShm

open Library

/-!
# Every run of the message log ends

The loops of the clients and the tokens they post bound the number of steps.
With no step left, all clients have returned and the server waits for a token,
so everything that was accepted has been printed.
-/

variable
  {nclients : Nat}
  {trace events : List (Event nclients)}
  {state : State nclients}

section Work

/-- Bounds the steps a client has before the end of its iteration. -/
def ClientPc.rank : ClientPc → Nat
  | .tryWait => 24
  | .waitMutex => 23
  | .loadSlot => 22
  | .loadOffset _ => 21
  | .loadNput _ => 20
  | .storeNput _ _ => 19
  | .resetNput _ => 18
  | .postMutex _ => 17
  | .copyFirst _ => 16
  | .copyRest _ => 15
  | .postNstroed => 14
  | .waitOverflow => 6
  | .loadOverflow => 5
  | .storeOverflow _ => 4
  | .postOverflow => 3
  | .increment => 2
  | .testLoop => 1
  | .returned => 0

/-- Bounds the steps of a client, and of the server for its tokens. -/
def Client.work (nloop : Int) (process : Client) : Nat :=
  match process.pc with
  | .testLoop => (nloop - process.index).toNat * 24 + 1
  | pc => (nloop - (process.index + 1)).toNat * 24 + pc.rank

/-- The steps the server has before it waits for the next token. -/
def ServerPc.rank : ServerPc → Nat
  | .waitNstroed => 0
  | .waitMutex => 10
  | .loadOffset => 9
  | .print => 8
  | .advance => 7
  | .postMutex => 6
  | .postNempty => 5
  | .waitOverflow => 4
  | .loadOverflow => 3
  | .postOverflow => 2
  | .testOverflow => 1

/-- The work of all clients. -/
def clientsWork
    (nloop : Fin nclients → Int)
    (clients : Fin nclients → Client) : Nat :=
  total (fun process : Int × Client => process.2.work process.1)
    fun process => (nloop process, clients process)

/-- Bounds the steps that remain in a run. -/
def State.work
    (nloop : Fin nclients → Int)
    (state : State nclients) : Nat :=
  clientsWork nloop state.clients + 11 * state.shared.nstroed +
    state.server.pc.rank

theorem clientsWork_update
    (nloop : Fin nclients → Int)
    (clients : Fin nclients → Client)
    (sender : Fin nclients)
    (next : Client) :
    clientsWork nloop (Function.update clients sender next) +
        (clients sender).work (nloop sender) =
      clientsWork nloop clients + next.work (nloop sender) := by
  have isUpdate :
      (fun process =>
          (nloop process, Function.update clients sender next process)) =
        Function.update (fun process => (nloop process, clients process))
          sender (nloop sender, next) := by
    funext process
    by_cases same : process = sender
    · subst same
      simp
    · simp [same]
  have changed :=
    total_update
      (fun process : Int × Client => process.2.work process.1)
      (fun process => (nloop process, clients process)) sender
      (nloop sender, next)
  rw [← isUpdate] at changed
  exact changed

/-- Every step of a client uses up some of its work. -/
theorem client_work
    {nloop : Int}
    {sender : Fin nclients}
    {before after : Shared nclients}
    {process next : Client}
    (taken :
      client nloop sender before process = some (after, next, events)) :
    next.work nloop + 11 * after.nstroed <
      process.work nloop + 11 * before.nstroed := by
  obtain ⟨pc, index⟩ := process
  cases pc with
  | testLoop =>
      by_cases more : index < nloop <;>
        simp only [client, more, if_true, if_false, Option.some.injEq,
          Prod.mk.injEq] at taken <;>
        obtain ⟨rfl, rfl, rfl⟩ := taken <;>
        simp only [Client.work, ClientPc.rank] <;>
        omega
  | tryWait =>
      cases available : semWait before.nempty <;>
        simp only [client, available, Option.some.injEq,
          Prod.mk.injEq] at taken <;>
        obtain ⟨rfl, rfl, rfl⟩ := taken <;>
        simp [Client.work, ClientPc.rank]
  | waitOverflow | waitMutex | loadOffset =>
      obtain ⟨value, -, outcome⟩ := Option.map_eq_some_iff.mp taken
      simp only [Prod.mk.injEq] at outcome
      obtain ⟨rfl, rfl, rfl⟩ := outcome
      simp [Client.work, ClientPc.rank]
  | storeNput offset nput =>
      by_cases wraps : nmsg ≤ nput + 1 <;>
        simp only [client, wraps, if_true, if_false, Option.some.injEq,
          Prod.mk.injEq] at taken <;>
        obtain ⟨rfl, rfl, rfl⟩ := taken <;>
        simp [Client.work, ClientPc.rank]
  | postNstroed =>
      simp only [client, Option.some.injEq, Prod.mk.injEq] at taken
      obtain ⟨rfl, rfl, rfl⟩ := taken
      simp only [Client.work, ClientPc.rank, semPost]
      omega
  | returned =>
      simp [client] at taken
  | _ =>
      simp only [client, Option.some.injEq, Prod.mk.injEq] at taken
      obtain ⟨rfl, rfl, rfl⟩ := taken
      simp [Client.work, ClientPc.rank]

/-- Every step of the server uses up a token or some of its loop body. -/
theorem server_work
    {before after : Shared nclients}
    {process next : Server}
    (taken : server before process = some (after, next, events)) :
    next.pc.rank + 11 * after.nstroed <
      process.pc.rank + 11 * before.nstroed := by
  obtain ⟨pc, index, offset, lastnoverflow, temp⟩ := process
  cases pc with
  | waitNstroed =>
      obtain ⟨tokens, available, outcome⟩ := Option.map_eq_some_iff.mp taken
      have enough := semWait_eq_some.mp available
      simp only [Prod.mk.injEq] at outcome
      obtain ⟨rfl, rfl, rfl⟩ := outcome
      simp only [ServerPc.rank]
      omega
  | waitMutex | waitOverflow | loadOffset =>
      obtain ⟨value, -, outcome⟩ := Option.map_eq_some_iff.mp taken
      simp only [Prod.mk.injEq] at outcome
      obtain ⟨rfl, rfl, rfl⟩ := outcome
      simp [ServerPc.rank]
  | testOverflow =>
      by_cases same : temp = lastnoverflow <;>
        simp [server, same] at taken <;>
        obtain ⟨rfl, rfl, rfl⟩ := taken <;>
        simp [ServerPc.rank]
  | _ =>
      simp only [server, Option.some.injEq, Prod.mk.injEq] at taken
      obtain ⟨rfl, rfl, rfl⟩ := taken
      simp [ServerPc.rank]

/-- Every step decreases the work that remains. -/
theorem step_work
    {nloop : Fin nclients → Int}
    {next : State nclients}
    {action : Action nclients}
    (taken : (system nloop).step? state action = some (next, events)) :
    next.work nloop < state.work nloop := by
  rcases system_step_cases taken with
    ⟨sender, after, process, -, stepped, rfl⟩ |
    ⟨after, process, -, stepped, rfl⟩
  · have less := client_work stepped
    have changed :=
      clientsWork_update nloop state.clients sender process
    simp only [State.work]
    omega
  · have less := server_work stepped
    simp only [State.work]
    omega

end Work

section Quiet

/-- A client that cannot step waits for a mutex, or has returned. -/
theorem client_eq_none
    {nloop : Int}
    {sender : Fin nclients}
    {shared : Shared nclients}
    {process : Client}
    (ok : process.Ok shared)
    (blocked : client nloop sender shared process = none) :
    process.pc = .returned ∨
      (process.pc = .waitMutex ∧ shared.mutex = 0) ∨
      (process.pc = .waitOverflow ∧ shared.noverflowmutex = 0) := by
  obtain ⟨pc, index⟩ := process
  cases pc with
  | testLoop =>
      by_cases more : index < nloop <;> simp [client, more] at blocked
  | tryWait =>
      cases available : semWait shared.nempty <;>
        simp [client, available] at blocked
  | waitOverflow | waitMutex =>
      simpa [client, semWait_eq_none] using blocked
  | loadOffset slot =>
      obtain ⟨rfl, less⟩ := ok
      simp [client, Shared.offsetAt, less] at blocked
  | storeNput offset nput =>
      by_cases wraps : nmsg ≤ nput + 1 <;>
        simp [client, wraps] at blocked
  | returned =>
      exact .inl rfl
  | _ =>
      simp [client] at blocked

/-- A server that cannot step waits for a token or a mutex. -/
theorem server_eq_none
    {printed : Nat}
    {shared : Shared nclients}
    {process : Server}
    (ok : process.Ok printed)
    (blocked : server shared process = none) :
    (process.pc = .waitNstroed ∧ shared.nstroed = 0) ∨
      (process.pc = .waitMutex ∧ shared.mutex = 0) ∨
      (process.pc = .waitOverflow ∧ shared.noverflowmutex = 0) := by
  obtain ⟨pc, index, offset, lastnoverflow, temp⟩ := process
  cases pc with
  | waitNstroed | waitMutex | waitOverflow =>
      simpa [server, semWait_eq_none] using blocked
  | loadOffset =>
      have isIndex : index = printed % nmsg := ok
      have inBounds : index < nmsg :=
        isIndex ▸ Nat.mod_lt printed (by decide)
      simp [server, Shared.offsetAt, inBounds] at blocked
  | testOverflow =>
      by_cases same : temp = lastnoverflow <;>
        simp [server, same] at blocked
  | _ =>
      simp [server] at blocked

/-- All clients have returned, and the server waits for a message. -/
structure Quiet (state : State nclients) : Prop where
  clients :
    ∀ process, (state.clients process).pc = .returned
  server :
    state.server.pc = .waitNstroed
  nstroed :
    state.shared.nstroed = 0

/-- With no step left, the clients have returned and the server waits. -/
theorem Counts.quiet
    {nloop : Fin nclients → Int}
    (counts : Counts trace state)
    (stuck : ∀ action,
      ((system nloop).guarded Announced).step? state action = none) :
    Quiet state := by
  have clientsBlocked :
      ∀ process,
        client (nloop process) process state.shared
          (state.clients process) = none := by
    intro process
    have blocked := stuck (.client process)
    simpa [System.guarded, Announced, system] using blocked
  have clientsWait :=
    fun process =>
      client_eq_none (counts.locals process) (clientsBlocked process)
  have noOwner : ∀ process, (state.clients process).owns? = none := by
    intro process
    rcases clientsWait process with pc | ⟨pc, -⟩ | ⟨pc, -⟩ <;>
      simp [Client.owns?, pc]
  have announced : Announced state .server := by
    intro _ _ process offset owns
    simp [noOwner process] at owns
  have serverBlocked : server state.shared state.server = none := by
    have blocked := stuck .server
    simpa [System.guarded, announced, system] using blocked
  have serverWaits := server_eq_none counts.serverOk serverBlocked
  have noClient : total Client.crit state.clients = 0 := by
    refine total_eq_zero_iff.mpr fun process => ?_
    rcases clientsWait process with pc | ⟨pc, -⟩ | ⟨pc, -⟩ <;>
      simp [Client.crit, pc]
  have noCounting : total Client.counting state.clients = 0 := by
    refine total_eq_zero_iff.mpr fun process => ?_
    rcases clientsWait process with pc | ⟨pc, -⟩ | ⟨pc, -⟩ <;>
      simp [Client.counting, pc]
  have noServer :
      state.server.crit = 0 ∧ state.server.counting = 0 := by
    rcases serverWaits with ⟨pc, -⟩ | ⟨pc, -⟩ | ⟨pc, -⟩ <;>
      simp [Server.crit, Server.counting, pc]
  have mutexFree : state.shared.mutex ≠ 0 := by
    have mutex := counts.mutex
    omega
  have noverflowmutexFree : state.shared.noverflowmutex ≠ 0 := by
    have noverflowmutex := counts.noverflowmutex
    omega
  have serverQuiet :
      state.server.pc = .waitNstroed ∧ state.shared.nstroed = 0 := by
    rcases serverWaits with waits | ⟨-, taken⟩ | ⟨-, taken⟩
    · exact waits
    · exact absurd taken mutexFree
    · exact absurd taken noverflowmutexFree
  refine ⟨fun process => ?_, serverQuiet.1, serverQuiet.2⟩
  rcases clientsWait process with pc | ⟨-, taken⟩ | ⟨-, taken⟩
  · exact pc
  · exact absurd taken mutexFree
  · exact absurd taken noverflowmutexFree

/-- In a quiet state every reservation has been printed. -/
theorem Counts.printed_of_quiet
    (counts : Counts trace state)
    (quiet : Quiet state) :
    (printsIn trace).length = (reservedIn trace).length := by
  have nstroed := counts.nstroed
  have noToken : state.server.token = 0 := by
    simp [Server.token, quiet.server]
  have noUnposted : total Client.unposted state.clients = 0 :=
    total_eq_zero_iff.mpr fun process => by
      simp [Client.unposted, quiet.clients process]
  rw [quiet.nstroed, noToken, noUnposted] at nstroed
  simpa using nstroed

/-- In a quiet state every accepted message has been reserved. -/
theorem Journal.reserved_of_quiet
    (journal : Journal trace state)
    (quiet : Quiet state)
    {message : Message nclients}
    (accepted : message ∈ acceptedIn trace) :
    message ∈ reservedIn trace := by
  rcases (journal.accepted message).mp accepted with
    reserved | ⟨held, -⟩
  · exact reserved
  · simp [Client.held, quiet.clients message.1] at held

end Quiet

end CsPrimer.PxShm
