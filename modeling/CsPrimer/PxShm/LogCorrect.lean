import CsPrimer.PxShm.LogOvertaken

namespace CsPrimer.PxShm

open Library

/-!
# Which runs of the message log are faithful

The log is faithful when the server takes no token of `nstroed` before the
copy to the slot it prints next has ended.  Two clients suffice for a run in
which it does: the one that reserved the second slot completes its copy first,
and its token lets the server print the first slot.
-/

variable
  {nclients : Nat}
  {trace : List (Event nclients)}
  {state : State nclients}

/-- The offset a client is copying its message to. -/
def Client.copying? (process : Client) : Option Nat :=
  match process.pc with
  | .copyFirst offset | .copyRest offset => some offset
  | _ => none

/-- Who is copying to an offset owns it. -/
theorem Client.owns?_of_copying?
    {process : Client}
    {offset : Nat}
    (copying : process.copying? = some offset) :
    process.owns? = some offset := by
  obtain ⟨pc, index⟩ := process
  cases pc with
  | copyFirst | copyRest =>
      exact copying
  | _ =>
      simp [copying?] at copying

/--
A faithful log: what the server prints has been copied completely since the
slot was last released, every accepted message is printed exactly once, and no
two clients copy to the same slot at the same time.
-/
structure Faithful
    (log : System (State nclients) (Action nclients) (Event nclients))
    (trace : List (Event nclients))
    (state : State nclients) : Prop where
  fresh :
    AtEvery PrintsFresh trace
  acceptedOnce :
    (acceptedIn trace).Nodup
  onlyAccepted :
    ∀ text ∈ printsIn trace,
      ∃ message ∈ acceptedIn trace, text = Text.whole message
  atMostOnce :
    ∀ message, (printsIn trace).count (Text.whole message) ≤ 1
  ends :
    ∃ bound, ∀ actions outcome,
      log.run? state actions = some outcome → actions.length ≤ bound
  exactlyOnce :
    (∀ action, log.step? state action = none) →
      ∀ message ∈ acceptedIn trace,
        (printsIn trace).count (Text.whole message) = 1
  apart :
    ∀ first second offset, first ≠ second →
      (state.clients first).copying? = some offset →
      (state.clients second).copying? ≠ some offset

theorem Text.whole_injective :
    Function.Injective
      (Text.whole : Message nclients → Text nclients) := by
  intro first second same
  simpa [Text.whole] using same

/-- No message is printed twice. -/
theorem Slots.prints_nodup
    (slots : Slots trace state)
    (journal : Journal trace state) :
    (printsIn trace).Nodup := by
  rw [slots.prints]
  exact (journal.reservedOnce.sublist (List.take_sublist _ _)).map
    Text.whole_injective

/-- With no step left, all accepted messages have been printed. -/
theorem Slots.printed_of_quiet
    (slots : Slots trace state)
    (counts : Counts trace state)
    (journal : Journal trace state)
    (quiet : Quiet state)
    {message : Message nclients}
    (accepted : message ∈ acceptedIn trace) :
    Text.whole message ∈ printsIn trace := by
  rw [slots.prints, counts.printed_of_quiet quiet, List.take_length]
  exact List.mem_map_of_mem
    (journal.reserved_of_quiet quiet accepted)

/-- Every run without an early token is faithful. -/
theorem faithful_of_reaches
    {nloop : Fin nclients → Int}
    (reaches :
      ((system nloop).guarded Announced).Reaches trace state) :
    Faithful ((system nloop).guarded Announced) trace state := by
  have counts := Counts.of_reaches reaches.of_guarded
  have journal := Journal.of_reaches reaches.of_guarded
  have slots := Slots.of_reaches reaches
  have nodup := slots.prints_nodup journal
  constructor
  case fresh =>
    exact slots.fresh
  case acceptedOnce =>
    exact journal.acceptedOnce
  case onlyAccepted =>
    intro text printed
    rw [slots.prints] at printed
    obtain ⟨message, taken, rfl⟩ := List.mem_map.mp printed
    refine ⟨message, (journal.accepted message).mpr (.inl ?_), rfl⟩
    exact List.mem_of_mem_take taken
  case atMostOnce =>
    exact fun message =>
      List.nodup_iff_count_le_one.mp nodup (Text.whole message)
  case ends =>
    refine ⟨state.work nloop, fun actions outcome executed => ?_⟩
    have bound :=
      System.length_le_of_run? (State.work nloop)
        (fun taken => step_work (System.guarded_step?_eq_some.mp taken).2)
        executed
    exact Nat.le_of_add_right_le bound
  case exactlyOnce =>
    intro stuck message accepted
    have printed :=
      slots.printed_of_quiet counts journal (counts.quiet stuck) accepted
    exact List.count_eq_one_of_mem nodup printed
  case apart =>
    intro first second offset different copiesFirst copiesSecond
    have ownsFirst :
        state.Owned (first, (state.clients first).index) offset :=
      ⟨Client.owns?_of_copying? copiesFirst, rfl⟩
    have ownsSecond :
        state.Owned (second, (state.clients second).index) offset :=
      ⟨Client.owns?_of_copying? copiesSecond, rfl⟩
    have sameMessage := slots.apart counts ownsFirst ownsSecond
    exact different (congrArg Prod.fst sameMessage)

/-- A run in which the server takes a token early need not stay faithful. -/
theorem exists_unfaithful
    {nloop : Fin nclients → Int}
    {next : State nclients}
    {action : Action nclients}
    {events : List (Event nclients)}
    (reaches :
      ((system nloop).guarded Announced).Reaches trace state)
    (early : ¬ Announced state action)
    (taken : (system nloop).step? state action = some (next, events)) :
    ∃ later final,
      (system nloop).Reaches (trace ++ events ++ later) final ∧
        ¬ Faithful (system nloop) (trace ++ events ++ later) final := by
  have counts := Counts.of_reaches reaches.of_guarded
  simp only [Announced, not_forall] at early
  obtain ⟨rfl, waits, process, offset, owns, isNext⟩ := early
  have isIndex : state.server.index = (printsIn trace).length % nmsg := by
    simpa only [Server.Ok, waits] using counts.serverOk
  have isPlace : offset = place (printsIn trace).length := by
    simpa [counts.offsetAt_index isIndex, eq_comm] using isNext
  have owned :
      state.Owned (process, (state.clients process).index)
        (place (printsIn trace).length) :=
    ⟨isPlace ▸ owns, rfl⟩
  have noDebt : state.server.debt = 0 := by
    simp [Server.debt, waits]
  have incomplete :=
    (CopiesAhead.of_reaches reaches).not_fresh counts
      (Slots.of_reaches reaches) noDebt owned
  have reached := reaches.of_guarded.step taken
  simp only [system, server, waits, Option.map_map] at taken
  obtain ⟨tokens, -, outcome⟩ := Option.map_eq_some_iff.mp taken
  simp only [Function.comp_apply, Prod.mk.injEq] at outcome
  obtain ⟨rfl, rfl⟩ := outcome
  obtain ⟨later, final, printed, notFresh⟩ :=
    exists_early_print reached rfl (by simpa using incomplete)
  exact ⟨later, final, printed, fun faithful => notFresh faithful.fresh⟩

/--
`client2` and `server2`, for every number of clients, all loop counts and
every interleaving: the log is faithful in every run in which the server only
passes `sem_wait(&ptr->nstroed)` when no client has yet to complete its copy
to the slot the server prints next.  The first time the server passes it
otherwise, the run can go on to a print of an incomplete slot.
-/
theorem messageLog_faithful
    (nloop : Fin nclients → Int)
    (reaches :
      ((system nloop).guarded Announced).Reaches trace state) :
    Faithful ((system nloop).guarded Announced) trace state ∧
      ∀ action next events,
        (system nloop).step? state action = some (next, events) →
        ¬ Announced state action →
        ∃ later final,
          (system nloop).Reaches (trace ++ events ++ later) final ∧
            ¬ Faithful (system nloop) (trace ++ events ++ later) final :=
  ⟨faithful_of_reaches reaches, fun _ _ _ taken early =>
    exists_unfaithful reaches early taken⟩

/-- Two clients log one message each, and the server prints both. -/
theorem messageLog_faithful_twoClients :
    ∃ trace state,
      ((system (fun _ : Fin 2 => 1)).guarded Announced).Reaches
        trace state ∧
      Faithful ((system (fun _ : Fin 2 => 1)).guarded Announced)
        trace state ∧
      printsIn trace = [Text.whole (1, 0), Text.whole (0, 0)] := by
  obtain ⟨trace, state, reaches, printed⟩ :=
    System.Reaches.exists_of_run?
      (by decide +kernel :
        (((system (fun _ : Fin 2 => 1)).guarded Announced).run?
          ((system (fun _ : Fin 2 => 1)).guarded Announced).initial
          (List.replicate 8 (.client 1) ++
            List.replicate 8 (.client 0) ++
            List.replicate 3 (.client 1) ++
            List.replicate 11 .server ++
            List.replicate 3 (.client 0) ++
            List.replicate 11 .server)).any
          (fun outcome => decide (printsIn outcome.2 =
            [Text.whole (1, 0), Text.whole (0, 0)])) = true)
  exact ⟨trace, state, reaches, (messageLog_faithful _ reaches).1,
    of_decide_eq_true printed⟩

/--
Client 0 reserves the first slot, client 1 the second.  Client 1 completes its
copy and posts `nstroed`, and the server prints the first slot, to which
nothing has been copied.
-/
theorem messageLog_not_faithful :
    ¬ ∀ (nclients : Nat) (nloop : Fin nclients → Int)
        (trace : List (Event nclients)) (state : State nclients),
      (system nloop).Reaches trace state →
        Faithful (system nloop) trace state := by
  intro always
  obtain ⟨trace, state, reaches, printed⟩ :=
    System.Reaches.exists_of_run?
      (by decide +kernel :
        ((system (fun _ : Fin 2 => 1)).run?
          (system (fun _ : Fin 2 => 1)).initial
          (List.replicate 8 (.client 0) ++
            List.replicate 11 (.client 1) ++
            List.replicate 4 .server)).any
          (fun outcome => decide (outcome.2.getLast? =
            some (.printed 0 { first := none, rest := none }))) = true)
  obtain ⟨before, rfl⟩ :=
    List.getLast?_eq_some_iff.mp (of_decide_eq_true printed)
  have faithful := always 2 (fun _ => 1) _ state reaches
  obtain ⟨message, isWhole, -⟩ :=
    faithful.fresh before _ [] rfl 0 { first := none, rest := none } rfl
  simp [Text.whole] at isWhole

end CsPrimer.PxShm
