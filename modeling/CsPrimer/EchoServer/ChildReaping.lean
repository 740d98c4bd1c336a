import CsPrimer.Library.TransitionSystem
import Mathlib.Data.List.Count

namespace CsPrimer.EchoServer.MultiProcess

open Library

/-!
# `echo_mpserver.c`: a child for each client, and its zombie

A child is forked for every connection and exits when its client has left,
whenever that is.  An exit makes SIGCHLD pending in the parent; it is pending
once, however many children exit before it is delivered.  The handler
interrupts the parent anywhere, but not itself, and `accept` and `fork` may
fail.  `waitpid` reaps any child that has exited.
-/

/-- A child of the server. -/
inductive Child where
  | running
  | exited
  | reaped
  deriving Repr, DecidableEq

/-- Where the loop of `main` is. -/
inductive Position where
  | accepting
  | forking
  | closing
  deriving Repr, DecidableEq

/-- Where `read_childproc` is, with the result of `waitpid`. -/
inductive HandlerPhase where
  | idle
  | waiting
  | reporting (pid : Option Nat)
  deriving Repr, DecidableEq

/-- The parent and its children, which are numbered as they are forked. -/
structure State where
  position : Position
  handler : HandlerPhase
  /-- SIGCHLD is pending. -/
  pending : Bool
  children : List Child
  deriving Repr, DecidableEq

/--
A step of `main`, of a child, of the kernel, or of the handler.  A `waitpid`
without a child to reap returns 0 or -1, which is `none` here.
-/
inductive Action where
  | accept (succeeds : Bool)
  | fork (succeeds : Bool)
  | close
  | exit (pid : Nat)
  | deliver
  | waitpid (pid : Option Nat)
  | report
  deriving Repr, DecidableEq

/-- A line that the parent prints. -/
inductive Event where
  | connected
  | removed (pid : Option Nat)
  deriving Repr, DecidableEq

/-- One step of the loop of `main`, which the handler interrupts. -/
def mainStep (state : State) (action : Action) : Option (State × List Event) :=
  match state.handler, state.position, action with
  | .idle, .accepting, .accept true =>
      some ({ state with position := .forking }, [.connected])
  | .idle, .accepting, .accept false =>
      some (state, [])
  | .idle, .forking, .fork true =>
      some ({ state with
        position := .closing
        children := state.children ++ [.running] }, [])
  | .idle, .forking, .fork false =>
      some ({ state with position := .accepting }, [])
  | .idle, .closing, .close =>
      some ({ state with position := .accepting }, [])
  | _, _, _ =>
      none

/-- One step of `read_childproc`. -/
def readChildproc
    (state : State)
    (action : Action) : Option (State × List Event) :=
  match state.handler, action with
  | .waiting, .waitpid (some pid) =>
      if state.children[pid]? = some .exited then
        some ({ state with
          handler := .reporting (some pid)
          children := state.children.set pid .reaped }, [])
      else
        none
  | .waiting, .waitpid none =>
      if .exited ∈ state.children then
        none
      else
        some ({ state with handler := .reporting none }, [])
  | .reporting pid, .report =>
      some ({ state with handler := .idle }, [.removed pid])
  | _, _ =>
      none

/--
One step of `sig_chld` of `msgservernq.c`, which calls `waitpid` until there is
nothing to reap.
-/
def sigChld
    (state : State)
    (action : Action) : Option (State × List Event) :=
  match state.handler, action with
  | .waiting, .waitpid (some pid) =>
      if state.children[pid]? = some .exited then
        some ({ state with children := state.children.set pid .reaped }, [])
      else
        none
  | .waiting, .waitpid none =>
      if .exited ∈ state.children then
        none
      else
        some ({ state with handler := .idle }, [])
  | _, _ =>
      none

/-- The server with one of the handlers, its children and the kernel. -/
def server
    (handlerStep : State → Action → Option (State × List Event)) :
    System State Action Event where
  initial :=
    { position := .accepting
      handler := .idle
      pending := false
      children := [] }
  step? state action :=
    match action with
    | .accept _ | .fork _ | .close =>
        mainStep state action
    | .waitpid _ | .report =>
        handlerStep state action
    | .exit pid =>
        if state.children[pid]? = some .running then
          some ({ state with
            pending := true
            children := state.children.set pid .exited }, [])
        else
          none
    | .deliver =>
        if state.pending ∧ state.handler = .idle then
          some ({ state with pending := false, handler := .waiting }, [])
        else
          none

/-- `echo_mpserver`. -/
abbrev system : System State Action Event :=
  server readChildproc

/-- No SIGCHLD is pending, and `read_childproc` is not running. -/
def Quiet (state : State) : Prop :=
  state.pending = false ∧ state.handler = .idle

/-- Every child that has exited has been reaped. -/
def AllReaped (state : State) : Prop :=
  .exited ∉ state.children

/-- No child exits while a SIGCHLD is pending. -/
def ExitsAlone (state : State) : Action → Prop
  | .exit _ => state.pending = false
  | _ => True

instance (state : State) : DecidablePred (ExitsAlone state)
  | .exit _ => inferInstanceAs (Decidable (_ = _))
  | .accept _ | .fork _ | .close | .deliver | .waitpid _ | .report =>
      isTrue trivial

/-- The children that have exited and are not reaped. -/
def zombies (state : State) : Nat :=
  state.children.count .exited

/-- The calls of `waitpid` that are still to come. -/
def calls (state : State) : Nat :=
  state.pending.toNat + if state.handler = .waiting then 1 else 0

variable
  {state next : State}
  {action : Action}
  {events trace : List Event}
  {handlerStep : State → Action → Option (State × List Event)}

/-- What `main` does neither makes a zombie nor removes one. -/
theorem same_of_mainStep
    (taken : mainStep state action = some (next, events)) :
    zombies next = zombies state ∧ calls next = calls state := by
  unfold mainStep at taken
  split at taken
  · cases taken
    exact ⟨rfl, rfl⟩
  · cases taken
    exact ⟨rfl, rfl⟩
  · cases taken
    refine ⟨?_, rfl⟩
    rw [zombies, List.count_append]
    rfl
  · cases taken
    exact ⟨rfl, rfl⟩
  · cases taken
    exact ⟨rfl, rfl⟩
  · cases taken

/-- A child that changes is a zombie afterwards, or was one before. -/
theorem zombies_set
    {pid : Nat}
    {child : Child}
    (later : Child)
    (present : state.children[pid]? = some child) :
    (state.children.set pid later).count .exited +
        (if child = .exited then 1 else 0) =
      zombies state + if later = .exited then 1 else 0 := by
  obtain ⟨inBounds, isChild⟩ := List.getElem?_eq_some_iff.mp present
  have positive : child = .exited → 0 < zombies state := by
    rintro rfl
    exact List.count_pos_iff.mpr (List.mem_of_getElem? present)
  rw [List.count_set inBounds, isChild, ← zombies]
  simp only [beq_iff_eq]
  by_cases wasZombie : child = .exited
  · have isPositive := positive wasZombie
    simp only [wasZombie, if_true]
    omega
  · rw [if_neg wasZombie, Nat.sub_zero, Nat.add_zero]

/-- A child that exits is a zombie, and a call comes with a new signal. -/
theorem exit_zombies
    {pid : Nat}
    (taken :
      (server handlerStep).step? state (.exit pid) = some (next, events)) :
    zombies next = zombies state + 1 ∧
      calls next + state.pending.toNat = calls state + 1 := by
  simp only [server, Option.ite_none_right_eq_some, Option.some.injEq,
    Prod.mk.injEq] at taken
  obtain ⟨isRunning, rfl, -⟩ := taken
  have isZombie := zombies_set .exited isRunning
  rw [if_neg (by decide), if_pos rfl, Nat.add_zero] at isZombie
  refine ⟨isZombie, ?_⟩
  simp only [calls, Bool.toNat_true]
  omega

/-- A signal that is delivered is a call of the handler. -/
theorem deliver_same
    (taken :
      (server handlerStep).step? state .deliver = some (next, events)) :
    zombies next = zombies state ∧ calls next = calls state := by
  simp only [server, Option.ite_none_right_eq_some, Option.some.injEq,
    Prod.mk.injEq] at taken
  obtain ⟨⟨isPending, isIdle⟩, rfl, -⟩ := taken
  exact ⟨rfl, by simp [calls, isPending, isIdle]⟩

/-- The handler reaps a zombie with each of its calls. -/
theorem readChildproc_zombies
    (enough : calls state ≤ zombies state)
    (taken : readChildproc state action = some (next, events)) :
    zombies next + calls state = zombies state + calls next := by
  unfold readChildproc at taken
  split at taken
  · next pid isWaiting =>
    simp only [Option.ite_none_right_eq_some, Option.some.injEq,
      Prod.mk.injEq] at taken
    obtain ⟨isZombie, rfl, -⟩ := taken
    have isReaped := zombies_set .reaped isZombie
    rw [if_pos rfl, if_neg (by decide), Nat.add_zero] at isReaped
    simp only [zombies, calls, isWaiting, if_true, reduceCtorEq,
      if_false] at isReaped ⊢
    omega
  · next isWaiting =>
    simp only [Option.ite_none_left_eq_some, Option.some.injEq,
      Prod.mk.injEq] at taken
    obtain ⟨noZombie, rfl, -⟩ := taken
    have isCalled : 0 < calls state := by
      simp [calls, isWaiting]
    have isZero : zombies state = 0 := List.count_eq_zero.mpr noZombie
    omega
  · next pid isReporting =>
    cases taken
    simp [zombies, calls, isReporting]
  · cases taken

/--
Zombies and calls grow and shrink together, but for an exit that is merged into
a pending signal.
-/
theorem zombies_step
    (enough : calls state ≤ zombies state)
    (taken : system.step? state action = some (next, events)) :
    ∃ merged,
      zombies next + calls state = zombies state + calls next + merged ∧
        (merged = 0 ↔ ExitsAlone state action) := by
  cases action with
  | accept succeeds | fork succeeds | close =>
      obtain ⟨sameZombies, sameCalls⟩ := same_of_mainStep taken
      exact ⟨0, by rw [sameZombies, sameCalls, Nat.add_zero],
        iff_of_true rfl trivial⟩
  | exit pid =>
      obtain ⟨isZombie, isCall⟩ := exit_zombies taken
      exact ⟨state.pending.toNat, by omega, by simp [ExitsAlone]⟩
  | deliver =>
      obtain ⟨sameZombies, sameCalls⟩ := deliver_same taken
      exact ⟨0, by rw [sameZombies, sameCalls, Nat.add_zero],
        iff_of_true rfl trivial⟩
  | waitpid pid | report =>
      exact ⟨0, readChildproc_zombies enough taken, iff_of_true rfl trivial⟩

/-- There is a zombie for each call, and as many as calls if none is merged. -/
theorem calls_le_zombies_of_reaches
    (reaches : system.Reaches trace state) :
    calls state ≤ zombies state := by
  induction reaches with
  | initial =>
      exact Nat.le_refl 0
  | step earlier taken inductionHypothesis =>
      obtain ⟨merged, balance, -⟩ := zombies_step inductionHypothesis taken
      omega

theorem zombies_eq_calls_of_guarded
    (reaches : (system.guarded ExitsAlone).Reaches trace state) :
    zombies state = calls state := by
  induction reaches with
  | initial =>
      rfl
  | step earlier taken inductionHypothesis =>
      obtain ⟨alone, moved⟩ := System.guarded_step?_eq_some.mp taken
      obtain ⟨merged, balance, isAlone⟩ :=
        zombies_step (Nat.le_of_eq inductionHypothesis.symm) moved
      have notMerged := isAlone.mpr alone
      omega

/-- A zombie without a call is never reaped. -/
theorem leftOver_of_run?
    {actions : List Action}
    (leftOver : calls state < zombies state)
    (ran : system.run? state actions = some (next, trace)) :
    calls next < zombies next := by
  induction actions generalizing state trace with
  | nil =>
      cases ran
      exact leftOver
  | cons action rest inductionHypothesis =>
      obtain ⟨middle, events, later, taken, restRan, -⟩ :=
        System.run?_cons_eq_some.mp ran
      obtain ⟨merged, balance, -⟩ :=
        zombies_step (Nat.le_of_lt leftOver) taken
      exact inductionHypothesis (by omega) restRan

/-- In a quiet state every zombie is one too many. -/
theorem allReaped_iff_of_quiet
    (quiet : Quiet state) :
    AllReaped state ↔ zombies state = calls state := by
  obtain ⟨notPending, isIdle⟩ := quiet
  rw [AllReaped, ← List.count_eq_zero]
  simp [zombies, calls, notPending, isIdle]

/--
For any number of children, any order of their exits and any delivery of the
signals: in a quiet state every child that has exited has been reaped exactly
if so far no child has exited while a SIGCHLD was pending.
-/
theorem allReaped_iff
    (actions : List Action)
    (trace : List Event)
    (state : State)
    (ran : system.run? system.initial actions = some (state, trace))
    (quiet : Quiet state) :
    AllReaped state ↔
      ((system.guarded ExitsAlone).run? system.initial actions).isSome := by
  rw [allReaped_iff_of_quiet quiet]
  constructor
  · intro balanced
    rcases System.guarded_run?_cases ExitsAlone ran with
      all | ⟨before, violating, after, middle, events, later, -, upTo,
        violates, goesOn, -⟩
    · rw [all]
      rfl
    · obtain ⟨next, first, behind, taken, finished, -⟩ :=
        System.run?_cons_eq_some.mp goesOn
      have enough := zombies_eq_calls_of_guarded (.of_run? upTo)
      obtain ⟨merged, balance, isAlone⟩ :=
        zombies_step (Nat.le_of_eq enough.symm) taken
      have isMerged : 0 < merged :=
        Nat.pos_of_ne_zero (mt isAlone.mp violates)
      have leftOver : calls state < zombies state :=
        leftOver_of_run? (by omega) finished
      omega
  · intro guardedRan
    obtain ⟨⟨final, events⟩, all⟩ := Option.isSome_iff_exists.mp guardedRan
    have same := System.run?_of_guarded all
    rw [ran, Option.some.injEq, Prod.mk.injEq] at same
    obtain ⟨rfl, rfl⟩ := same
    exact zombies_eq_calls_of_guarded (.of_run? all)

/-- Two children, of which one exits while the handler runs for the other. -/
def oneAtATime : List Action :=
  [.accept true, .fork true, .close, .accept true, .fork true, .close,
    .exit 1, .deliver, .exit 0, .waitpid (some 0), .report, .deliver,
    .waitpid (some 1), .report, .accept false]

/-- An exit during the handler is not lost. -/
theorem allReaped_iff_oneAtATime :
    ∃ trace state,
      system.run? system.initial oneAtATime = some (state, trace) ∧
        Quiet state ∧ AllReaped state := by
  obtain ⟨⟨state, trace⟩, ran, observed⟩ :=
    (Option.any_eq_true _ _).mp
      (by decide +kernel :
        (system.run? system.initial oneAtATime).any
          (fun outcome => decide (
            outcome.1.pending = false ∧ outcome.1.handler = .idle)) = true)
  have quiet : state.pending = false ∧ state.handler = .idle :=
    of_decide_eq_true observed
  exact ⟨trace, state, ran, quiet,
    (allReaped_iff oneAtATime trace state ran quiet).mpr (by decide +kernel)⟩

/-- Two children that exit before the first signal is delivered. -/
def bothExit : List Action :=
  [.accept true, .fork true, .close, .accept true, .fork true, .close,
    .exit 0, .exit 1, .deliver, .waitpid (some 0), .report]

/-- The second child stays a zombie. -/
theorem not_allReaped_bothExit :
    ¬ ∀ trace state, system.Reaches trace state →
      Quiet state → AllReaped state := by
  intro always
  obtain ⟨trace, state, reaches, observed⟩ :=
    System.Reaches.exists_of_run?
      (by decide +kernel :
        (system.run? system.initial bothExit).any
          (fun outcome => decide (
            (outcome.1.pending = false ∧ outcome.1.handler = .idle) ∧
              .exited ∈ outcome.1.children)) = true)
  have isZombie := of_decide_eq_true observed
  exact always trace state reaches isZombie.1 isZombie.2

/-- As long as there is a zombie, a call of `waitpid` is still to come. -/
def Announced (state : State) : Prop :=
  0 < zombies state → 0 < calls state

/-- The loop of `sig_chld` only ends when there is no zombie left. -/
theorem announced_of_sigChld
    (taken : sigChld state action = some (next, events)) :
    Announced next := by
  unfold sigChld at taken
  split at taken
  · next pid isWaiting =>
    simp only [Option.ite_none_right_eq_some, Option.some.injEq,
      Prod.mk.injEq] at taken
    obtain ⟨-, rfl, -⟩ := taken
    simp [Announced, calls, isWaiting]
  · simp only [Option.ite_none_left_eq_some, Option.some.injEq,
      Prod.mk.injEq] at taken
    obtain ⟨noZombie, rfl, -⟩ := taken
    intro isZombie
    exact absurd (List.count_pos_iff.mp isZombie) noZombie
  · cases taken

theorem Announced.step
    (announced : Announced state)
    (taken : (server sigChld).step? state action = some (next, events)) :
    Announced next := by
  cases action with
  | accept succeeds | fork succeeds | close =>
      obtain ⟨sameZombies, sameCalls⟩ := same_of_mainStep taken
      rwa [Announced, sameZombies, sameCalls]
  | exit pid =>
      obtain ⟨-, isCall⟩ := exit_zombies taken
      have isPending : state.pending.toNat ≤ calls state :=
        Nat.le_add_right _ _
      intro isZombie
      omega
  | deliver =>
      obtain ⟨sameZombies, sameCalls⟩ := deliver_same taken
      rwa [Announced, sameZombies, sameCalls]
  | waitpid pid | report =>
      exact announced_of_sigChld taken

theorem announced_of_reaches
    (reaches : (server sigChld).Reaches trace state) :
    Announced state := by
  induction reaches with
  | initial =>
      exact id
  | step earlier taken inductionHypothesis =>
      exact inductionHypothesis.step taken

/-- The loop of `sig_chld` would leave no zombie behind. -/
theorem allReaped_of_sigChld
    (reaches : (server sigChld).Reaches trace state)
    (quiet : Quiet state) :
    AllReaped state := by
  have announced := announced_of_reaches reaches
  obtain ⟨notPending, isIdle⟩ := quiet
  have noCalls : calls state = 0 := by
    simp [calls, notPending, isIdle]
  intro zombie
  have isCalled := announced (List.count_pos_iff.mpr zombie)
  omega

end CsPrimer.EchoServer.MultiProcess
