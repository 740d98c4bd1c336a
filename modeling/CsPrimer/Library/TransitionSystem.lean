import Mathlib.Data.List.Basic
import Mathlib.Logic.Function.Basic

namespace CsPrimer.Library

/-!
# Transition systems with observable traces

A system has one initial state and a partial step function: an action is
either disabled in a state, or it determines the next state and the events the
environment can observe.  Nondeterminism is the choice of the action.  Runs
are finite, and the trace of a run is the concatenation of the events of its
steps.
-/

section Trace

variable {Event : Type}

/-- Every event of a trace is related to the events before it. -/
def AtEvery
    (property : List Event → Event → Prop)
    (trace : List Event) : Prop :=
  ∀ before event after, trace = before ++ event :: after →
    property before event

namespace AtEvery

variable
  {property : List Event → Event → Prop}
  {trace : List Event}

theorem nil :
    AtEvery property [] := by
  intro before event after split
  simp at split

/-- Events that follow a trace are related to it as well. -/
theorem append
    {events : List Event}
    (all : AtEvery property trace)
    (later :
      AtEvery (fun before event => property (trace ++ before) event)
        events) :
    AtEvery property (trace ++ events) := by
  intro before event after split
  rcases List.append_eq_append_iff.mp split with
    ⟨front, rfl, isEvents⟩ | ⟨front, isTrace, isRest⟩
  · exact later front event after isEvents
  · cases front with
    | nil =>
        have isBefore : before = trace ++ [] := by simpa using isTrace.symm
        exact isBefore ▸ later [] event after isRest.symm
    | cons other rest =>
        obtain ⟨rfl, -⟩ : event = other ∧ after = rest ++ events := by
          simpa using isRest
        exact all before event rest isTrace

/-- A trace is extended by one event at a time. -/
theorem snoc
    {event : Event}
    (all : AtEvery property trace)
    (last : property trace event) :
    AtEvery property (trace ++ [event]) := by
  refine all.append ?_
  rintro before other after split
  obtain ⟨rfl, same⟩ | ⟨front, -, absurdly⟩ :=
    List.cons_eq_append_iff.mp split
  · obtain ⟨rfl, -⟩ : other = event ∧ after = [] := by simpa using same
    simpa using last
  · simp at absurdly

end AtEvery

end Trace

/-- One initial state and a partial, event-emitting step function. -/
structure System (State Action Event : Type) where
  initial : State
  step? : State → Action → Option (State × List Event)

namespace System

variable {State Action Event : Type}

/-- The states a finite run can end in, with the trace it has emitted. -/
inductive Reaches
    (system : System State Action Event) :
    List Event → State → Prop where
  | initial :
      Reaches system [] system.initial
  | step
      {trace events : List Event}
      {state next : State}
      {action : Action}
      (earlier : Reaches system trace state)
      (taken : system.step? state action = some (next, events)) :
      Reaches system (trace ++ events) next

/-- Execute a list of actions, failing at the first disabled one. -/
def run?
    (system : System State Action Event) :
    State → List Action → Option (State × List Event)
  | state, [] =>
      some (state, [])
  | state, action :: rest =>
      match system.step? state action with
      | none =>
          none
      | some (next, events) =>
          match run? system next rest with
          | none =>
              none
          | some (final, later) =>
              some (final, events ++ later)

/-- An action is enabled when its step is defined. -/
def Enabled
    (system : System State Action Event)
    (state : State)
    (action : Action) : Prop :=
  (system.step? state action).isSome

/-- The same system, with a guard that removes some of its steps. -/
def guarded
    (system : System State Action Event)
    (allowed : State → Action → Prop)
    [∀ state action, Decidable (allowed state action)] :
    System State Action Event where
  initial :=
    system.initial
  step? state action :=
    if allowed state action then
      system.step? state action
    else
      none

/-- A guarded step is an allowed step of the unguarded system. -/
theorem guarded_step?_eq_some
    {system : System State Action Event}
    {allowed : State → Action → Prop}
    [∀ state action, Decidable (allowed state action)]
    {state : State}
    {action : Action}
    {outcome : State × List Event} :
    (system.guarded allowed).step? state action = some outcome ↔
      allowed state action ∧
        system.step? state action = some outcome := by
  by_cases permitted : allowed state action <;>
    simp [guarded, permitted]

/--
As long as all steps are allowed no state is bad, and a step of such a run
leads to a bad state exactly if it is not allowed.
-/
def BadExactlyOutside
    (system : System State Action Event)
    (allowed : State → Action → Prop)
    [∀ state action, Decidable (allowed state action)]
    (bad : State → Prop) : Prop :=
  ∀ trace state, (system.guarded allowed).Reaches trace state →
    ¬ bad state ∧
      ∀ action next events,
        system.step? state action = some (next, events) →
        (bad next ↔ ¬ allowed state action)

/-- An execution takes its first action, and then the others. -/
theorem run?_cons_eq_some
    {system : System State Action Event}
    {state final : State}
    {action : Action}
    {rest : List Action}
    {trace : List Event} :
    system.run? state (action :: rest) = some (final, trace) ↔
      ∃ next events later,
        system.step? state action = some (next, events) ∧
          system.run? next rest = some (final, later) ∧
          trace = events ++ later := by
  rw [run?]
  constructor
  · intro executed
    cases taken : system.step? state action with
    | none =>
        simp [taken] at executed
    | some outcome =>
        obtain ⟨next, events⟩ := outcome
        cases restExecuted : system.run? next rest with
        | none =>
            simp [taken, restExecuted] at executed
        | some restOutcome =>
            obtain ⟨restFinal, later⟩ := restOutcome
            simp only [taken, restExecuted, Option.some.injEq,
              Prod.mk.injEq] at executed
            obtain ⟨rfl, rfl⟩ := executed
            exact ⟨next, events, later, rfl, restExecuted, rfl⟩
  · rintro ⟨next, events, later, taken, restExecuted, rfl⟩
    simp [taken, restExecuted]

/-- A measure that every step decreases bounds the length of all runs. -/
theorem length_le_of_run?
    {system : System State Action Event}
    (measure : State → Nat)
    (decreases :
      ∀ {state next : State} {action : Action} {events : List Event},
        system.step? state action = some (next, events) →
        measure next < measure state)
    {state final : State}
    {actions : List Action}
    {trace : List Event}
    (executed : system.run? state actions = some (final, trace)) :
    actions.length + measure final ≤ measure state := by
  induction actions generalizing state trace with
  | nil =>
      simp only [run?, Option.some.injEq, Prod.mk.injEq] at executed
      simp [executed.1]
  | cons action rest inductionHypothesis =>
      obtain ⟨next, events, later, taken, restExecuted, -⟩ :=
        run?_cons_eq_some.mp executed
      have less := decreases taken
      have bound := inductionHypothesis restExecuted
      rw [List.length_cons]
      omega

/--
Where some step always keeps an invariant and decreases a measure, there is an
execution to the end.
-/
theorem exists_run?_of_measure
    {system : System State Action Event}
    (measure : State → Nat)
    {good done : State → Prop}
    (progress :
      ∀ {state : State}, good state → ¬ done state →
        ∃ action next events,
          system.step? state action = some (next, events) ∧
            good next ∧ measure next < measure state)
    {state : State}
    (holds : good state) :
    ∃ actions final trace,
      system.run? state actions = some (final, trace) ∧
        good final ∧ done final := by
  induction bound : measure state using Nat.strongRecOn
    generalizing state with
  | ind most inductionHypothesis =>
      by_cases isDone : done state
      · exact ⟨[], state, [], rfl, holds, isDone⟩
      · obtain ⟨action, next, events, taken, kept, less⟩ :=
          progress holds isDone
        obtain ⟨actions, final, later, executed, ended⟩ :=
          inductionHypothesis (measure next) (bound ▸ less) kept rfl
        exact ⟨action :: actions, final, events ++ later,
          run?_cons_eq_some.mpr
            ⟨next, events, later, taken, executed, rfl⟩, ended⟩

/-- What every step preserves an execution preserves. -/
theorem run?_preserves
    {system : System State Action Event}
    {property : List Event → State → Prop}
    (preserved :
      ∀ {trace events : List Event} {state next : State} {action : Action},
        property trace state →
        system.step? state action = some (next, events) →
        property (trace ++ events) next)
    {trace later : List Event}
    {state final : State}
    {actions : List Action}
    (holds : property trace state)
    (executed : system.run? state actions = some (final, later)) :
    property (trace ++ later) final := by
  induction actions generalizing trace later state with
  | nil =>
      simp only [run?, Option.some.injEq, Prod.mk.injEq] at executed
      obtain ⟨rfl, rfl⟩ := executed
      simpa using holds
  | cons action rest inductionHypothesis =>
      obtain ⟨next, events, behind, taken, restExecuted, rfl⟩ :=
        run?_cons_eq_some.mp executed
      rw [← List.append_assoc]
      exact inductionHypothesis (preserved holds taken) restExecuted

/-- What every step preserves of a state an execution preserves. -/
theorem run?_preserves_state
    {system : System State Action Event}
    {property : State → Prop}
    (preserved :
      ∀ {state next : State} {action : Action} {events : List Event},
        property state →
        system.step? state action = some (next, events) →
        property next)
    {state final : State}
    {actions : List Action}
    {trace : List Event}
    (holds : property state)
    (executed : system.run? state actions = some (final, trace)) :
    property final := by
  induction actions generalizing state trace with
  | nil =>
      simp only [run?, Option.some.injEq, Prod.mk.injEq] at executed
      exact executed.1 ▸ holds
  | cons action rest inductionHypothesis =>
      obtain ⟨next, events, later, taken, restExecuted, -⟩ :=
        run?_cons_eq_some.mp executed
      exact inductionHypothesis (preserved holds taken) restExecuted

/--
An execution meets a guard in all its steps, or it has a first step that does
not.
-/
theorem guarded_run?_cases
    {system : System State Action Event}
    (allowed : State → Action → Prop)
    [∀ state action, Decidable (allowed state action)]
    {state final : State}
    {actions : List Action}
    {trace : List Event}
    (executed : system.run? state actions = some (final, trace)) :
    (system.guarded allowed).run? state actions = some (final, trace) ∨
      ∃ before action after middle events later,
        actions = before ++ action :: after ∧
          (system.guarded allowed).run? state before =
            some (middle, events) ∧
          ¬ allowed middle action ∧
          system.run? middle (action :: after) = some (final, later) ∧
          trace = events ++ later := by
  induction actions generalizing state trace with
  | nil =>
      exact .inl executed
  | cons action rest inductionHypothesis =>
      by_cases permitted : allowed state action
      · obtain ⟨next, events, behind, taken, restExecuted, rfl⟩ :=
          run?_cons_eq_some.mp executed
        have guardedStep :
            (system.guarded allowed).step? state action =
              some (next, events) :=
          guarded_step?_eq_some.mpr ⟨permitted, taken⟩
        rcases inductionHypothesis restExecuted with
          all | ⟨before, violating, after, middle, earlier, later, split,
            upTo, violates, goesOn, rfl⟩
        · exact .inl (run?_cons_eq_some.mpr
            ⟨next, events, behind, guardedStep, all, rfl⟩)
        · refine .inr ⟨action :: before, violating, after, middle,
            events ++ earlier, later, by rw [split, List.cons_append],
            ?_, violates, goesOn, by rw [List.append_assoc]⟩
          exact run?_cons_eq_some.mpr
            ⟨next, events, earlier, guardedStep, upTo, rfl⟩
      · exact .inr ⟨[], action, rest, state, [], trace, rfl, rfl,
          permitted, executed, rfl⟩

/-- An execution of a guarded system is one of the system itself. -/
theorem run?_of_guarded
    {system : System State Action Event}
    {allowed : State → Action → Prop}
    [∀ state action, Decidable (allowed state action)]
    {state final : State}
    {actions : List Action}
    {trace : List Event}
    (executed :
      (system.guarded allowed).run? state actions = some (final, trace)) :
    system.run? state actions = some (final, trace) := by
  induction actions generalizing state trace with
  | nil =>
      exact executed
  | cons action rest inductionHypothesis =>
      obtain ⟨next, events, later, taken, restExecuted, rfl⟩ :=
        run?_cons_eq_some.mp executed
      exact run?_cons_eq_some.mpr
        ⟨next, events, later, (guarded_step?_eq_some.mp taken).2,
          inductionHypothesis restExecuted, rfl⟩

namespace Reaches

/--
An invariant of state and trace holds in every run once it holds initially and
every step preserves it.
-/
theorem invariant
    {system : System State Action Event}
    {property : List Event → State → Prop}
    (initially : property [] system.initial)
    (preserved :
      ∀ {trace events : List Event} {state next : State} {action : Action},
        property trace state →
        system.step? state action = some (next, events) →
        property (trace ++ events) next)
    {trace : List Event}
    {state : State}
    (reaches : system.Reaches trace state) :
    property trace state := by
  induction reaches with
  | initial =>
      exact initially
  | step earlier taken inductionHypothesis =>
      exact preserved inductionHypothesis taken

/-- A run extended by an executed list of actions is a run. -/
theorem append_run?
    {system : System State Action Event}
    {trace later : List Event}
    {state final : State}
    {actions : List Action}
    (reaches : system.Reaches trace state)
    (executed : system.run? state actions = some (final, later)) :
    system.Reaches (trace ++ later) final :=
  run?_preserves (fun earlier taken => earlier.step taken) reaches executed

/-- Executing a list of actions from the initial state is a run. -/
theorem of_run?
    {system : System State Action Event}
    {trace : List Event}
    {state : State}
    {actions : List Action}
    (executed :
      system.run? system.initial actions = some (state, trace)) :
    system.Reaches trace state := by
  simpa using Reaches.initial.append_run? executed

/-- A checked execution is a run whose outcome passes the check. -/
theorem exists_of_run?
    {system : System State Action Event}
    {actions : List Action}
    {check : State × List Event → Bool}
    (executed :
      (system.run? system.initial actions).any check = true) :
    ∃ trace state,
      system.Reaches trace state ∧ check (state, trace) = true := by
  obtain ⟨⟨state, trace⟩, ran, passed⟩ :=
    (Option.any_eq_true _ _).mp executed
  exact ⟨trace, state, of_run? ran, passed⟩

/-- Every run of a guarded system is a run of the system itself. -/
theorem of_guarded
    {system : System State Action Event}
    {allowed : State → Action → Prop}
    [∀ state action, Decidable (allowed state action)]
    {trace : List Event}
    {state : State}
    (reaches : (system.guarded allowed).Reaches trace state) :
    system.Reaches trace state := by
  induction reaches with
  | initial =>
      exact .initial
  | step earlier taken inductionHypothesis =>
      exact .step inductionHypothesis
        (guarded_step?_eq_some.mp taken).2

end Reaches

/-- It is enough to follow what the states that are not bad have ready. -/
theorem BadExactlyOutside.of_invariant
    {system : System State Action Event}
    {allowed : State → Action → Prop}
    [∀ state action, Decidable (allowed state action)]
    {bad : State → Prop}
    (ready : State → Prop)
    (initially : ¬ bad system.initial ∧ ready system.initial)
    (preserved :
      ∀ {state next : State} {action : Action} {events : List Event},
        ¬ bad state → ready state →
        system.step? state action = some (next, events) →
        (bad next ↔ ¬ allowed state action) ∧ ready next) :
    system.BadExactlyOutside allowed bad := by
  intro trace state reaches
  have invariant : ¬ bad state ∧ ready state := by
    induction reaches with
    | initial =>
        exact initially
    | step earlier taken inductionHypothesis =>
        obtain ⟨permitted, moved⟩ := guarded_step?_eq_some.mp taken
        obtain ⟨good, isReady⟩ := inductionHypothesis
        obtain ⟨badIff, later⟩ := preserved good isReady moved
        exact ⟨fun isBad => badIff.mp isBad permitted, later⟩
  refine ⟨invariant.1, ?_⟩
  intro action next events moved
  exact (preserved invariant.1 invariant.2 moved).1

end System

end CsPrimer.Library
