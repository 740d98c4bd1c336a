import Mathlib.Data.List.Basic

namespace CsPrimer.Library

/-!
# Histories of calls

An object is driven by a sequence of calls, each of which has an outcome or
none.  It follows a specification as long as every call does what is expected
of it.  Where the calls that do are known by the state they are made in, so are
the histories.
-/

variable {State Call : Type}

/-- Every call of a history has the outcome that is expected. -/
def Follows
    (call : State → Call → Option State)
    (expected : State → Call → State)
    (state : State)
    (history : List Call) : Prop :=
  ∀ earlier, earlier <+: history →
    earlier.foldlM call state = some (earlier.foldl expected state)

/-- Every call of a history is made in an expected state that permits it. -/
def Permits
    (expected : State → Call → State)
    (permitted : State → Call → Prop)
    (state : State)
    (history : List Call) : Prop :=
  ∀ before made after, history = before ++ made :: after →
    permitted (before.foldl expected state) made

variable
  {call : State → Call → Option State}
  {expected : State → Call → State}
  {permitted : State → Call → Prop}
  {state : State}
  {made : Call}
  {history : List Call}

theorem Follows.nil :
    Follows call expected state [] := by
  intro earlier isPrefix
  rw [List.prefix_nil.mp isPrefix]
  rfl

theorem Follows.cons_iff :
    Follows call expected state (made :: history) ↔
      call state made = some (expected state made) ∧
        Follows call expected (expected state made) history := by
  constructor
  · intro follows
    have first := follows [made] ⟨history, rfl⟩
    rw [List.foldlM_cons, List.foldl_cons, List.foldl_nil] at first
    have isFirst : call state made = some (expected state made) := by
      simpa using first
    refine ⟨isFirst, fun earlier isPrefix => ?_⟩
    have later :=
      follows (made :: earlier) (List.cons_prefix_cons.mpr ⟨rfl, isPrefix⟩)
    rw [List.foldlM_cons, isFirst] at later
    exact later
  · rintro ⟨isFirst, follows⟩ earlier isPrefix
    cases earlier with
    | nil =>
        rfl
    | cons other rest =>
        obtain ⟨rfl, restPrefix⟩ := List.cons_prefix_cons.mp isPrefix
        rw [List.foldlM_cons, isFirst]
        exact follows rest restPrefix

/-- The outcome of a whole history. -/
theorem Follows.foldlM_eq
    (follows : Follows call expected state history) :
    history.foldlM call state = some (history.foldl expected state) :=
  follows history (List.prefix_refl history)

theorem Permits.nil :
    Permits expected permitted state [] := by
  intro before made after split
  simp at split

theorem Permits.cons_iff :
    Permits expected permitted state (made :: history) ↔
      permitted state made ∧
        Permits expected permitted (expected state made) history := by
  constructor
  · intro permits
    refine ⟨permits [] made history rfl, ?_⟩
    rintro before other after rfl
    exact permits (made :: before) other after rfl
  · rintro ⟨isPermitted, permits⟩ before other after split
    cases before with
    | nil =>
        obtain ⟨rfl, -⟩ := List.cons.inj split
        exact isPermitted
    | cons first before =>
        obtain ⟨rfl, rest⟩ := List.cons.inj split
        exact permits before other after rest

/--
If exactly the permitted calls have the outcome that is expected, so have
exactly the permitted histories.
-/
theorem follows_iff_permits
    (exact :
      ∀ state made,
        call state made = some (expected state made) ↔
          permitted state made) :
    Follows call expected state history ↔
      Permits expected permitted state history := by
  induction history generalizing state with
  | nil =>
      exact iff_of_true .nil .nil
  | cons made history inductionHypothesis =>
      rw [Follows.cons_iff, Permits.cons_iff, exact, inductionHypothesis]

end CsPrimer.Library
