import CsPrimer.Singleton.SecondInstance

namespace CsPrimer.Singleton

open Library

/-!
# The instances that `release` makes

However many instances `release` makes, each of them is constructed behind the
mutex before it is assigned, so nobody is given one that is not.  Without a
call that tests too early there is one.
-/

section Release

variable
  {Thread : Type}
  {trace events : List Event}
  {state next : State Thread}
  {thread : Thread}

/-- What has been constructed was so once, and before it was returned. -/
def ConstructedFirst (before : List Event) : Event → Prop
  | .constructed mem => .constructed mem ∉ before
  | .returned result =>
      ∃ mem, result = some mem ∧ .constructed mem ∈ before

/-- An instance that has been constructed. -/
def Constructed
    (trace : List Event)
    (shared : Shared Thread)
    (mem : Nat) : Prop :=
  mem < shared.allocated ∧ .constructed mem ∈ trace

/-- What a call of `release` knows about the instance it has made. -/
def Knows
    (trace : List Event)
    (shared : Shared Thread) : Position → Prop
  | .creating (.constructing mem) =>
      mem + 1 = shared.allocated ∧ .constructed mem ∉ trace
  | .creating (.assigning mem) =>
      Constructed trace shared mem
  | .creating (.created mem) =>
      Constructed trace shared mem
  | .unlocking result =>
      ∃ mem, result = some mem ∧ Constructed trace shared mem
  | _ => True

/-- What holds in every run of `release`. -/
structure Released (trace : List Event) (state : State Thread) : Prop where
  locked : Locked state
  knows :
    ∀ thread, Knows trace state.shared (state.threads thread)
  assigned :
    ∀ mem, state.shared.instance_ = some mem →
      Constructed trace state.shared mem
  allocated :
    ∀ mem, .constructed mem ∈ trace → mem < state.shared.allocated

/-- What is known of the instances does not depend on what calls return. -/
theorem constructed_append
    {shared : Shared Thread}
    {mem : Nat}
    (constructed : Constructed trace shared mem) :
    Constructed (trace ++ events) shared mem :=
  ⟨constructed.1, List.mem_append_left events constructed.2⟩

theorem knows_of_not_inside
    {shared : Shared Thread}
    {position : Position}
    (notInside : ¬ Inside position) :
    Knows trace shared position := by
  cases position with
  | creating stage =>
      exact absurd trivial notInside
  | unlocking result =>
      exact absurd trivial notInside
  | outside | testing | locking | retesting | evaluating | returning =>
      trivial

theorem Knows.append_returned
    {shared : Shared Thread}
    {position : Position}
    {result : Option Nat}
    (knows : Knows trace shared position) :
    Knows (trace ++ [.returned result]) shared position := by
  cases position with
  | creating stage =>
      cases stage with
      | allocating =>
          trivial
      | constructing mem =>
          exact ⟨knows.1, by simpa using knows.2⟩
      | assigning mem | created mem =>
          exact constructed_append knows
  | unlocking other =>
      obtain ⟨mem, isOther, constructed⟩ := knows
      exact ⟨mem, isOther, constructed_append constructed⟩
  | outside | testing | locking | retesting | evaluating | returning =>
      trivial

/-- The trace goes on with what a call returns. -/
theorem Released.returns
    {result : Option Nat}
    (released : Released trace state) :
    Released (trace ++ [.returned result]) state where
  locked := released.locked
  knows thread := (released.knows thread).append_returned
  assigned mem isInstance :=
    constructed_append (released.assigned mem isInstance)
  allocated mem isConstructed :=
    released.allocated mem (by simpa using isConstructed)

variable [DecidableEq Thread]

/-- The call that holds the mutex goes on, or leaves. -/
theorem Released.works
    {shared : Shared Thread}
    {position : Position}
    (released : Released trace state)
    (isInside : Inside (state.threads thread))
    (locked :
      Locked
        { shared := shared
          threads := Function.update state.threads thread position })
    (knows : Knows (trace ++ events) shared position)
    (assigned :
      ∀ mem, shared.instance_ = some mem →
        Constructed (trace ++ events) shared mem)
    (allocated :
      ∀ mem, .constructed mem ∈ trace ++ events → mem < shared.allocated) :
    Released (trace ++ events)
      { shared := shared
        threads := Function.update state.threads thread position } where
  locked := locked
  knows other := by
    by_cases same : other = thread
    · subst same
      simpa only [Function.update_self] using knows
    · simp only [Function.update_of_ne same]
      exact knows_of_not_inside (released.locked.not_inside isInside same)
  assigned := assigned
  allocated := allocated

/-- A call that is not behind the lock moves, or takes the lock. -/
theorem Released.passes
    {shared : Shared Thread}
    {position : Position}
    (released : Released trace state)
    (locked :
      Locked
        { shared := shared
          threads := Function.update state.threads thread position })
    (isInstance : shared.instance_ = state.shared.instance_)
    (isAllocated : shared.allocated = state.shared.allocated)
    (knows : Knows trace shared position) :
    Released trace
      { shared := shared
        threads := Function.update state.threads thread position } := by
  have constructed :
      ∀ mem, Constructed trace state.shared mem →
        Constructed trace shared mem := by
    intro mem isConstructed
    exact ⟨isAllocated ▸ isConstructed.1, isConstructed.2⟩
  exact
    { locked := locked
      knows := by
        intro other
        by_cases same : other = thread
        · subst same
          simpa only [Function.update_self] using knows
        · simp only [Function.update_of_ne same]
          have otherKnows := released.knows other
          unfold Knows Constructed at otherKnows ⊢
          rwa [isAllocated]
      assigned := by
        intro mem isSome
        exact constructed mem (released.assigned mem (isInstance ▸ isSome))
      allocated := by
        intro mem isConstructed
        exact isAllocated ▸ released.allocated mem isConstructed }

/-- The creation of an instance, behind the mutex. -/
theorem Released.creates
    {shared : Shared Thread}
    {position : Position}
    {stage : Stage}
    (released : Released trace state)
    (isCreating : state.threads thread = .creating stage)
    (locked :
      Locked
        { shared := shared
          threads := Function.update state.threads thread position })
    (stepped :
      createThen .inOrder state.shared stage
          (fun tmp => .unlocking (some tmp)) =
        (shared, position, events)) :
    Released (trace ++ events)
        { shared := shared
          threads := Function.update state.threads thread position } ∧
      AtEvery (fun before => ConstructedFirst (trace ++ before)) events := by
  have isInside : Inside (state.threads thread) := by
    rw [isCreating]
    trivial
  have knows := released.knows thread
  rw [isCreating] at knows
  cases stage with
  | allocating =>
      simp only [createThen, create, Prod.mk.injEq] at stepped
      obtain ⟨rfl, rfl, rfl⟩ := stepped
      refine ⟨released.works isInside locked ⟨rfl, ?_⟩ ?_ ?_,
        AtEvery.nil⟩
      · intro isConstructed
        rw [List.append_nil] at isConstructed
        exact Nat.lt_irrefl _ (released.allocated _ isConstructed)
      · intro mem isInstance
        have constructed := released.assigned mem isInstance
        exact constructed_append
          ⟨Nat.lt_succ_of_lt constructed.1, constructed.2⟩
      · intro mem isConstructed
        rw [List.append_nil] at isConstructed
        exact Nat.lt_succ_of_lt (released.allocated mem isConstructed)
  | constructing mem =>
      obtain ⟨isLast, fresh⟩ := knows
      simp only [createThen, create, Prod.mk.injEq] at stepped
      obtain ⟨rfl, rfl, rfl⟩ := stepped
      refine ⟨released.works isInside locked
        ⟨by omega, by simp⟩ ?_ ?_, AtEvery.snoc AtEvery.nil ?_⟩
      · intro other isInstance
        exact constructed_append (released.assigned _ isInstance)
      · intro other isConstructed
        rw [List.mem_append, List.mem_singleton, Event.constructed.injEq]
          at isConstructed
        rcases isConstructed with earlier | rfl
        · exact released.allocated other earlier
        · omega
      · simpa [ConstructedFirst] using fresh
  | assigning mem =>
      simp only [createThen, create, Prod.mk.injEq] at stepped
      obtain ⟨rfl, rfl, rfl⟩ := stepped
      refine ⟨released.works isInside locked
        ⟨mem, rfl, constructed_append knows⟩ ?_ ?_, AtEvery.nil⟩
      · intro other isInstance
        cases isInstance
        exact constructed_append knows
      · simpa using released.allocated
  | created mem =>
      simp only [createThen, create, Prod.mk.injEq] at stepped
      obtain ⟨rfl, rfl, rfl⟩ := stepped
      refine ⟨released.works isInside locked
        ⟨mem, rfl, constructed_append knows⟩ ?_ ?_, AtEvery.nil⟩
      · intro other isInstance
        exact constructed_append (released.assigned _ isInstance)
      · simpa using released.allocated

/-- Every step of `release` keeps what is known. -/
theorem release_step
    (released : Released trace state)
    (taken : (system release).step? state thread = some (next, events)) :
    Released (trace ++ events) next ∧
      AtEvery (fun before => ConstructedFirst (trace ++ before)) events ∧
      ∀ result, .returned result ∈ events →
        ∃ mem, result = some mem ∧ mem < state.shared.allocated := by
  have locked := released.locked.step taken
  simp only [system, Option.map_eq_some_iff, Prod.mk.injEq] at taken
  obtain ⟨⟨shared, position, emitted⟩, stepped, rfl, rfl⟩ := taken
  have knows := released.knows thread
  cases isPosition : state.threads thread with
  | outside =>
      simp only [release, isPosition, Option.some.injEq, Prod.mk.injEq]
        at stepped
      obtain ⟨rfl, rfl, rfl⟩ := stepped
      rw [List.append_nil]
      exact ⟨released.passes locked rfl rfl trivial,
        AtEvery.nil, by simp⟩
  | testing =>
      cases isInstance : state.shared.instance_ with
      | none =>
          simp only [release, isPosition, isInstance, Option.some.injEq,
            Prod.mk.injEq] at stepped
          obtain ⟨rfl, rfl, rfl⟩ := stepped
          rw [List.append_nil]
          exact ⟨released.passes locked rfl rfl trivial,
            AtEvery.nil, by simp⟩
      | some tmp =>
          simp only [release, isPosition, isInstance, Option.some.injEq,
            Prod.mk.injEq] at stepped
          obtain ⟨rfl, rfl, rfl⟩ := stepped
          have constructed := released.assigned tmp isInstance
          have passed :
              Released trace
                { state with
                  threads :=
                    Function.update state.threads thread .outside } :=
            released.passes locked rfl rfl trivial
          refine ⟨passed.returns, AtEvery.snoc AtEvery.nil ?_, ?_⟩
          · rw [List.append_nil]
            exact ⟨tmp, rfl, constructed.2⟩
          · intro result isReturned
            rw [List.mem_singleton, Event.returned.injEq] at isReturned
            exact ⟨tmp, isReturned, constructed.1⟩
  | locking =>
      simp only [release, isPosition, Option.map_eq_some_iff, Prod.mk.injEq]
        at stepped
      obtain ⟨locked, isLocked, rfl, rfl, rfl⟩ := stepped
      obtain ⟨-, rfl⟩ := lock_spec isLocked
      rw [List.append_nil]
      exact ⟨released.passes locked rfl rfl trivial, AtEvery.nil, by simp⟩
  | retesting =>
      have isInside : Inside (state.threads thread) := by
        rw [isPosition]
        trivial
      simp only [release, isPosition, Option.some.injEq, Prod.mk.injEq]
        at stepped
      obtain ⟨rfl, rfl, rfl⟩ := stepped
      refine ⟨released.works isInside locked trivial ?_ ?_,
        AtEvery.nil, by simp⟩
      · intro mem isInstance
        exact constructed_append (released.assigned _ isInstance)
      · simpa using released.allocated
  | creating stage =>
      simp only [release, isPosition, Option.some.injEq] at stepped
      obtain ⟨kept, ordered⟩ := released.creates isPosition locked stepped
      refine ⟨kept, ordered, ?_⟩
      intro result isReturned
      exact absurd isReturned (not_returned_of_createThen stepped)
  | unlocking result =>
      have isInside : Inside (state.threads thread) := by
        rw [isPosition]
        trivial
      rw [isPosition] at knows
      obtain ⟨mem, rfl, constructed⟩ := knows
      simp only [release, isPosition, Option.some.injEq, Prod.mk.injEq]
        at stepped
      obtain ⟨rfl, rfl, rfl⟩ := stepped
      refine ⟨released.works isInside locked trivial ?_ ?_,
        AtEvery.snoc AtEvery.nil ?_, ?_⟩
      · intro other isInstance
        exact constructed_append (released.assigned _ isInstance)
      · intro other isConstructed
        exact released.allocated other (by simpa using isConstructed)
      · rw [List.append_nil]
        exact ⟨mem, rfl, constructed.2⟩
      · intro result isReturned
        rw [List.mem_singleton, Event.returned.injEq] at isReturned
        exact ⟨mem, isReturned, constructed.1⟩
  | evaluating | returning =>
      simp only [release, isPosition, reduceCtorEq] at stepped

end Release

section Runs

variable
  {Thread : Type}
  [DecidableEq Thread]

/-- In every run of `release` an instance is constructed before it is returned. -/
theorem Released.of_reaches
    {trace : List Event}
    {state : State Thread}
    (reaches : (system release).Reaches trace state) :
    Released trace state ∧ AtEvery ConstructedFirst trace := by
  induction reaches with
  | initial =>
      refine ⟨⟨Locked.initially, fun _ => trivial, ?_, ?_⟩, AtEvery.nil⟩
      · intro mem isInstance
        cases isInstance
      · simp
  | step earlier taken inductionHypothesis =>
      obtain ⟨released, ordered⟩ := inductionHypothesis
      obtain ⟨kept, later, -⟩ := release_step released taken
      exact ⟨kept, ordered.append later⟩

variable [Fintype Thread]

/--
In every run of `release`, however many instances it makes, each of them is
constructed once, and returned after that only.  As long as no call tests
while another one is about to assign, all calls return the first instance.
-/
theorem release_returns_constructed :
    (∀ trace (state : State Thread),
        (system release).Reaches trace state →
        AtEvery ConstructedFirst trace) ∧
      ∀ trace (state : State Thread),
        ((system release).guarded (Alone .inOrder)).Reaches trace state →
        ∀ result, .returned result ∈ trace → result = some 0 := by
  refine ⟨fun trace state reaches => (Released.of_reaches reaches).2, ?_⟩
  intro trace state reaches
  induction reaches with
  | initial =>
      simp
  | step earlier taken inductionHypothesis =>
      have released := (Released.of_reaches earlier.of_guarded).1
      have single := (second_foreseen_exactly release_moves _ _ earlier).1
      have moved := (System.guarded_step?_eq_some.mp taken).2
      have returns := (release_step released moved).2.2
      intro result isReturned
      rcases List.mem_append.mp isReturned with before | now
      · exact inductionHypothesis result before
      · obtain ⟨mem, rfl, isAllocated⟩ := returns result now
        simp only [foreseen] at single
        have isFirst : mem = 0 := by omega
        rw [isFirst]

/--
Two calls find the null pointer and return two instances; when only one of them
finds it, the others return the first.
-/
theorem release_returns_constructed_twoThreads :
    (∃ trace state,
      (system (@release Bool)).Reaches trace state ∧
        trace =
          [.constructed 0, .returned (some 0), .constructed 1,
            .returned (some 1)] ∧
        AtEvery ConstructedFirst trace) ∧
      ∃ trace state,
        ((system (@release Bool)).guarded (Alone .inOrder)).Reaches trace
            state ∧
          trace =
            [.constructed 0, .returned (some 0), .returned (some 0),
              .returned (some 0)] ∧
          ∀ result, .returned result ∈ trace → result = some 0 := by
  obtain ⟨both, separately⟩ := @release_returns_constructed Bool _ _
  obtain ⟨trace, state, reaches, isTrace⟩ :=
    System.Reaches.exists_of_run?
      (by decide +kernel :
        ((system (@release Bool)).run? (system (@release Bool)).initial
            ([true, true, false, false] ++ List.replicate 7 true ++
              List.replicate 6 false)).any
          (fun outcome => decide (outcome.2 =
            [.constructed 0, .returned (some 0), .constructed 1,
              .returned (some 1)])) = true)
  obtain ⟨other, later, guarded, isOther⟩ :=
    System.Reaches.exists_of_run?
      (by decide +kernel :
        (((system (@release Bool)).guarded (Alone .inOrder)).run?
            ((system (@release Bool)).guarded (Alone .inOrder)).initial
            ([true, false] ++ List.replicate 7 true ++
              [false, true, false, true])).any
          (fun outcome => decide (outcome.2 =
            [.constructed 0, .returned (some 0), .returned (some 0),
              .returned (some 0)])) = true)
  exact
    ⟨⟨trace, state, reaches, of_decide_eq_true isTrace,
        both trace state reaches⟩,
      ⟨other, later, guarded, of_decide_eq_true isOther,
        separately other later guarded⟩⟩

end Runs

end CsPrimer.Singleton
