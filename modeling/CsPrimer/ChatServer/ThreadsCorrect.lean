import CsPrimer.ChatServer.Threads

namespace CsPrimer.ChatServer.Threads

open Library

/-!
# When every handler serves its own connection

A handler that has not read the variable yet depends on the loop of `main`:
the next result of `accept` is another descriptor, or -1, because the one the
handler has been created for is still open.
-/

/-- What a step of a handler can do. -/
inductive Taken
    (state : State)
    (i : Nat)
    (handler : Handler) : State → Prop where
  | starts
      (isCreated : handler.phase = .created) :
      Taken state i handler
        (state.goOn i handler (.serving state.clntSockfd))
  | stays :
      Taken state i handler state
  | disconnects
      {sockfd : Nat}
      {table : Table}
      (isServing : handler.phase = .serving (some sockfd)) :
      Taken state i handler
        { state.goOn i handler (.closing sockfd) with table := table }
  | closes
      {sockfd : Nat}
      (isClosing : handler.phase = .closing sockfd) :
      Taken state i handler
        { state.goOn i handler (.returned sockfd) with
          opened := state.opened.erase sockfd }

theorem taken_of_handlerStep
    {state next : State}
    {action : Action}
    {i : Nat}
    {handler : Handler}
    {events : List Event}
    (taken : handlerStep state action i handler = some (next, events)) :
    Taken state i handler next := by
  unfold handlerStep at taken
  split at taken
  · next isCreated =>
    simp only [Option.some.injEq, Prod.mk.injEq] at taken
    obtain ⟨rfl, -⟩ := taken
    exact .starts isCreated
  · simp only [Option.ite_none_right_eq_some, Option.map_eq_some_iff,
      Prod.mk.injEq] at taken
    obtain ⟨-, sockfds, -, rfl, -⟩ := taken
    exact .stays
  · simp only [Option.some.injEq, Prod.mk.injEq] at taken
    obtain ⟨rfl, -⟩ := taken
    exact .stays
  · next isServing =>
    simp only [Option.ite_none_right_eq_some, Option.map_eq_some_iff,
      Prod.mk.injEq] at taken
    obtain ⟨-, table, -, rfl, -⟩ := taken
    exact .disconnects isServing
  · next isClosing =>
    simp only [Option.some.injEq, Prod.mk.injEq] at taken
    obtain ⟨rfl, -⟩ := taken
    exact .closes isClosing
  · cases taken

/-- The connection `main` is busy with. -/
def Position.accepted : Position → Option Nat
  | .accepting => none
  | .registering accepted | .creating accepted => some accepted

/-- What the descriptors in use have to do with each other. -/
structure Ready (state : State) : Prop where
  /-- A handler that has not closed its connection keeps it open. -/
  live :
    ∀ handler ∈ state.handlers, handler.Live →
      handler.accepted ∈ state.opened
  /-- `main` has the new descriptor in its variable, and no handler has it. -/
  current :
    ∀ accepted, state.position.accepted = some accepted →
      state.clntSockfd = some accepted ∧ accepted ∈ state.opened ∧
        ∀ handler ∈ state.handlers, handler.Live →
          handler.accepted ≠ accepted

/-- Every handler was there before one of them went on. -/
theorem exists_before
    {handlers moved : List Handler}
    {i j : Nat}
    {handler later current : Handler}
    (isMoved : moved = handlers.set i later)
    (present : handlers[i]? = some handler)
    (isLive : handler.Live)
    (sameConnection : later.accepted = handler.accepted)
    (isCurrent : moved[j]? = some current) :
    ∃ old,
      handlers[j]? = some old ∧
        current.accepted = old.accepted ∧
        (current.Live → old.Live) ∧
        (j = i ∧ current = later ∨ j ≠ i ∧ current = old) := by
  have inBounds : i < handlers.length :=
    (List.getElem?_eq_some_iff.mp present).1
  rw [isMoved] at isCurrent
  by_cases isHandler : j = i
  · subst isHandler
    rw [List.getElem?_set_self inBounds, Option.some.injEq] at isCurrent
    subst isCurrent
    exact ⟨handler, present, sameConnection, fun _ => isLive,
      .inl ⟨rfl, rfl⟩⟩
  · rw [List.getElem?_set_ne (Ne.symm isHandler)] at isCurrent
    exact ⟨current, isCurrent, rfl, id, .inr ⟨isHandler, rfl⟩⟩

/-- A handler that goes on is still the one for its connection. -/
theorem handler_goesOn
    {state next : State}
    {i : Nat}
    {handler later : Handler}
    (serves : ServesOwn state)
    (ready : Ready state)
    (present : state.handlers[i]? = some handler)
    (isLive : handler.Live)
    (moved : next.handlers = state.handlers.set i later)
    (sameVariables :
      next.position = state.position ∧
        next.clntSockfd = state.clntSockfd ∧ next.served = state.served)
    (sameConnection : later.accepted = handler.accepted)
    (sameSockfd :
      later.sockfd state.clntSockfd = handler.sockfd state.clntSockfd)
    (others :
      ∀ sockfd ∈ state.opened,
        sockfd ≠ handler.accepted → sockfd ∈ next.opened)
    (ownKept : later.Live → handler.accepted ∈ next.opened) :
    ServesOwn next ∧ Ready next := by
  obtain ⟨samePosition, sameVariable, sameServed⟩ := sameVariables
  have member := List.mem_of_getElem? present
  refine ⟨⟨?_, ?_, ?_⟩, ⟨?_, ?_⟩⟩
  · intro current isCurrent
    rw [sameVariable]
    rw [moved] at isCurrent
    rcases List.mem_or_eq_of_mem_set isCurrent with isOld | rfl
    · exact serves.own current isOld
    · rw [sameSockfd, sameConnection]
      exact serves.own handler member
  · rw [sameServed, ← serves.one, moved, List.map_set, sameConnection]
    obtain ⟨inBounds, isHandler⟩ := List.getElem?_eq_some_iff.mp present
    have inMap : i < (state.handlers.map Handler.accepted).length := by
      simpa using inBounds
    simpa [isHandler] using List.set_getElem_self inMap
  · intro first second one other isOne isOther oneLive otherLive same
    obtain ⟨oldOne, wasOne, sameOne, oneWasLive, -⟩ :=
      exists_before moved present isLive sameConnection isOne
    obtain ⟨oldOther, wasOther, sameOther, otherWasLive, -⟩ :=
      exists_before moved present isLive sameConnection isOther
    exact serves.apart _ _ _ _ wasOne wasOther (oneWasLive oneLive)
      (otherWasLive otherLive)
      (sameOne.symm.trans (same.trans sameOther))
  · intro current isMember currentLive
    obtain ⟨j, isCurrent⟩ := List.mem_iff_getElem?.mp isMember
    obtain ⟨old, wasThere, sameAccepted, wasLive, isLater | isOld⟩ :=
      exists_before moved present isLive sameConnection isCurrent
    · obtain ⟨-, rfl⟩ := isLater
      rw [sameConnection]
      exact ownKept currentLive
    · obtain ⟨isOther, rfl⟩ := isOld
      refine others _
        (ready.live _ (List.mem_of_getElem? wasThere) currentLive) ?_
      intro same
      exact isOther
        (serves.apart _ _ _ _ wasThere present currentLive isLive same)
  · intro accepted isBusy
    rw [samePosition] at isBusy
    obtain ⟨inVariable, isOpen, fresh⟩ := ready.current accepted isBusy
    refine ⟨sameVariable.trans inVariable, ?_, ?_⟩
    · exact others accepted isOpen (Ne.symm (fresh handler member isLive))
    · intro current isMember currentLive
      obtain ⟨j, isCurrent⟩ := List.mem_iff_getElem?.mp isMember
      obtain ⟨old, wasThere, sameAccepted, wasLive, -⟩ :=
        exists_before moved present isLive sameConnection isCurrent
      rw [sameAccepted]
      exact fresh old (List.mem_of_getElem? wasThere) (wasLive currentLive)

/-- A handler only closes the descriptor it has been created for. -/
theorem handler_preserves
    {state next : State}
    {i : Nat}
    {handler : Handler}
    (serves : ServesOwn state)
    (ready : Ready state)
    (present : state.handlers[i]? = some handler)
    (taken : Taken state i handler next) :
    ServesOwn next ∧ Ready next := by
  have member := List.mem_of_getElem? present
  have own := serves.own handler member
  cases taken with
  | starts isCreated =>
      have isLive : handler.Live := by
        simp [Handler.Live, isCreated]
      refine handler_goesOn serves ready present isLive rfl
        ⟨rfl, rfl, rfl⟩ rfl ?_ (fun _ isOpen _ => isOpen)
        (fun _ => ready.live handler member isLive)
      simp [Handler.sockfd, isCreated]
  | stays =>
      exact ⟨serves, ready⟩
  | disconnects isServing =>
      have isLive : handler.Live := by
        simp [Handler.Live, isServing]
      refine handler_goesOn serves ready present isLive rfl
        ⟨rfl, rfl, rfl⟩ rfl ?_ (fun _ isOpen _ => isOpen)
        (fun _ => ready.live handler member isLive)
      simp [Handler.sockfd, isServing]
  | @closes sockfd isClosing =>
      have isLive : handler.Live := by
        simp [Handler.Live, isClosing]
      obtain rfl : sockfd = handler.accepted := by
        simpa [Handler.sockfd, isClosing] using own
      refine handler_goesOn serves ready present isLive rfl
        ⟨rfl, rfl, rfl⟩ rfl ?_ ?_ ?_
      · simp [Handler.sockfd, isClosing]
      · intro other isOpen isOther
        exact (List.mem_erase_of_ne isOther).mpr isOpen
      · simp [Handler.Live]

section Main

variable
  {state next : State}

/-- A handler that has not read its descriptor would read another one. -/
theorem not_servesOwn_of_created
    {handler : Handler}
    (member : handler ∈ state.handlers)
    (isCreated : handler.phase = .created)
    (changed : state.clntSockfd ≠ some handler.accepted) :
    ¬ ServesOwn state := by
  intro serves
  have own := serves.own handler member
  rw [Handler.sockfd, isCreated] at own
  exact changed own

/-- A new result of `accept` only matters to handlers that have not started. -/
theorem servesOwn_of_started
    (serves : ServesOwn state)
    (started : ∀ handler ∈ state.handlers, handler.phase ≠ .created)
    (sameHandlers : next.handlers = state.handlers)
    (sameServed : next.served = state.served) :
    ServesOwn next := by
  refine ⟨?_, ?_, ?_⟩
  · intro handler member
    rw [sameHandlers] at member
    have own := serves.own handler member
    cases isPhase : handler.phase with
    | created =>
        exact absurd isPhase (started handler member)
    | serving sockfd | closing sockfd | returned sockfd =>
        simpa [Handler.sockfd, isPhase] using own
  · rw [sameHandlers, sameServed]
    exact serves.one
  · rw [sameHandlers]
    exact serves.apart

/-- `accept` stores another result than any connection that is open has. -/
theorem accept_spec
    {result : Option Nat}
    (serves : ServesOwn state)
    (ready : Ready state)
    (isNew : ∀ sockfd ∈ result, sockfd ∉ state.opened)
    (sameHandlers : next.handlers = state.handlers)
    (sameServed : next.served = state.served)
    (stored : next.clntSockfd = result) :
    ServesOwn next ↔
      ∀ handler ∈ state.handlers, handler.phase ≠ .created := by
  constructor
  · intro servesNext handler member isCreated
    have isLive : handler.Live := by
      simp [Handler.Live, isCreated]
    refine not_servesOwn_of_created (sameHandlers ▸ member) isCreated ?_
      servesNext
    rw [stored]
    intro same
    exact isNew _ same (ready.live handler member isLive)
  · intro started
    exact servesOwn_of_started serves started sameHandlers sameServed

/-- A handler is an old one or the new one at the end. -/
theorem getElem?_concat_cases
    {handlers : List Handler}
    {last handler : Handler}
    {i : Nat}
    (present : (handlers ++ [last])[i]? = some handler) :
    handlers[i]? = some handler ∨ (i = handlers.length ∧ handler = last) := by
  rcases Nat.lt_or_ge i handlers.length with isOld | notOld
  · rw [List.getElem?_append_left isOld] at present
    exact .inl present
  · rw [List.getElem?_append_right notOld] at present
    have bound := (List.getElem?_eq_some_iff.mp present).1
    rw [List.length_singleton] at bound
    have isLast : i - handlers.length = 0 := by omega
    rw [isLast, List.getElem?_cons_zero, Option.some.injEq] at present
    exact .inr ⟨by omega, present.symm⟩

/-- The new handler reads the result of its own `accept` if it is in time. -/
theorem create_spec
    {accepted : Nat}
    {succeeds : Bool}
    (serves : ServesOwn state)
    (ready : Ready state)
    (isCreating : state.position = .creating accepted)
    (sameVariable : next.clntSockfd = state.clntSockfd)
    (sameOpened : next.opened = state.opened)
    (served : next.served = state.served ++ [accepted])
    (isAccepting : next.position = .accepting)
    (created :
      next.handlers =
        if succeeds then
          state.handlers ++ [{ accepted := accepted, phase := .created }]
        else
          state.handlers) :
    (ServesOwn next ↔ succeeds = true) ∧ Ready next := by
  obtain ⟨inVariable, isOpen, fresh⟩ :=
    ready.current accepted (by rw [isCreating]; rfl)
  have members :
      ∀ handler ∈ next.handlers,
        handler ∈ state.handlers ∨
          handler = { accepted := accepted, phase := .created } := by
    intro handler member
    rw [created] at member
    split at member
    · simpa using member
    · exact .inl member
  refine ⟨⟨?_, ?_⟩, ?_, ?_⟩
  · intro servesNext
    by_contra fails
    have one := servesNext.one
    rw [created, if_neg fails, served, serves.one] at one
    simp at one
  · intro isCreated
    rw [if_pos isCreated] at created
    refine ⟨?_, ?_, ?_⟩
    · intro handler member
      rw [sameVariable]
      rcases members handler member with isOld | rfl
      · exact serves.own handler isOld
      · exact inVariable
    · rw [created, served, List.map_append, serves.one]
      rfl
    · intro first second one other isOne isOther oneLive otherLive same
      rw [created] at isOne isOther
      rcases getElem?_concat_cases isOne with wasOne | ⟨rfl, rfl⟩ <;>
        rcases getElem?_concat_cases isOther with wasOther | ⟨rfl, rfl⟩
      · exact serves.apart _ _ _ _ wasOne wasOther oneLive otherLive same
      · exact absurd same (fresh one (List.mem_of_getElem? wasOne) oneLive)
      · exact absurd same.symm
          (fresh other (List.mem_of_getElem? wasOther) otherLive)
      · rfl
  · intro handler member isLive
    rw [sameOpened]
    rcases members handler member with isOld | rfl
    · exact ready.live handler isOld isLive
    · exact isOpen
  · intro busy isBusy
    rw [isAccepting] at isBusy
    cases isBusy

/-- A step of `main` leaves every connection to its handler or not. -/
theorem main_preserves
    {action : Action}
    (serves : ServesOwn state)
    (ready : Ready state)
    (taken : mainStep state action = some next) :
    (ServesOwn next ↔ StartsInTime state action) ∧ Ready next := by
  unfold mainStep at taken
  split at taken
  · next isAccepting =>
    obtain rfl := Option.some.inj taken
    refine ⟨accept_spec serves ready ?_ rfl rfl rfl, ready.live, ?_⟩
    · intro sockfd isResult
      cases isResult
    intro busy isBusy
    rw [show state.position = .accepting from isAccepting] at isBusy
    cases isBusy
  · next sockfd isAccepting =>
    rw [Option.ite_none_left_eq_some, Option.some.injEq] at taken
    obtain ⟨isNew, rfl⟩ := taken
    refine ⟨accept_spec serves ready ?_ rfl rfl rfl, ?_, ?_⟩
    · intro other isResult
      obtain rfl := Option.mem_some_iff.mp isResult
      exact isNew
    · intro handler member isLive
      exact List.mem_append_left _ (ready.live handler member isLive)
    · intro busy isBusy
      obtain rfl : sockfd = busy := Option.some.inj isBusy
      refine ⟨rfl, by simp, ?_⟩
      rintro handler member isLive rfl
      exact isNew (ready.live handler member isLive)
  · next accepted isRegistering =>
    split at taken
    · cases taken
    · rw [Option.map_eq_some_iff] at taken
      obtain ⟨table, -, rfl⟩ := taken
      refine ⟨⟨fun _ => trivial, fun _ => ?_⟩, ready.live, ?_⟩
      · exact ⟨serves.own, serves.one, serves.apart⟩
      · intro busy isBusy
        obtain rfl : accepted = busy := Option.some.inj isBusy
        exact ready.current accepted (by rw [isRegistering]; rfl)
  · next succeeds accepted isCreating =>
    obtain rfl := Option.some.inj taken
    exact create_spec serves ready isCreating rfl rfl rfl rfl rfl
  · cases taken

end Main

theorem servesOwn_initial : ServesOwn system.initial where
  own _ member := by
    cases member
  one :=
    rfl
  apart _ _ _ _ present := by
    cases present

theorem ready_initial : Ready system.initial where
  live _ member := by
    cases member
  current _ isBusy := by
    cases isBusy

/-- Connections lose their handlers exactly by steps that are not allowed. -/
theorem misserved_exactly :
    system.BadExactlyOutside StartsInTime
      (fun state => ¬ ServesOwn state) := by
  refine System.BadExactlyOutside.of_invariant Ready
    ⟨not_not_intro servesOwn_initial, ready_initial⟩ ?_
  intro state next action events good ready taken
  have serves : ServesOwn state := not_not.mp good
  rw [not_iff_not]
  cases isHandler : action.handler? with
  | none =>
      simp only [system, isHandler, Option.map_eq_some_iff,
        Prod.mk.injEq] at taken
      obtain ⟨after, moved, rfl, -⟩ := taken
      exact main_preserves serves ready moved
  | some i =>
      simp only [system, isHandler, Option.bind_eq_some_iff] at taken
      obtain ⟨handler, present, moved⟩ := taken
      obtain ⟨servesNext, readyNext⟩ :=
        handler_preserves serves ready present (taken_of_handlerStep moved)
      refine ⟨⟨fun _ => ?_, fun _ => servesNext⟩, readyNext⟩
      cases action with
      | accept | register | create =>
          cases isHandler
      | start | receive | readFails | disconnect | close =>
          trivial

/--
As long as every handler reads the variable before the next `accept` stores to
it, every connection is served by one handler, its own; a step leads to a
state in which that fails exactly if it is an `accept` that is too early, or a
`pthread_create` that fails.
-/
theorem handlers_serveOwn
    (trace : List Event)
    (state : State)
    (reaches : (system.guarded StartsInTime).Reaches trace state) :
    ServesOwn state ∧
      ∀ action next events,
        system.step? state action = some (next, events) →
          (ServesOwn next ↔ StartsInTime state action) := by
  obtain ⟨serves, exactly⟩ := misserved_exactly trace state reaches
  refine ⟨not_not.mp serves, ?_⟩
  intro action next events taken
  exact not_iff_not.mp (exactly action next events taken)

/-- Each of two handlers starts before the next `accept`. -/
def earlyStart : List Action :=
  [.accept (some 4), .register, .create true, .start 0, .accept (some 5),
    .register, .create true, .start 1]

/-- Both handlers serve their own connection. -/
theorem handlers_serveOwn_earlyStart :
    ∃ trace state,
      (system.guarded StartsInTime).Reaches trace state ∧
        state.handlers =
          [{ accepted := 4, phase := .serving (some 4) },
            { accepted := 5, phase := .serving (some 5) }] ∧
        ServesOwn state := by
  obtain ⟨trace, state, reaches, observed⟩ :=
    System.Reaches.exists_of_run?
      (by decide +kernel :
        ((system.guarded StartsInTime).run?
            (system.guarded StartsInTime).initial earlyStart).any
          (fun outcome => decide (
            outcome.1.handlers =
              [{ accepted := 4, phase := .serving (some 4) },
                { accepted := 5, phase := .serving (some 5) }])) = true)
  exact ⟨trace, state, reaches, of_decide_eq_true observed,
    (handlers_serveOwn trace state reaches).1⟩

/-- The second connection is accepted before the first handler starts. -/
def lateStart : List Action :=
  [.accept (some 4), .register, .create true, .accept (some 5), .register,
    .create true, .start 0, .start 1]

/-- Both handlers serve the second connection. -/
theorem not_servesOwn_lateStart :
    ¬ ∀ trace state, system.Reaches trace state →
      ∀ handler ∈ state.handlers, ∀ sockfd,
        handler.phase = .serving sockfd → sockfd = some handler.accepted := by
  intro always
  obtain ⟨trace, state, reaches, observed⟩ :=
    System.Reaches.exists_of_run?
      (by decide +kernel :
        (system.run? system.initial lateStart).any
          (fun outcome => decide (
            outcome.1.handlers =
              [{ accepted := 4, phase := .serving (some 5) },
                { accepted := 5, phase := .serving (some 5) }])) = true)
  have isFirst :
      { accepted := 4, phase := .serving (some 5) } ∈ state.handlers := by
    rw [of_decide_eq_true observed]
    exact List.mem_cons_self
  have wrong := always trace state reaches _ isFirst (some 5) rfl
  simp at wrong

end CsPrimer.ChatServer.Threads
