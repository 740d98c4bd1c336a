import CsPrimer.ChatServer.ClientTableCorrect
import CsPrimer.ChatServer.Threads

namespace CsPrimer.ChatServer

open Library

/-!
# When the table of the chat server is indexed out of bounds

Nothing compares `clnt_cnt` with `MAX_CLNT`, so a full table takes no further
client.  With a full table the loop that closes the gap also reads the cell
behind the last one, unless the leaving client is the last one listed.
-/

section Loops

variable
  {clntCnt clntSockfd i : Nat}
  {vec : Vector Nat maxClnt}
  {table : Table}

theorem registerClnt_isSome_iff :
    (registerClnt table clntSockfd).isSome ↔ table.clntCnt < maxClnt := by
  unfold registerClnt store
  split
  case isTrue inBounds => simp [inBounds]
  case isFalse outside => simp [outside]

/-- The shift of a full table reads behind it. -/
theorem shiftClnts_isSome_iff
    (fits : clntCnt ≤ maxClnt) :
    (shiftClnts clntCnt vec i).isSome ↔
      clntCnt < maxClnt ∨ clntCnt - 1 ≤ i := by
  fun_induction shiftClnts clntCnt vec i with
  | case1 vec i more missing =>
      have outside : maxClnt ≤ i + 1 + 1 := by simpa using missing
      simp only [Option.isSome_none, Bool.false_eq_true, false_iff]
      omega
  | case2 vec i more sockfd found missing =>
      have inBounds : i + 1 < maxClnt := by omega
      simp [store, inBounds] at missing
  | case3 vec i more sockfd found stored isStored inductionHypothesis =>
      obtain ⟨inBounds, -⟩ := Vector.getElem?_eq_some_iff.mp found
      rw [inductionHypothesis]
      omega
  | case4 vec i done =>
      simp only [Option.isSome_some, true_iff]
      omega

/-- The search only fails where the shift does. -/
theorem searchClnt_isSome_iff
    (fits : clntCnt ≤ maxClnt) :
    (searchClnt clntCnt vec clntSockfd i).isSome ↔
      clntCnt < maxClnt ∨
        ∀ p, i ≤ p → p < clntCnt - 1 → vec[p]? ≠ some clntSockfd := by
  fun_induction searchClnt clntCnt vec clntSockfd i with
  | case1 i more missing =>
      have inBounds : i < maxClnt := Nat.lt_of_lt_of_le more fits
      simp [inBounds] at missing
  | case2 i more found =>
      rw [shiftClnts_isSome_iff fits]
      refine or_congr_right ⟨fun last p behind inside => ?_, fun absent => ?_⟩
      · omega
      · by_contra inside
        exact absent i (Nat.le_refl i) (Nat.not_le.mp inside) found
  | case3 i more sockfd found other inductionHypothesis =>
      rw [inductionHypothesis]
      refine or_congr_right ⟨fun absent p behind inside => ?_,
        fun absent p behind => absent p (Nat.le_of_succ_le behind)⟩
      rcases Nat.eq_or_lt_of_le behind with rfl | later
      · rw [found]
        exact fun same => other (Option.some.inj same).symm
      · exact absent p later inside
  | case4 i done =>
      simp only [Option.isSome_some, true_iff]
      exact .inr fun p behind inside => by omega

/-- A full table can only do without the client it lists last. -/
theorem removeClnt_isSome_iff
    (fits : table.clntCnt ≤ maxClnt) :
    (removeClnt table clntSockfd).isSome ↔
      table.clntCnt < maxClnt ∨
        clntSockfd ∉ table.listed.take (table.clntCnt - 1) := by
  rw [removeClnt, Option.isSome_map, searchClnt_isSome_iff fits]
  refine or_congr_right ?_
  simp only [List.mem_iff_getElem?, List.getElem?_take,
    Table.listed_getElem?, not_exists]
  constructor
  · intro absent p found
    by_cases inside : p < table.clntCnt - 1
    · rw [if_pos inside, if_pos (by omega)] at found
      exact absent p (Nat.zero_le p) inside found
    · rw [if_neg inside] at found
      cases found
  · intro absent p _ inside found
    refine absent p ?_
    rw [if_pos inside, if_pos (by omega), found]

/-- The loop of `send_msg` stays inside a table that is not overfull. -/
theorem sendMsg_isSome
    (fits : table.clntCnt ≤ maxClnt)
    (selfSockfd : Nat) :
    (sendMsg table selfSockfd 0).isSome := by
  rw [sendMsg_eq_filter fits]
  rfl

end Loops

namespace Threads

/-- What a critical section does to the table. -/
inductive Access where
  | insert (clntSockfd : Nat)
  | remove (clntSockfd : Nat)
  deriving Repr, DecidableEq

namespace Access

/-- The table behind a critical section, unless it leaves `clnt_sockfdvec`. -/
def apply (table : Table) : Access → Option Table
  | insert clntSockfd => registerClnt table clntSockfd
  | remove clntSockfd => removeClnt table clntSockfd

/--
The table has room for the client, or need not move the cell behind the last
one.
-/
def HasRoom (table : Table) : Access → Prop
  | insert _ => table.clntCnt < maxClnt
  | remove clntSockfd =>
      table.clntCnt < maxClnt ∨
        clntSockfd ∉ table.listed.take (table.clntCnt - 1)

instance (table : Table) : DecidablePred (HasRoom table)
  | insert _ => inferInstanceAs (Decidable (_ < _))
  | remove _ => inferInstanceAs (Decidable (_ ∨ _))

theorem apply_isSome_iff
    {table : Table}
    (fits : table.clntCnt ≤ maxClnt)
    (access : Access) :
    (access.apply table).isSome ↔ access.HasRoom table := by
  cases access with
  | insert clntSockfd => exact registerClnt_isSome_iff
  | remove clntSockfd => exact removeClnt_isSome_iff fits

end Access

/-- The critical section that an action enters. -/
def State.access? (state : State) : Action → Option Access
  | .register =>
      match state.position with
      | .registering _ => state.clntSockfd.map .insert
      | _ => none
  | .disconnect i =>
      match state.handlers[i]? with
      | some { accepted := _, phase := .serving (some sockfd) } =>
          if sockfd ∈ state.opened then
            some (.remove sockfd)
          else
            none
      | _ => none
  | _ => none

/--
The server with its first access outside of `clnt_sockfdvec`: it ends in a
state of which nothing is known.
-/
def watched : System (Option State) Action Event where
  initial := some system.initial
  step? state? action :=
    match state? with
    | none => none
    | some state =>
        match state.access? action with
        | some access =>
            match access.apply state.table with
            | none => some (none, [])
            | some _ =>
                (system.step? state action).map fun (next, events) =>
                  (some next, events)
        | none =>
            (system.step? state action).map fun (next, events) =>
              (some next, events)

/-- The table has room for every critical section that is entered. -/
def HasRoom
    (state? : Option State)
    (action : Action) : Prop :=
  ∀ state ∈ state?, ∀ access ∈ state.access? action,
    access.HasRoom state.table

instance (state? : Option State) (action : Action) :
    Decidable (HasRoom state? action) :=
  inferInstanceAs (Decidable (∀ state ∈ state?, ∀ access ∈ _, _))

/-- Has not taken its client out of the table. -/
def Handler.counts (handler : Handler) : Bool :=
  match handler.phase with
  | .created | .serving _ => true
  | .closing _ | .returned _ => false

/-- A client that is in the table before its handler is there. -/
def Position.counts : Position → Bool
  | .creating _ => true
  | .accepting | .registering _ => false

/-- `clnt_cnt` is large enough for all that will be taken off it. -/
structure Counted (state : State) : Prop where
  fits :
    state.table.clntCnt ≤ maxClnt
  owed :
    state.handlers.countP Handler.counts + state.position.counts.toNat ≤
      state.table.clntCnt

section Steps

variable
  {state next : State}
  {action : Action}
  {events : List Event}
  {handler : Handler}
  {i : Nat}

/-- A handler that goes on counts as its new phase does. -/
theorem countP_goOn
    (present : state.handlers[i]? = some handler)
    (phase : Phase) :
    (state.goOn i handler phase).handlers.countP Handler.counts +
        (if handler.counts then 1 else 0) =
      state.handlers.countP Handler.counts +
        (if ({ handler with phase := phase } : Handler).counts then 1
          else 0) := by
  obtain ⟨inBounds, isHandler⟩ := List.getElem?_eq_some_iff.mp present
  have positive :
      handler.counts = true → 0 < state.handlers.countP Handler.counts :=
    fun counts =>
      List.countP_pos_iff.mpr ⟨handler, List.mem_of_getElem? present, counts⟩
  rw [State.goOn, List.countP_set inBounds, isHandler]
  cases isCounted : handler.counts with
  | false =>
      rw [if_neg Bool.false_ne_true, Nat.sub_zero, Nat.add_zero]
  | true =>
      have isPositive := positive isCounted
      simp only [if_true]
      omega

theorem counted_initial : Counted system.initial where
  fits := Nat.zero_le _
  owed := Nat.le_refl 0

/-- A handler that is about to leave has a client to take off. -/
theorem Counted.positive
    {sockfd : Nat}
    (counted : Counted state)
    (leaves : state.access? (.disconnect i) = some (.remove sockfd)) :
    0 < state.table.clntCnt := by
  simp only [State.access?] at leaves
  split at leaves
  case h_2 => cases leaves
  case h_1 accepted serving present =>
    have counts :
        0 < state.handlers.countP Handler.counts :=
      List.countP_pos_iff.mpr ⟨_, List.mem_of_getElem? present, rfl⟩
    have owed := counted.owed
    omega

theorem Counted.mainStep
    (counted : Counted state)
    (taken : Threads.mainStep state action = some next) :
    Counted next := by
  have owed := counted.owed
  unfold Threads.mainStep at taken
  split at taken
  · obtain rfl := Option.some.inj taken
    exact ⟨counted.fits, counted.owed⟩
  · next sockfd isAccepting =>
    rw [Option.ite_none_left_eq_some, Option.some.injEq] at taken
    obtain ⟨-, rfl⟩ := taken
    refine ⟨counted.fits, ?_⟩
    rw [isAccepting] at owed
    exact owed
  · next accepted isRegistering =>
    split at taken
    · cases taken
    · obtain ⟨table, isRegistered, rfl⟩ := Option.map_eq_some_iff.mp taken
      obtain ⟨-, isCount, fits⟩ := listed_registerClnt isRegistered
      refine ⟨fits, ?_⟩
      rw [isRegistering] at owed
      simp only [isCount]
      exact Nat.add_le_add_right owed 1
  · next succeeds accepted isCreating =>
    obtain rfl := Option.some.inj taken
    refine ⟨counted.fits, ?_⟩
    rw [isCreating] at owed
    cases succeeds with
    | true =>
        simp only [if_true, List.countP_append]
        exact owed
    | false =>
        exact Nat.le_of_succ_le owed
  · cases taken

/-- A handler that does not change the table counts as before. -/
theorem Counted.goOn
    {phase : Phase}
    (counted : Counted state)
    (present : state.handlers[i]? = some handler)
    (sameCounts :
      ({ handler with phase := phase } : Handler).counts = handler.counts)
    (sameTable : next.table = state.table)
    (samePosition : next.position = state.position)
    (goesOn : next.handlers = (state.goOn i handler phase).handlers) :
    Counted next := by
  have isCount := countP_goOn present phase
  have owed := counted.owed
  refine ⟨sameTable ▸ counted.fits, ?_⟩
  rw [goesOn, sameTable, samePosition]
  rw [sameCounts] at isCount
  omega

theorem Counted.handlerStep
    (counted : Counted state)
    (present : state.handlers[i]? = some handler)
    (taken : Threads.handlerStep state action i handler = some (next, events)) :
    Counted next := by
  unfold Threads.handlerStep at taken
  split at taken
  · next isCreated =>
    cases taken
    exact counted.goOn present (by simp [Handler.counts, isCreated]) rfl rfl
      rfl
  · simp only [Option.ite_none_right_eq_some, Option.map_eq_some_iff,
      Prod.mk.injEq] at taken
    obtain ⟨-, sockfds, -, rfl, -⟩ := taken
    exact counted
  · cases taken
    exact counted
  · next sockfd isServing =>
    simp only [Option.ite_none_right_eq_some, Option.map_eq_some_iff,
      Prod.mk.injEq] at taken
    obtain ⟨-, table, isRemoved, rfl, -⟩ := taken
    have isCount := clntCnt_removeClnt isRemoved
    have counts := countP_goOn present (.closing sockfd)
    have owed := counted.owed
    have fits := counted.fits
    simp only [Handler.counts, isServing, if_true, Bool.false_eq_true,
      if_false, Nat.add_zero] at counts
    constructor
    · simp only [isCount]
      omega
    · simp only [isCount, State.goOn] at counts ⊢
      omega
  · next sockfd isClosing =>
    cases taken
    exact counted.goOn present (by simp [Handler.counts, isClosing]) rfl rfl
      rfl
  · cases taken

theorem Counted.step
    (counted : Counted state)
    (taken : system.step? state action = some (next, events)) :
    Counted next := by
  cases isHandler : action.handler? with
  | none =>
      simp only [system, isHandler, Option.map_eq_some_iff,
        Prod.mk.injEq] at taken
      obtain ⟨after, moved, rfl, -⟩ := taken
      exact counted.mainStep moved
  | some i =>
      simp only [system, isHandler, Option.bind_eq_some_iff] at taken
      obtain ⟨handler, present, moved⟩ := taken
      exact counted.handlerStep present moved

/-- A step of the watched server is one of the server, or an overrun. -/
theorem watched_step
    {outcome : Option State}
    (taken : watched.step? (some state) action = some (outcome, events)) :
    (outcome = none ∧
        ∃ access ∈ state.access? action, access.apply state.table = none) ∨
      ((∃ next, outcome = some next ∧
          system.step? state action = some (next, events)) ∧
        ∀ access ∈ state.access? action,
          (access.apply state.table).isSome) := by
  simp only [watched] at taken
  split at taken
  · next access entered =>
    split at taken
    · next overruns =>
      cases taken
      exact .inl ⟨rfl, access, entered, overruns⟩
    · next table applied =>
      obtain ⟨⟨next, others⟩, moved, isOutcome⟩ :=
        Option.map_eq_some_iff.mp taken
      cases isOutcome
      refine .inr ⟨⟨next, rfl, moved⟩, ?_⟩
      intro other isOther
      obtain rfl := Option.some.inj (entered.symm.trans isOther)
      rw [applied]
      rfl
  · next outside =>
    obtain ⟨⟨next, others⟩, moved, isOutcome⟩ :=
      Option.map_eq_some_iff.mp taken
    cases isOutcome
    refine .inr ⟨⟨next, rfl, moved⟩, ?_⟩
    intro other isOther
    cases outside.symm.trans isOther

end Steps

/-- The state that is known keeps its count. -/
theorem counted_preserved
    {state? outcome : Option State}
    {action : Action}
    {events : List Event}
    (counted : ∀ state ∈ state?, Counted state)
    (taken : watched.step? state? action = some (outcome, events)) :
    ∀ next ∈ outcome, Counted next := by
  cases state? with
  | none =>
      cases taken
  | some state =>
      rcases watched_step taken with
        ⟨rfl, -⟩ | ⟨⟨next, rfl, moved⟩, -⟩
      · nofun
      · intro other isOther
        obtain rfl := Option.some.inj isOther
        exact (counted state rfl).step moved

theorem counted_of_reaches
    {trace : List Event}
    {state? : Option State}
    (reaches : watched.Reaches trace state?) :
    ∀ state ∈ state?, Counted state := by
  induction reaches with
  | initial =>
      intro state isInitial
      obtain rfl := Option.some.inj isInitial
      exact counted_initial
  | step earlier taken inductionHypothesis =>
      exact counted_preserved inductionHypothesis taken

/-- The table is left exactly by the steps it has no room for. -/
theorem overruns_exactly :
    watched.BadExactlyOutside HasRoom (fun state? => state? = none) := by
  refine System.BadExactlyOutside.of_invariant
    (fun state? => ∀ state ∈ state?, Counted state)
    ⟨nofun, counted_of_reaches .initial⟩ ?_
  intro state? outcome action events inside counted taken
  refine ⟨?_, counted_preserved counted taken⟩
  obtain ⟨state, rfl⟩ := Option.ne_none_iff_exists'.mp inside
  have roomIff :
      HasRoom (some state) action ↔
        ∀ access ∈ state.access? action,
          (access.apply state.table).isSome := by
    simp only [HasRoom, Option.mem_some_iff, forall_eq',
      Access.apply_isSome_iff (counted state rfl).fits]
  rw [roomIff]
  rcases watched_step taken with
    ⟨rfl, access, entered, overruns⟩ | ⟨⟨next, rfl, moved⟩, applied⟩
  · refine ⟨fun _ room => ?_, fun _ => rfl⟩
    have applied := room access entered
    rw [overruns] at applied
    cases applied
  · exact ⟨nofun, fun outside => absurd applied outside⟩

/-- The accesses to the table that do not depend on how full it is. -/
structure InBounds (state : State) : Prop where
  count :
    state.table.clntCnt ≤ maxClnt
  sends :
    ∀ selfSockfd, (sendMsg state.table selfSockfd 0).isSome
  leaves :
    ∀ i sockfd,
      state.access? (.disconnect i) = some (.remove sockfd) →
        0 < state.table.clntCnt

theorem Counted.inBounds
    {state : State}
    (counted : Counted state) :
    InBounds state where
  count := counted.fits
  sends := sendMsg_isSome counted.fits
  leaves _ _ leaves := counted.positive leaves

/--
As long as the table has room for every client that is registered, and is not
full when a client leaves that is not the last one listed, no access is out of
bounds and `clnt_cnt` stays between 0 and `MAX_CLNT`; a step of such a run is
out of bounds exactly if it does not meet this condition.
-/
theorem clntSockfdvec_inBounds
    (trace : List Event)
    (state? : Option State)
    (reaches : (watched.guarded HasRoom).Reaches trace state?) :
    (∃ state, state? = some state ∧ InBounds state) ∧
      ∀ action outcome events,
        watched.step? state? action = some (outcome, events) →
          (outcome = none ↔ ¬ HasRoom state? action) := by
  obtain ⟨inside, exactly⟩ := overruns_exactly trace state? reaches
  obtain ⟨state, rfl⟩ := Option.ne_none_iff_exists'.mp inside
  have counted := counted_of_reaches reaches.of_guarded state rfl
  exact ⟨⟨state, rfl, counted.inBounds⟩, exactly⟩

/-- Two clients connect, and the first one leaves. -/
def firstLeaves : List Action :=
  [.accept (some 4), .register, .create true, .start 0, .accept (some 5),
    .register, .create true, .start 1, .disconnect 0, .close 0]

/-- The table stays inside its bounds. -/
theorem clntSockfdvec_inBounds_firstLeaves :
    ∃ trace state,
      (watched.guarded HasRoom).Reaches trace (some state) ∧
        state.table.clntCnt = 1 ∧ InBounds state := by
  obtain ⟨trace, state?, reaches, observed⟩ :=
    System.Reaches.exists_of_run?
      (by decide +kernel :
        ((watched.guarded HasRoom).run? (watched.guarded HasRoom).initial
            firstLeaves).any
          (fun outcome => decide (
            ∀ state ∈ outcome.1, state.table.clntCnt = 1)) = true)
  obtain ⟨⟨state, rfl, inBounds⟩, -⟩ :=
    clntSockfdvec_inBounds trace state? reaches
  exact ⟨trace, state, reaches, of_decide_eq_true observed state rfl,
    inBounds⟩

/-- `main` with a connection it is about to register. -/
def State.registering (state : State) (sockfd : Nat) : State :=
  { state with
    position := .registering sockfd
    clntSockfd := some sockfd
    opened := state.opened ++ [sockfd] }

theorem reaches_registering
    {trace : List Event}
    {state : State}
    {sockfd : Nat}
    (reaches : watched.Reaches trace (some state))
    (isAccepting : state.position = .accepting)
    (isNew : sockfd ∉ state.opened) :
    watched.Reaches trace (some (state.registering sockfd)) := by
  have taken :
      watched.step? (some state) (.accept (some sockfd)) =
        some (some (state.registering sockfd), []) := by
    simp [watched, State.access?, system, Action.handler?, mainStep,
      isAccepting, isNew, State.registering]
  simpa using reaches.step taken

/-- Any number of clients up to `MAX_CLNT` can be in the table. -/
theorem exists_reaches_clntCnt
    {n : Nat}
    (fits : n ≤ maxClnt) :
    ∃ trace state,
      watched.Reaches trace (some state) ∧
        state.position = .accepting ∧ state.table.clntCnt = n ∧
        ∀ sockfd ∈ state.opened, sockfd < n := by
  induction n with
  | zero =>
      exact ⟨[], system.initial, .initial, rfl, rfl, nofun⟩
  | succ n inductionHypothesis =>
      obtain ⟨trace, state, reaches, isAccepting, isCount, below⟩ :=
        inductionHypothesis (Nat.le_of_succ_le fits)
      have accepted :=
        reaches_registering reaches isAccepting
          fun member => Nat.lt_irrefl n (below n member)
      obtain ⟨table, isRegistered⟩ :=
        Option.isSome_iff_exists.mp
          (registerClnt_isSome_iff.mpr (isCount ▸ fits) :
            (registerClnt state.table n).isSome)
      have registers :
          watched.step? (some (state.registering n)) .register =
            some (some { state.registering n with
              position := .creating n, table := table }, []) := by
        simp [watched, State.access?, State.registering, Access.apply,
          isRegistered, system, Action.handler?, mainStep]
      have creates :
          watched.step? (some { state.registering n with
              position := .creating n, table := table }) (.create true) =
            some (some { state.registering n with
              position := .accepting, table := table
              served := state.served ++ [n]
              handlers := state.handlers ++ [⟨n, .created⟩] }, []) := by
        simp [watched, State.access?, State.registering, system,
          Action.handler?, mainStep]
      refine ⟨_, _, (accepted.step registers).step creates, rfl, ?_, ?_⟩
      · have isNext := (listed_registerClnt isRegistered).2.1
        rw [isCount] at isNext
        exact isNext
      · intro sockfd member
        rcases List.mem_append.mp member with isOld | isNew
        · exact Nat.lt_succ_of_lt (below sockfd isOld)
        · exact List.mem_singleton.mp isNew ▸ n.lt_succ_self

/-- The client with the number 257 is stored behind the table. -/
theorem clntSockfdvec_overruns :
    ¬ ∀ trace state?, watched.Reaches trace state? → state? ≠ none := by
  intro inside
  obtain ⟨trace, state, reaches, isAccepting, isCount, below⟩ :=
    exists_reaches_clntCnt (Nat.le_refl maxClnt)
  have accepted :=
    reaches_registering reaches isAccepting
      fun member => Nat.lt_irrefl maxClnt (below maxClnt member)
  have isFull : registerClnt state.table maxClnt = none := by
    rw [← Option.not_isSome_iff_eq_none, registerClnt_isSome_iff, isCount]
    exact Nat.lt_irrefl maxClnt
  have overruns :
      watched.step? (some (state.registering maxClnt)) .register =
        some (none, []) := by
    simp [watched, State.access?, State.registering, Access.apply, isFull]
  exact inside _ none (accepted.step overruns) rfl

end Threads

end CsPrimer.ChatServer
