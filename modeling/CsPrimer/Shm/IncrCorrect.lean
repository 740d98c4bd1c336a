import CsPrimer.Shm.Incr

namespace CsPrimer.Shm

open Library

/-!
# When the counter is exact

As long as no process loads the counter while the other one is about to store
it, every value is claimed by one process, and all values below the counter
are claimed.  The first load that breaks this takes a value that the other
process has as well, and both of them print it.
-/

namespace Loop

/-- The process has loaded this value and is going to print it. -/
def holds (value : Nat) (loop : Loop) : Nat :=
  match loop.position with
  | .storing loaded | .printing loaded => if loaded = value then 1 else 0
  | _ => 0

/-- The number of values the process has loaded. -/
def loaded (loop : Loop) : Nat :=
  match loop.position with
  | .storing _ | .printing _ | .posting => loop.i + 1
  | _ => loop.i

/-- The number of values the process has printed. -/
def printed (loop : Loop) : Nat :=
  match loop.position with
  | .posting => loop.i + 1
  | _ => loop.i

/-- The process has taken a token. -/
def inside (loop : Loop) : Nat :=
  match loop.position with
  | .loading | .storing _ | .printing _ | .posting => 1
  | _ => 0

/-- What a process knows about its loop variable. -/
def Ok (nloop : Nat) (loop : Loop) : Prop :=
  match loop.position with
  | .testing => loop.i ≤ nloop
  | .returned => loop.i = nloop
  | _ => loop.i < nloop

theorem loaded_le
    {nloop : Nat}
    {loop : Loop}
    (ok : loop.Ok nloop) :
    loop.loaded ≤ nloop := by
  cases isPosition : loop.position <;>
    simp only [Ok, isPosition] at ok <;>
    simp only [loaded, isPosition] <;>
    omega

end Loop

/-- What a step of a process can do. -/
inductive Taken
    (placement : Placement)
    (nloop : Nat)
    (state : State)
    (pid : Process) : State → List Event → Prop where
  | goesOn
      (isTesting : (state.loops pid).position = .testing)
      (more : (state.loops pid).i < nloop) :
      Taken placement nloop state pid
        (state.goTo pid { state.loops pid with position := .waiting }) []
  | leaves
      (isTesting : (state.loops pid).position = .testing)
      (done : ¬ (state.loops pid).i < nloop) :
      Taken placement nloop state pid
        (state.goTo pid { state.loops pid with position := .returned }) []
  | waits
      {tokens : Nat}
      (isWaiting : (state.loops pid).position = .waiting)
      (free : state.mutex placement pid = tokens + 1) :
      Taken placement nloop state pid
        ((state.setMutex placement pid tokens).goTo pid
          { state.loops pid with position := .loading }) []
  | loads
      (isLoading : (state.loops pid).position = .loading) :
      Taken placement nloop state pid
        (state.goTo pid
          { state.loops pid with position := .storing state.ptr }) []
  | stores
      {value : Nat}
      (isStoring : (state.loops pid).position = .storing value)
      (fits : value + 1 ≤ intMax) :
      Taken placement nloop state pid
        ({ state with ptr := value + 1 }.goTo pid
          { state.loops pid with position := .printing value }) []
  | prints
      {value : Nat}
      (isPrinting : (state.loops pid).position = .printing value) :
      Taken placement nloop state pid
        (state.goTo pid { state.loops pid with position := .posting })
        [.printed pid value]
  | posts
      (isPosting : (state.loops pid).position = .posting) :
      Taken placement nloop state pid
        ((state.setMutex placement pid
            (state.mutex placement pid + 1)).goTo pid
          { position := .testing, i := (state.loops pid).i + 1 }) []

theorem taken_of_step?
    {placement : Placement}
    {nloop : Nat}
    {state next : State}
    {pid : Process}
    {events : List Event}
    (taken : step? placement nloop state pid = some (next, events)) :
    Taken placement nloop state pid next events := by
  cases isPosition : (state.loops pid).position with
  | testing =>
      by_cases more : (state.loops pid).i < nloop
      · simp only [step?, isPosition, more, if_true, Option.some.injEq,
          Prod.mk.injEq] at taken
        obtain ⟨rfl, rfl⟩ := taken
        exact .goesOn isPosition more
      · simp only [step?, isPosition, more, if_false, Option.some.injEq,
          Prod.mk.injEq] at taken
        obtain ⟨rfl, rfl⟩ := taken
        exact .leaves isPosition more
  | waiting =>
      simp only [step?, isPosition, Option.map_eq_some_iff,
        Prod.mk.injEq] at taken
      obtain ⟨tokens, free, rfl, rfl⟩ := taken
      exact .waits isPosition (semWait_eq_some.mp free)
  | loading =>
      simp only [step?, isPosition, Option.some.injEq, Prod.mk.injEq]
        at taken
      obtain ⟨rfl, rfl⟩ := taken
      exact .loads isPosition
  | storing value =>
      by_cases fits : value + 1 ≤ intMax
      · simp only [step?, isPosition, if_pos fits, Option.some.injEq,
          Prod.mk.injEq] at taken
        obtain ⟨rfl, rfl⟩ := taken
        exact .stores isPosition fits
      · simp only [step?, isPosition, if_neg fits, reduceCtorEq] at taken
  | printing value =>
      simp only [step?, isPosition, Option.some.injEq, Prod.mk.injEq]
        at taken
      obtain ⟨rfl, rfl⟩ := taken
      exact .prints isPosition
  | posting =>
      simp only [step?, isPosition, Option.some.injEq, Prod.mk.injEq]
        at taken
      obtain ⟨rfl, rfl⟩ := taken
      exact .posts isPosition
  | returned =>
      simp only [step?, isPosition, reduceCtorEq] at taken

/-- How many processes print a value, or are going to. -/
def claims (value : Nat) (trace : List Event) (state : State) : Nat :=
  (values trace).count value + total (Loop.holds value) state.loops

/-- The semaphore admits a process when it has a token for it. -/
def Admitting (placement : Placement) (state : State) : Prop :=
  match placement with
  | .stack => ∀ pid, state.stack pid + (state.loops pid).inside = 1
  | .named => state.named + total Loop.inside state.loops = 1

/-- What holds in all runs. -/
structure Invariant
    (placement : Placement)
    (nloop : Nat)
    (trace : List Event)
    (state : State) : Prop where
  ok :
    ∀ pid, (state.loops pid).Ok nloop
  admitting :
    Admitting placement state
  isInt :
    state.ptr ≤ intMax
  counted :
    trace.length = total Loop.printed state.loops

/-- What holds in addition as long as the loads are exclusive. -/
structure Claimed (trace : List Event) (state : State) : Prop where
  alone :
    total Loop.pending state.loops ≤ 1
  current :
    ∀ pid value, (state.loops pid).position = .storing value →
      value = state.ptr
  loaded :
    state.ptr + total Loop.pending state.loops =
      total Loop.loaded state.loops
  claimed :
    ∀ value, claims value trace state =
      if value < state.ptr + total Loop.pending state.loops then 1 else 0

namespace Claimed

variable
  {trace : List Event}
  {state : State}
  {pid : Process}

theorem initial (placement : Placement) (nloop : Nat) :
    Claimed [] (system placement nloop).initial := by
  have none :
      ∀ weight : Loop → Nat, weight Loop.initial = 0 →
        total weight (system placement nloop).initial.loops = 0 :=
    fun weight isZero => total_const_zero isZero
  constructor
  · rw [none _ rfl]
    exact Nat.zero_le 1
  · intro pid value impossible
    cases impossible
  · rw [none _ rfl, none _ rfl]
    rfl
  · intro value
    rw [claims, none _ rfl, none _ rfl]
    rfl

/-- A step that loads, stores and prints nothing leaves the claims alone. -/
theorem quiet
    {next : State}
    {loop : Loop}
    (claimed : Claimed trace state)
    (samePtr : next.ptr = state.ptr)
    (moved : next.loops = Function.update state.loops pid loop)
    (notPending : loop.pending = 0 ∧ (state.loops pid).pending = 0)
    (sameLoaded : loop.loaded = (state.loops pid).loaded)
    (holdsNothing :
      ∀ value, loop.holds value = 0 ∧ (state.loops pid).holds value = 0) :
    Claimed trace next := by
  have pending := total_update Loop.pending state.loops pid loop
  have loaded := total_update Loop.loaded state.loops pid loop
  rw [← moved, notPending.1, notPending.2] at pending
  rw [← moved, sameLoaded] at loaded
  have keeps := claimed.alone
  have sums := claimed.loaded
  constructor
  · omega
  · intro other value isStoring
    rw [samePtr]
    rw [moved] at isStoring
    by_cases isPid : other = pid
    · subst isPid
      rw [Function.update_self] at isStoring
      have isPending := notPending.1
      simp [Loop.pending, isStoring] at isPending
    · rw [Function.update_of_ne isPid] at isStoring
      exact claimed.current other value isStoring
  · omega
  · intro value
    have holds := total_update (Loop.holds value) state.loops pid loop
    obtain ⟨newNone, oldNone⟩ := holdsNothing value
    rw [← moved, newNone, oldNone] at holds
    have before := claimed.claimed value
    unfold claims at before ⊢
    have samePending :
        total Loop.pending next.loops = total Loop.pending state.loops := by
      omega
    rw [samePtr, samePending, ← before]
    omega

/-- An exclusive load claims the current value of the counter. -/
theorem load
    {next : State}
    {loop : Loop}
    (claimed : Claimed trace state)
    (isLoading : (state.loops pid).position = .loading)
    (exclusive : Exclusive state pid)
    (samePtr : next.ptr = state.ptr)
    (moved : next.loops = Function.update state.loops pid loop)
    (isStoring : loop.position = .storing state.ptr)
    (sameTurn : loop.i = (state.loops pid).i) :
    Claimed trace next := by
  have others := exclusive isLoading
  have nonePending : total Loop.pending state.loops = 0 := by
    refine total_eq_zero_iff.mpr fun other => ?_
    by_cases isPid : other = pid
    · simp [isPid, Loop.pending, isLoading]
    · exact others other isPid
  have pending := total_update Loop.pending state.loops pid loop
  have loaded := total_update Loop.loaded state.loops pid loop
  simp only [← moved, Loop.pending, isLoading, isStoring] at pending
  simp only [← moved, Loop.loaded, isLoading, isStoring] at loaded
  have sums := claimed.loaded
  have onePending : total Loop.pending next.loops = 1 := by
    omega
  constructor
  · omega
  · intro other value otherStoring
    rw [samePtr]
    rw [moved] at otherStoring
    by_cases isPid : other = pid
    · subst isPid
      rw [Function.update_self, isStoring] at otherStoring
      exact (Position.storing.inj otherStoring).symm
    · rw [Function.update_of_ne isPid] at otherStoring
      exact claimed.current other value otherStoring
  · omega
  · intro value
    have holds := total_update (Loop.holds value) state.loops pid loop
    simp only [← moved, Loop.holds, isLoading, isStoring] at holds
    have before := claimed.claimed value
    unfold claims at before ⊢
    rw [samePtr, onePending]
    rw [nonePending] at before
    split at before <;> split at holds <;> split <;> omega

/-- The store of the one pending value counts it. -/
theorem store
    {next : State}
    {loop : Loop}
    {value : Nat}
    (claimed : Claimed trace state)
    (isStoring : (state.loops pid).position = .storing value)
    (stored : next.ptr = value + 1)
    (moved : next.loops = Function.update state.loops pid loop)
    (isPrinting : loop.position = .printing value)
    (sameTurn : loop.i = (state.loops pid).i) :
    Claimed trace next := by
  have isCurrent := claimed.current pid value isStoring
  have keeps := claimed.alone
  have sums := claimed.loaded
  have pending := total_update Loop.pending state.loops pid loop
  have loaded := total_update Loop.loaded state.loops pid loop
  simp only [← moved, Loop.pending, isPrinting, isStoring] at pending
  simp only [← moved, Loop.loaded, isPrinting, isStoring] at loaded
  constructor
  · omega
  · intro other later otherStoring
    have noOther : (next.loops other).pending = 0 := by
      have bound := weight_le_total Loop.pending next.loops other
      omega
    simp [Loop.pending, otherStoring] at noOther
  · omega
  · intro claim
    have holds := total_update (Loop.holds claim) state.loops pid loop
    simp only [← moved, Loop.holds, isPrinting, isStoring] at holds
    have before := claimed.claimed claim
    unfold claims at before ⊢
    have sameBound :
        next.ptr + total Loop.pending next.loops =
          state.ptr + total Loop.pending state.loops := by
      omega
    rw [sameBound, ← before]
    omega

/-- A value is printed by the process that holds it. -/
theorem print
    {next : State}
    {loop : Loop}
    {value : Nat}
    (claimed : Claimed trace state)
    (isPrinting : (state.loops pid).position = .printing value)
    (samePtr : next.ptr = state.ptr)
    (moved : next.loops = Function.update state.loops pid loop)
    (isPosting : loop.position = .posting)
    (sameTurn : loop.i = (state.loops pid).i) :
    Claimed (trace ++ [.printed pid value]) next := by
  have keeps := claimed.alone
  have sums := claimed.loaded
  have pending := total_update Loop.pending state.loops pid loop
  have loaded := total_update Loop.loaded state.loops pid loop
  simp only [← moved, Loop.pending, isPrinting, isPosting] at pending
  simp only [← moved, Loop.loaded, isPrinting, isPosting] at loaded
  constructor
  · omega
  · intro other later otherStoring
    rw [samePtr]
    rw [moved] at otherStoring
    by_cases isPid : other = pid
    · subst isPid
      rw [Function.update_self, isPosting] at otherStoring
      cases otherStoring
    · rw [Function.update_of_ne isPid] at otherStoring
      exact claimed.current other later otherStoring
  · omega
  · intro claim
    have holds := total_update (Loop.holds claim) state.loops pid loop
    simp only [← moved, Loop.holds, isPrinting, isPosting] at holds
    have before := claimed.claimed claim
    unfold claims at before ⊢
    have samePending :
        total Loop.pending next.loops = total Loop.pending state.loops := by
      omega
    have printed :
        (values (trace ++ [.printed pid value])).count claim =
          (values trace).count claim + if value = claim then 1 else 0 := by
      simp [values, List.count_singleton]
    rw [samePtr, samePending, ← before, printed]
    omega

/-- Every step with an exclusive load keeps the claims. -/
theorem preserved
    {placement : Placement}
    {nloop : Nat}
    {next : State}
    {events : List Event}
    (claimed : Claimed trace state)
    (exclusive : Exclusive state pid)
    (taken : step? placement nloop state pid = some (next, events)) :
    Claimed (trace ++ events) next := by
  cases taken_of_step? taken with
  | goesOn isTesting | leaves isTesting =>
      rw [List.append_nil]
      refine claimed.quiet rfl rfl ?_ ?_ ?_ <;>
        simp [Loop.pending, Loop.loaded, Loop.holds, isTesting]
  | waits isWaiting =>
      rw [List.append_nil]
      refine claimed.quiet (by simp) (by simp; rfl) ?_ ?_ ?_ <;>
        simp [Loop.pending, Loop.loaded, Loop.holds, isWaiting]
  | loads isLoading =>
      rw [List.append_nil]
      exact claimed.load isLoading exclusive rfl rfl rfl rfl
  | stores isStoring =>
      rw [List.append_nil]
      exact claimed.store isStoring rfl rfl rfl rfl
  | prints isPrinting =>
      exact claimed.print isPrinting rfl rfl rfl rfl
  | posts isPosting =>
      rw [List.append_nil]
      refine claimed.quiet (by simp) (by simp; rfl) ?_ ?_ ?_ <;>
        simp [Loop.pending, Loop.loaded, Loop.holds, isPosting]

end Claimed

/-- Tokens and processes inside change places. -/
theorem Admitting.step
    {placement : Placement}
    {state next : State}
    {pid : Process}
    {loop : Loop}
    (admitting : Admitting placement state)
    (moved : next.loops = Function.update state.loops pid loop)
    (kept : ∀ other, other ≠ pid → next.stack other = state.stack other)
    (exchanged :
      next.mutex placement pid + loop.inside =
        state.mutex placement pid + (state.loops pid).inside) :
    Admitting placement next := by
  cases placement with
  | stack =>
      intro other
      have before := admitting other
      by_cases isPid : other = pid
      · subst isPid
        rw [moved, Function.update_self]
        exact exchanged.trans before
      · rw [moved, Function.update_of_ne isPid, kept other isPid]
        exact before
  | named =>
      have before : state.named + total Loop.inside state.loops = 1 :=
        admitting
      have exchange :
          next.named + loop.inside =
            state.named + (state.loops pid).inside := exchanged
      have update := total_update Loop.inside state.loops pid loop
      change next.named + total Loop.inside next.loops = 1
      rw [moved]
      omega

namespace Invariant

variable
  {placement : Placement}
  {nloop : Nat}
  {trace : List Event}
  {state : State}
  {pid : Process}

theorem initial :
    Invariant placement nloop [] (system placement nloop).initial where
  ok _ :=
    Nat.zero_le nloop
  admitting := by
    cases placement with
    | stack =>
        exact fun _ => rfl
    | named =>
        rfl
  isInt :=
    Nat.zero_le intMax
  counted :=
    (total_const_zero rfl).symm

/-- A step is one of its process alone. -/
theorem step
    {next : State}
    {loop : Loop}
    {events : List Event}
    (invariant : Invariant placement nloop trace state)
    (moved : next.loops = Function.update state.loops pid loop)
    (ok : loop.Ok nloop)
    (kept : ∀ other, other ≠ pid → next.stack other = state.stack other)
    (exchanged :
      next.mutex placement pid + loop.inside =
        state.mutex placement pid + (state.loops pid).inside)
    (isInt : next.ptr ≤ intMax)
    (printed : loop.printed = (state.loops pid).printed + events.length) :
    Invariant placement nloop (trace ++ events) next where
  ok other := by
    rw [moved]
    by_cases isPid : other = pid
    · subst isPid
      rw [Function.update_self]
      exact ok
    · rw [Function.update_of_ne isPid]
      exact invariant.ok other
  admitting :=
    invariant.admitting.step moved kept exchanged
  isInt :=
    isInt
  counted := by
    have update := total_update Loop.printed state.loops pid loop
    have before := invariant.counted
    rw [List.length_append, moved]
    omega

theorem preserved
    {next : State}
    {events : List Event}
    (invariant : Invariant placement nloop trace state)
    (taken : step? placement nloop state pid = some (next, events)) :
    Invariant placement nloop (trace ++ events) next := by
  have ok := invariant.ok pid
  have isInt := invariant.isInt
  cases taken_of_step? taken with
  | goesOn isTesting more =>
      refine invariant.step rfl more (fun _ _ => rfl) ?_ isInt ?_ <;>
        simp [Loop.inside, Loop.printed, isTesting]
  | leaves isTesting done =>
      have isDone : (state.loops pid).i = nloop := by
        simp only [Loop.Ok, isTesting] at ok
        omega
      refine invariant.step rfl isDone (fun _ _ => rfl) ?_ isInt ?_ <;>
        simp [Loop.inside, Loop.printed, isTesting]
  | waits isWaiting free =>
      simp only [Loop.Ok, isWaiting] at ok
      refine invariant.step (by simp; rfl) ?_
        (fun other different => State.setMutex_stack different) ?_
        (by simpa using isInt) ?_ <;>
        simp [Loop.inside, Loop.printed, isWaiting, free, Loop.Ok, ok]
  | loads isLoading =>
      simp only [Loop.Ok, isLoading] at ok
      refine invariant.step rfl ok (fun _ _ => rfl) ?_ isInt ?_ <;>
        simp [Loop.inside, Loop.printed, isLoading]
  | stores isStoring fits =>
      simp only [Loop.Ok, isStoring] at ok
      refine invariant.step rfl ok (fun _ _ => rfl) ?_ fits ?_ <;>
        simp [Loop.inside, Loop.printed, isStoring]
  | prints isPrinting =>
      simp only [Loop.Ok, isPrinting] at ok
      refine invariant.step rfl ok (fun _ _ => rfl) ?_ isInt ?_ <;>
        simp [Loop.inside, Loop.printed, isPrinting]
  | posts isPosting =>
      simp only [Loop.Ok, isPosting] at ok
      have next : ({ position := .testing, i := (state.loops pid).i + 1 } :
          Loop).Ok nloop := Nat.succ_le_of_lt ok
      refine invariant.step (by simp) next
        (fun other different => State.setMutex_stack different) ?_
        (by simpa using isInt) ?_ <;>
        simp [Loop.inside, Loop.printed, isPosting]

end Invariant

section Doubled

variable
  {placement : Placement}
  {nloop : Nat}
  {trace events : List Event}
  {state next : State}
  {pid : Process}

/-- No claim is lost if the process of the step loses none. -/
theorem claims_step
    {value : Nat}
    {loop : Loop}
    (moved : next.loops = Function.update state.loops pid loop)
    (keeps :
      (values trace).count value + (state.loops pid).holds value ≤
        (values (trace ++ events)).count value + loop.holds value) :
    claims value trace state ≤ claims value (trace ++ events) next := by
  have update := total_update (Loop.holds value) state.loops pid loop
  unfold claims
  rw [moved]
  omega

/-- What a process has claimed it keeps, and prints. -/
theorem claims_le
    (value : Nat)
    (taken : step? placement nloop state pid = some (next, events)) :
    claims value trace state ≤ claims value (trace ++ events) next := by
  cases taken_of_step? taken with
  | goesOn isTesting | leaves isTesting =>
      refine claims_step rfl ?_
      simp [Loop.holds, isTesting]
  | waits isWaiting =>
      refine claims_step (by simp; rfl) ?_
      simp [Loop.holds, isWaiting]
  | loads isLoading =>
      refine claims_step rfl ?_
      simp [Loop.holds, isLoading]
  | stores isStoring =>
      refine claims_step rfl ?_
      simp [Loop.holds, isStoring]
  | prints isPrinting =>
      refine claims_step rfl ?_
      simp [Loop.holds, isPrinting, values, List.count_singleton]
  | posts isPosting =>
      refine claims_step (by simp; rfl) ?_
      simp [Loop.holds, isPosting]

/-- A load that is not exclusive takes a value that the other process has. -/
theorem doubled_of_load
    (claimed : Claimed trace state)
    (notExclusive : ¬ Exclusive state pid)
    (taken : step? placement nloop state pid = some (next, events)) :
    2 ≤ claims state.ptr (trace ++ events) next := by
  simp only [Exclusive, not_forall] at notExclusive
  obtain ⟨isLoading, other, different, isPending⟩ := notExclusive
  have otherHolds : (state.loops other).holds state.ptr = 1 := by
    cases isPosition : (state.loops other).position with
    | storing value =>
        simp [Loop.holds, isPosition,
          claimed.current other value isPosition]
    | _ =>
        simp [Loop.pending, isPosition] at isPending
  cases taken_of_step? taken with
  | loads =>
      have both :=
        pair_le_total (Loop.holds state.ptr)
          (Function.update state.loops pid
            { state.loops pid with position := .storing state.ptr })
          (Ne.symm different)
      rw [Function.update_self, Function.update_of_ne different,
        otherHolds] at both
      simp only [Loop.holds, if_true] at both
      exact Nat.le_trans both (Nat.le_add_left ..)
  | goesOn isOther | leaves isOther | waits isOther | stores isOther
  | prints isOther | posts isOther =>
      rw [isLoading] at isOther
      cases isOther

end Doubled

section Complete

variable
  {placement : Placement}
  {nloop : Nat}
  {trace : List Event}
  {state : State}

/-- Both processes have left their loops. -/
def Returned (state : State) : Prop :=
  ∀ pid, (state.loops pid).position = .returned

/-- The weight of two processes. -/
theorem total_eq_add (weight : Loop → Nat) (loops : Process → Loop) :
    total weight loops = weight (loops .parent) + weight (loops .child) := by
  change ∑ pid ∈ {Process.parent, Process.child}, weight (loops pid) = _
  rw [Finset.sum_insert (by decide), Finset.sum_singleton]

theorem returned_of_both
    (parent : (state.loops .parent).position = .returned)
    (child : (state.loops .child).position = .returned) :
    Returned state := by
  intro pid
  cases pid with
  | parent =>
      exact parent
  | child =>
      exact child

theorem stopped_of_returned (returned : Returned state) :
    Stopped placement nloop state := by
  intro pid
  simp only [step?, returned pid]

/-- Every claim has been printed in the end. -/
theorem claims_of_returned
    (returned : Returned state)
    (value : Nat) :
    claims value trace state = (values trace).count value := by
  have none : total (Loop.holds value) state.loops = 0 := by
    refine total_eq_zero_iff.mpr fun pid => ?_
    simp [Loop.holds, returned pid]
  rw [claims, none, Nat.add_zero]

theorem length_values : (values trace).length = trace.length :=
  List.length_map _

/-- With exclusive loads only, both loops together have counted exactly. -/
theorem Claimed.counted
    (claimed : Claimed trace state)
    (invariant : Invariant placement nloop trace state)
    (returned : Returned state) :
    Counted nloop trace state := by
  have weights :
      ∀ pid, (state.loops pid).pending = 0 ∧
        (state.loops pid).loaded = nloop := by
    intro pid
    have ok := invariant.ok pid
    simp only [Loop.Ok, returned pid] at ok
    simp [Loop.pending, Loop.loaded, returned pid, ok]
  have sums := claimed.loaded
  rw [total_eq_add, total_eq_add, (weights .parent).1, (weights .child).1,
    (weights .parent).2, (weights .child).2] at sums
  have isTotal : state.ptr = 2 * nloop := by omega
  refine ⟨List.perm_iff_count.mpr fun value => ?_, isTotal⟩
  have claimedOnce := claimed.claimed value
  rw [total_eq_add, (weights .parent).1, (weights .child).1,
    claims_of_returned returned, isTotal, Nat.add_zero] at claimedOnce
  rw [claimedOnce, List.nodup_range.count]
  simp only [List.mem_range]

/-- A process that cannot go on has left its loop, waits or would overflow. -/
theorem step?_eq_none
    {pid : Process}
    (isNone : step? placement nloop state pid = none) :
    (state.loops pid).position = .returned ∨
      ((state.loops pid).position = .waiting ∧
        state.mutex placement pid = 0) ∨
      ∃ value, (state.loops pid).position = .storing value ∧
        intMax < value + 1 := by
  cases isPosition : (state.loops pid).position with
  | testing =>
      simp only [step?, isPosition] at isNone
      split at isNone <;> cases isNone
  | waiting =>
      simp only [step?, isPosition, Option.map_eq_none_iff] at isNone
      exact .inr (.inl ⟨rfl, semWait_eq_none.mp isNone⟩)
  | storing value =>
      refine .inr (.inr ⟨value, rfl, ?_⟩)
      by_contra fits
      simp only [step?, isPosition, if_pos (Nat.le_of_not_lt fits),
        reduceCtorEq] at isNone
  | loading | printing value | posting =>
      simp only [step?, isPosition, reduceCtorEq] at isNone
  | returned =>
      exact .inl rfl

/-- An exact count is only possible when both loops have been left. -/
theorem Counted.returned
    (counted : Counted nloop trace state)
    (invariant : Invariant placement nloop trace state)
    (stopped : Stopped placement nloop state) :
    Returned state := by
  have length := counted.1.length_eq
  rw [length_values, List.length_range, invariant.counted, total_eq_add]
    at length
  have bounds :
      ∀ pid, (state.loops pid).printed ≤ nloop ∧
        ((state.loops pid).printed = nloop →
          (state.loops pid).position = .returned) := by
    intro pid
    have ok := invariant.ok pid
    rcases step?_eq_none (stopped pid) with
      isReturned | ⟨isWaiting, -⟩ | ⟨value, isStoring, -⟩
    · simp only [Loop.Ok, isReturned] at ok
      simp [Loop.printed, isReturned, ok]
    · simp only [Loop.Ok, isWaiting] at ok
      simp only [Loop.printed, isWaiting]
      omega
    · simp only [Loop.Ok, isStoring] at ok
      simp only [Loop.printed, isStoring]
      omega
  have parent := bounds .parent
  have child := bounds .child
  intro pid
  cases pid with
  | parent =>
      exact parent.2 (by omega)
  | child =>
      exact child.2 (by omega)

/-- With exclusive loads of values that fit, nothing but the ends stops. -/
theorem Claimed.returned
    (claimed : Claimed trace state)
    (invariant : Invariant placement nloop trace state)
    (fits : 2 * nloop ≤ intMax)
    (stopped : Stopped placement nloop state) :
    Returned state := by
  have sums := claimed.loaded
  have parentLoaded := Loop.loaded_le (invariant.ok .parent)
  have childLoaded := Loop.loaded_le (invariant.ok .child)
  rw [total_eq_add Loop.loaded] at sums
  have notStoring :
      ∀ pid value, (state.loops pid).position = .storing value →
        ¬ intMax < value + 1 := by
    intro pid value isStoring
    have isCurrent := claimed.current pid value isStoring
    have pending := weight_le_total Loop.pending state.loops pid
    simp only [Loop.pending, isStoring] at pending
    omega
  have outside : ∀ pid, (state.loops pid).inside = 0 := by
    intro pid
    rcases step?_eq_none (stopped pid) with
      isReturned | ⟨isWaiting, -⟩ | ⟨value, isStoring, overflows⟩
    · simp [Loop.inside, isReturned]
    · simp [Loop.inside, isWaiting]
    · exact absurd overflows (notStoring pid value isStoring)
  intro pid
  rcases step?_eq_none (stopped pid) with
    isReturned | ⟨-, noToken⟩ | ⟨value, isStoring, overflows⟩
  · exact isReturned
  · have admitting := invariant.admitting
    cases placement with
    | stack =>
        have token : state.stack pid + (state.loops pid).inside = 1 :=
          admitting pid
        have none : state.stack pid = 0 := noToken
        rw [outside pid] at token
        omega
    | named =>
        have token :
            state.named + total Loop.inside state.loops = 1 := admitting
        have none : state.named = 0 := noToken
        rw [total_eq_zero_iff.mpr outside] at token
        omega
  · exact absurd overflows (notStoring pid value isStoring)

end Complete

/-- What a run with exclusive loads has. -/
theorem claimed_of_guarded
    {placement : Placement}
    {nloop : Nat}
    {trace : List Event}
    {state : State}
    (reaches :
      ((system placement nloop).guarded Exclusive).Reaches trace state) :
    Claimed trace state := by
  induction reaches with
  | initial =>
      exact Claimed.initial placement nloop
  | step earlier taken inductionHypothesis =>
      obtain ⟨exclusive, moved⟩ := System.guarded_step?_eq_some.mp taken
      exact inductionHypothesis.preserved exclusive moved

/-- With one semaphore for both processes every load is exclusive. -/
theorem Invariant.exclusive
    {nloop : Nat}
    {trace : List Event}
    {state : State}
    (invariant : Invariant .named nloop trace state)
    (pid : Process) :
    Exclusive state pid := by
  intro isLoading other different
  have token : state.named + total Loop.inside state.loops = 1 :=
    invariant.admitting
  have both := pair_le_total Loop.inside state.loops different
  have ownInside : (state.loops pid).inside = 1 := by
    simp [Loop.inside, isLoading]
  cases isPosition : (state.loops other).position with
  | storing value =>
      have otherInside : (state.loops other).inside = 1 := by
        simp [Loop.inside, isPosition]
      omega
  | _ =>
      simp [Loop.pending, isPosition]

/-- What a run of `incr.c` has. -/
theorem claimed_of_named
    {nloop : Nat}
    {trace : List Event}
    {state : State}
    (reaches : (system .named nloop).Reaches trace state) :
    Invariant .named nloop trace state ∧ Claimed trace state := by
  induction reaches with
  | initial =>
      exact ⟨Invariant.initial, Claimed.initial .named nloop⟩
  | step earlier taken inductionHypothesis =>
      obtain ⟨invariant, claimed⟩ := inductionHypothesis
      exact ⟨invariant.preserved taken,
        claimed.preserved (invariant.exclusive _) taken⟩

/-- `incr.c` counts exactly whenever the counter can hold the number. -/
theorem counted_of_named
    {nloop : Nat}
    {trace : List Event}
    {state : State}
    (reaches : (system .named nloop).Reaches trace state)
    (stopped : Stopped .named nloop state)
    (fits : 2 * nloop ≤ intMax) :
    Counted nloop trace state := by
  obtain ⟨invariant, claimed⟩ := claimed_of_named reaches
  exact claimed.counted invariant (claimed.returned invariant fits stopped)

/--
A run that has stopped has counted exactly if and only if all its loads are
exclusive and the counter can hold the number.
-/
theorem counted_iff
    (placement : Placement)
    (nloop : Nat)
    (pids : List Process)
    (trace : List Event)
    (state : State)
    (ran :
      (system placement nloop).run? (system placement nloop).initial pids =
        some (state, trace))
    (stopped : Stopped placement nloop state) :
    Counted nloop trace state ↔
      (((system placement nloop).guarded Exclusive).run?
          (system placement nloop).initial pids).isSome ∧
        2 * nloop ≤ intMax := by
  have reaches := System.Reaches.of_run? ran
  have invariant : Invariant placement nloop trace state :=
    reaches.invariant Invariant.initial Invariant.preserved
  constructor
  · intro counted
    have returned := counted.returned invariant stopped
    refine ⟨?_, counted.2 ▸ invariant.isInt⟩
    rcases System.guarded_run?_cases Exclusive ran with
      all | ⟨before, pid, after, middle, events, later, split, upTo,
        violates, goesOn, rfl⟩
    · rw [all]
      rfl
    · obtain ⟨next, first, behind, taken, finished, rfl⟩ :=
        System.run?_cons_eq_some.mp goesOn
      have doubled :=
        doubled_of_load (claimed_of_guarded (.of_run? upTo)) violates taken
      have stillDoubled :
          2 ≤ claims middle.ptr ((events ++ first) ++ behind) state :=
        System.run?_preserves
          (fun atLeast moved => Nat.le_trans atLeast (claims_le _ moved))
          doubled finished
      rw [List.append_assoc, claims_of_returned returned,
        counted.1.count_eq] at stillDoubled
      have once :=
        List.nodup_iff_count.mp
          (List.nodup_range : (List.range (2 * nloop)).Nodup) middle.ptr
      omega
  · rintro ⟨guardedRan, fits⟩
    obtain ⟨⟨final, events⟩, all⟩ := Option.isSome_iff_exists.mp guardedRan
    have same := System.run?_of_guarded all
    rw [ran, Option.some.injEq, Prod.mk.injEq] at same
    obtain ⟨rfl, rfl⟩ := same
    have claimed := claimed_of_guarded (.of_run? all)
    exact claimed.counted invariant (claimed.returned invariant fits stopped)

/-- Both loops, one after the other. -/
def oneAfterTheOther (nloop : Nat) : List Process :=
  List.replicate (6 * nloop + 1) .child ++
    List.replicate (6 * nloop + 1) .parent

/-- The guarantee is met when the child is done before the parent begins. -/
theorem counted_iff_oneAfterTheOther :
    ∃ trace state,
      (system .stack 3).run? (system .stack 3).initial
          (oneAfterTheOther 3) = some (state, trace) ∧
        Counted 3 trace state := by
  obtain ⟨⟨state, trace⟩, ran, observed⟩ :=
    (Option.any_eq_true _ _).mp
      (by decide +kernel :
        ((system .stack 3).run? (system .stack 3).initial
          (oneAfterTheOther 3)).any
          (fun outcome => decide (
            (outcome.1.loops .parent).position = .returned ∧
              (outcome.1.loops .child).position = .returned)) = true)
  obtain ⟨parent, child⟩ := of_decide_eq_true observed
  have returned : Returned state := returned_of_both parent child
  refine ⟨trace, state, ran, ?_⟩
  rw [counted_iff .stack 3 _ trace state ran
    (stopped_of_returned returned)]
  exact ⟨by decide +kernel, by decide⟩

/-- Both processes have loaded the counter before one of them stores it. -/
def bothLoad : List Process :=
  List.replicate 3 .child ++ List.replicate 7 .parent ++
    List.replicate 4 .child

/-- With a semaphore each, both processes print 0. -/
theorem not_counted_bothLoad :
    ¬ ∀ nloop pids trace state,
      (system .stack nloop).run? (system .stack nloop).initial pids =
          some (state, trace) →
        Stopped .stack nloop state → Counted nloop trace state := by
  intro always
  obtain ⟨⟨state, trace⟩, ran, observed⟩ :=
    (Option.any_eq_true _ _).mp
      (by decide +kernel :
        ((system .stack 1).run? (system .stack 1).initial bothLoad).any
          (fun outcome => decide (
            (outcome.1.loops .parent).position = .returned ∧
              (outcome.1.loops .child).position = .returned ∧
              outcome.1.ptr = 1)) = true)
  obtain ⟨parent, child, isPtr⟩ := of_decide_eq_true observed
  have returned : Returned state := returned_of_both parent child
  have counted :=
    always 1 bothLoad trace state ran (stopped_of_returned returned)
  have impossible := counted.2
  rw [isPtr] at impossible
  omega

end CsPrimer.Shm
