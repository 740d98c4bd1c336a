import CsPrimer.PxShm.MessageLog

namespace CsPrimer.PxShm

open Library

/-!
# What the steps of the message log do

Reservations are numbered in the order in which `nput` moved, and position `k`
has the slot at `place k`.  A step moves tokens between the semaphores and the
processes, which weights account for, and it moves at most one message
forward.
-/

section Events

variable {nclients : Nat}

def Event.accepted? : Event nclients → Option (Message nclients)
  | .accepted message =>
      some message
  | _ =>
      none

def Event.reserved? : Event nclients → Option (Message nclients)
  | .reserved message =>
      some message
  | _ =>
      none

def Event.printed? : Event nclients → Option (Text nclients)
  | .printed _ text =>
      some text
  | _ =>
      none

/-- The messages whose `sem_trywait` on `nempty` succeeded. -/
def acceptedIn (trace : List (Event nclients)) : List (Message nclients) :=
  trace.filterMap Event.accepted?

/-- The messages in the order of their reservations. -/
def reservedIn (trace : List (Event nclients)) : List (Message nclients) :=
  trace.filterMap Event.reserved?

/-- The strings the server has printed. -/
def printsIn (trace : List (Event nclients)) : List (Text nclients) :=
  trace.filterMap Event.printed?

@[simp]
theorem acceptedIn_append
    (first second : List (Event nclients)) :
    acceptedIn (first ++ second) = acceptedIn first ++ acceptedIn second :=
  List.filterMap_append

@[simp]
theorem reservedIn_append
    (first second : List (Event nclients)) :
    reservedIn (first ++ second) = reservedIn first ++ reservedIn second :=
  List.filterMap_append

@[simp]
theorem printsIn_append
    (first second : List (Event nclients)) :
    printsIn (first ++ second) = printsIn first ++ printsIn second :=
  List.filterMap_append

@[simp]
theorem acceptedIn_accepted (message : Message nclients) :
    acceptedIn [.accepted message] = [message] :=
  rfl

@[simp]
theorem acceptedIn_reserved (message : Message nclients) :
    acceptedIn [.reserved message] = [] :=
  rfl

@[simp]
theorem reservedIn_accepted (message : Message nclients) :
    reservedIn [.accepted message] = [] :=
  rfl

@[simp]
theorem reservedIn_reserved (message : Message nclients) :
    reservedIn [.reserved message] = [message] :=
  rfl

@[simp]
theorem printsIn_printed (offset : Nat) (text : Text nclients) :
    printsIn [.printed offset text] = [text] :=
  rfl

@[simp]
theorem printsIn_released (offset : Nat) :
    printsIn [(.released offset : Event nclients)] = [] :=
  rfl

/-- A message was copied to an offset that was not released since. -/
def FreshCopy
    (trace : List (Event nclients))
    (offset : Nat)
    (message : Message nclients) : Prop :=
  ∃ before after,
    trace = before ++ .copied offset message :: after ∧
      .released offset ∉ after

/-- Later events that do not release the offset keep the copy fresh. -/
theorem FreshCopy.append
    {trace events : List (Event nclients)}
    {offset : Nat}
    {message : Message nclients}
    (fresh : FreshCopy trace offset message)
    (kept : .released offset ∉ events) :
    FreshCopy (trace ++ events) offset message := by
  obtain ⟨before, after, rfl, notReleased⟩ := fresh
  refine ⟨before, after ++ events, by simp, ?_⟩
  simp [notReleased, kept]

/-- A copy that has just ended is fresh. -/
theorem FreshCopy.last
    (trace : List (Event nclients))
    (offset : Nat)
    (message : Message nclients) :
    FreshCopy (trace ++ [.copied offset message]) offset message :=
  ⟨trace, [], rfl, by simp⟩

end Events

/-- The offset of the slot of a position. -/
def place (position : Nat) : Nat :=
  position % nmsg * msgSize

/-- Positions less than a ring apart have different slots. -/
theorem place_ne
    {first second : Nat}
    (later : first < second)
    (near : second < first + nmsg) :
    place first ≠ place second := by
  simp only [place, nmsg, msgSize] at near ⊢
  omega

/-- Within one ring, positions with the same slot are equal. -/
theorem place_inj
    {start first second : Nat}
    (firstNear : start ≤ first ∧ first < start + nmsg)
    (secondNear : start ≤ second ∧ second < start + nmsg)
    (same : place first = place second) :
    first = second := by
  rcases Nat.lt_trichotomy first second with less | isEqual | greater
  · exact absurd same (place_ne less (by omega))
  · exact isEqual
  · exact absurd same.symm (place_ne greater (by omega))

namespace Client

/-- Holds `mutex`. -/
def crit (process : Client) : Nat :=
  match process.pc with
  | .loadSlot | .loadOffset _ | .loadNput _ | .storeNput _ _
  | .resetNput _ | .postMutex _ => 1
  | _ => 0

/-- Has taken a token of `nempty` without having moved `nput`. -/
def held (process : Client) : Nat :=
  match process.pc with
  | .waitMutex | .loadSlot | .loadOffset _ | .loadNput _
  | .storeNput _ _ => 1
  | _ => 0

/-- Has reserved a slot whose `nstroed` token it has not posted. -/
def unposted (process : Client) : Nat :=
  match process.pc with
  | .resetNput _ | .postMutex _ | .copyFirst _ | .copyRest _
  | .postNstroed => 1
  | _ => 0

/-- Has moved `nput` to the end of `msgoff`. -/
def resetting (process : Client) : Nat :=
  match process.pc with
  | .resetNput _ => 1
  | _ => 0

/-- The offset of a reserved slot whose copy has not ended. -/
def owns? (process : Client) : Option Nat :=
  match process.pc with
  | .resetNput offset | .postMutex offset | .copyFirst offset
  | .copyRest offset => some offset
  | _ => none

/-- Holds `noverflowmutex`. -/
def counting (process : Client) : Nat :=
  match process.pc with
  | .loadOverflow | .storeOverflow _ | .postOverflow => 1
  | _ => 0

/-- May have moved `nput` for the message of this iteration. -/
def Past (process : Client) : Prop :=
  match process.pc with
  | .resetNput _ | .postMutex _ | .copyFirst _ | .copyRest _
  | .postNstroed | .increment => True
  | _ => False

/-- May have reserved a slot for the message of an iteration. -/
def Reserved (process : Client) (index : Nat) : Prop :=
  index < process.index ∨ (index = process.index ∧ process.Past)

/-- Has taken a token for the message of an iteration, but no slot. -/
def Holds (process : Client) (index : Nat) : Prop :=
  process.held = 1 ∧ index = process.index

/-- Has yet to end the copy of its message of an iteration to an offset. -/
def Owns (process : Client) (index offset : Nat) : Prop :=
  process.owns? = some offset ∧ index = process.index

/-- What a client in the critical section knows about `nput`. -/
def Ok
    {nclients : Nat}
    (shared : Shared nclients)
    (process : Client) : Prop :=
  match process.pc with
  | .loadOffset slot => slot = shared.nput ∧ shared.nput < nmsg
  | .loadNput offset =>
      offset = shared.nput * msgSize ∧ shared.nput < nmsg
  | .storeNput offset nput =>
      offset = shared.nput * msgSize ∧ shared.nput < nmsg ∧
        nput = shared.nput
  | .resetNput _ => shared.nput = nmsg
  | _ => True

/-- A client in the middle of its copy has stored the first part. -/
def Half
    {nclients : Nat}
    (sender : Fin nclients)
    (shared : Shared nclients)
    (process : Client) : Prop :=
  match process.pc with
  | .copyRest offset =>
      (shared.msgdata offset).first = some (sender, process.index)
  | _ => True

/-- `nput` is only reset inside the critical section. -/
theorem resetting_eq_zero
    (process : Client)
    (outside : process.crit = 0) :
    process.resetting = 0 := by
  obtain ⟨pc, index⟩ := process
  cases pc with
  | resetNput offset =>
      simp [crit] at outside
  | _ =>
      rfl

/-- What a client knows about `nput` only depends on `nput`. -/
theorem Ok.frame
    {nclients : Nat}
    {before after : Shared nclients}
    {process : Client}
    (ok : process.Ok before)
    (kept : process.crit = 1 → after.nput = before.nput) :
    process.Ok after := by
  obtain ⟨pc, index⟩ := process
  cases pc with
  | loadOffset | loadNput | storeNput | resetNput =>
      simpa only [Ok, kept rfl] using ok
  | _ =>
      trivial

/-- The first part of a copy stays where the client has stored it. -/
theorem Half.frame
    {nclients : Nat}
    {sender : Fin nclients}
    {before after : Shared nclients}
    {process : Client}
    (half : process.Half sender before)
    (kept : ∀ offset, process.owns? = some offset →
      after.msgdata offset = before.msgdata offset) :
    process.Half sender after := by
  obtain ⟨pc, index⟩ := process
  cases pc with
  | copyRest offset =>
      simpa only [Half, kept offset rfl] using half
  | _ =>
      trivial

end Client

namespace Server

/-- Holds `mutex`. -/
def crit (process : Server) : Nat :=
  match process.pc with
  | .loadOffset | .print | .advance | .postMutex => 1
  | _ => 0

/-- Has taken an `nstroed` token without having printed a slot for it. -/
def token (process : Server) : Nat :=
  match process.pc with
  | .waitMutex | .loadOffset | .print => 1
  | _ => 0

/-- Has printed a slot whose `nempty` token it has not posted. -/
def debt (process : Server) : Nat :=
  match process.pc with
  | .advance | .postMutex | .postNempty => 1
  | _ => 0

/-- Holds `noverflowmutex`. -/
def counting (process : Server) : Nat :=
  match process.pc with
  | .loadOverflow | .postOverflow => 1
  | _ => 0

/-- What the server knows after it has printed a number of slots. -/
def Ok
    (printed : Nat)
    (process : Server) : Prop :=
  match process.pc with
  | .print => process.index = printed % nmsg ∧ process.offset = place printed
  | .advance =>
      ∃ last, printed = last + 1 ∧ process.index = last % nmsg ∧
        process.offset = place last
  | .postMutex | .postNempty =>
      ∃ last, printed = last + 1 ∧ process.index = printed % nmsg ∧
        process.offset = place last
  | _ => process.index = printed % nmsg

end Server

/-- What one step of a client changes in the counters. -/
structure ClientEffect
    {nclients : Nat}
    (sender : Fin nclients)
    (before after : Shared nclients)
    (process next : Client)
    (events : List (Event nclients)) : Prop where
  ok :
    next.Ok after
  half :
    next.Half sender after
  mutex :
    after.mutex + next.crit = before.mutex + process.crit
  noverflowmutex :
    after.noverflowmutex + next.counting =
      before.noverflowmutex + process.counting
  nempty :
    after.nempty + next.held + (reservedIn events).length =
      before.nempty + process.held
  nstroed :
    after.nstroed + next.unposted =
      before.nstroed + process.unposted + (reservedIn events).length
  nput :
    after.nput % nmsg = (before.nput + (reservedIn events).length) % nmsg
  wraps :
    after.nput < nmsg + next.resetting ∨
      (after.nput = before.nput ∧ next.resetting = process.resetting)
  msgoff :
    after.msgoff = before.msgoff
  outside :
    process.crit = 0 → after.nput = before.nput
  silent :
    printsIn events = [] ∧ ∀ offset, .released offset ∉ events

open Client in
/-- Every step of a client has the effect its weights account for. -/
theorem client_effect
    {nclients : Nat}
    {nloop : Int}
    {sender : Fin nclients}
    {before after : Shared nclients}
    {process next : Client}
    {events : List (Event nclients)}
    (ok : process.Ok before)
    (room : process.crit = 1 → process.resetting = 0 → before.nput < nmsg)
    (layout : before.msgoff = fun index => index.val * msgSize)
    (taken :
      client nloop sender before process = some (after, next, events)) :
    ClientEffect sender before after process next events := by
  obtain ⟨pc, index⟩ := process
  cases pc with
  | testLoop =>
      by_cases more : index < nloop
      · simp only [client, if_pos more, Option.some.injEq,
          Prod.mk.injEq] at taken
        obtain ⟨rfl, rfl, rfl⟩ := taken
        constructor <;>
          simp [Ok, Half, crit, counting, held, unposted, resetting, reservedIn,
            printsIn]
      · simp only [client, if_neg more, Option.some.injEq,
          Prod.mk.injEq] at taken
        obtain ⟨rfl, rfl, rfl⟩ := taken
        constructor <;>
          simp [Ok, Half, crit, counting, held, unposted, resetting, reservedIn,
            printsIn]
  | tryWait =>
      cases available : semWait before.nempty with
      | none =>
          simp only [client, available, Option.some.injEq,
            Prod.mk.injEq] at taken
          obtain ⟨rfl, rfl, rfl⟩ := taken
          constructor <;>
            simp [Ok, Half, crit, counting, held, unposted, resetting,
              reservedIn, printsIn]
      | some tokens =>
          have enough := semWait_eq_some.mp available
          simp only [client, available, Option.some.injEq,
            Prod.mk.injEq] at taken
          obtain ⟨rfl, rfl, rfl⟩ := taken
          constructor <;>
            simp [Ok, Half, crit, counting, held, unposted, resetting,
              reservedIn, printsIn, Event.reserved?, Event.printed?, enough]
          rfl
  | waitOverflow | waitMutex =>
      obtain ⟨tokens, available, outcome⟩ := Option.map_eq_some_iff.mp taken
      have enough := semWait_eq_some.mp available
      simp only [Prod.mk.injEq] at outcome
      obtain ⟨rfl, rfl, rfl⟩ := outcome
      constructor <;>
        simp [Ok, Half, crit, counting, held, unposted, resetting, reservedIn,
          printsIn, enough]
  | loadSlot =>
      have less := room rfl rfl
      simp only [client, Option.some.injEq, Prod.mk.injEq] at taken
      obtain ⟨rfl, rfl, rfl⟩ := taken
      constructor <;>
        simp [Ok, Half, crit, counting, held, unposted, resetting, reservedIn,
          printsIn]
      exact less
  | loadOffset slot =>
      obtain ⟨rfl, less⟩ := ok
      obtain ⟨offset, found, outcome⟩ := Option.map_eq_some_iff.mp taken
      simp only [Shared.offsetAt, less, dite_true, layout,
        Option.some.injEq] at found
      simp only [Prod.mk.injEq] at outcome
      obtain ⟨rfl, rfl, rfl⟩ := outcome
      constructor <;>
        simp [Ok, Half, crit, counting, held, unposted, resetting, reservedIn,
          printsIn, found]
      exact less
  | storeNput offset nput =>
      obtain ⟨rfl, less, rfl⟩ := ok
      by_cases wraps : nmsg ≤ before.nput + 1
      · simp only [client, if_pos wraps, Option.some.injEq,
          Prod.mk.injEq] at taken
        obtain ⟨rfl, rfl, rfl⟩ := taken
        constructor <;>
          simp [Ok, Half, crit, counting, held, unposted, resetting, reservedIn,
            printsIn, Event.reserved?, Event.printed?]
        · omega
        · omega
      · simp only [client, if_neg wraps, Option.some.injEq,
          Prod.mk.injEq] at taken
        obtain ⟨rfl, rfl, rfl⟩ := taken
        constructor <;>
          simp [Ok, Half, crit, counting, held, unposted, resetting, reservedIn,
            printsIn, Event.reserved?, Event.printed?]
        omega
  | resetNput offset =>
      simp only [Ok] at ok
      simp only [client, Option.some.injEq, Prod.mk.injEq] at taken
      obtain ⟨rfl, rfl, rfl⟩ := taken
      constructor <;>
        simp [Ok, Half, crit, counting, held, unposted, resetting, reservedIn,
          printsIn, ok]
  | copyRest offset =>
      simp only [client, Option.some.injEq, Prod.mk.injEq] at taken
      obtain ⟨rfl, rfl, rfl⟩ := taken
      constructor <;>
        simp [Ok, Half, crit, counting, held, unposted, resetting, reservedIn,
          printsIn, Event.reserved?, Event.printed?]
      rfl
  | returned =>
      simp [client] at taken
  | _ =>
      simp only [client, Option.some.injEq, Prod.mk.injEq] at taken
      obtain ⟨rfl, rfl, rfl⟩ := taken
      constructor <;>
        simp_all [Ok, Half, crit, counting, held, unposted, resetting,
          reservedIn, printsIn, semPost]

/-- What one step of a client does with its message and its slot. -/
inductive ClientMove
    {nclients : Nat}
    (sender : Fin nclients)
    (before after : Shared nclients)
    (process next : Client)
    (events : List (Event nclients)) : Prop where
  | stays
      (silent : events = [])
      (sameData : after.msgdata = before.msgdata)
      (sameSlot : next.owns? = process.owns?)
      (sameIndex : next.index = process.index)
      (sameHeld : next.held = process.held)
      (past : process.Past → next.Past)
  | increments
      (silent : events = [])
      (sameData : after.msgdata = before.msgdata)
      (ownsNothing : process.owns? = none ∧ next.owns? = none)
      (nextIndex : next.index = process.index + 1)
      (holdsNothing : process.held = 0 ∧ next.held = 0)
  | accepts
      (accepted : events = [.accepted (sender, process.index)])
      (sameData : after.msgdata = before.msgdata)
      (ownsNothing : process.owns? = none ∧ next.owns? = none)
      (sameIndex : next.index = process.index)
      (takes : process.held = 0 ∧ next.held = 1)
      (fresh : ¬ process.Past)
  | reserves
      (reserved : events = [.reserved (sender, process.index)])
      (sameData : after.msgdata = before.msgdata)
      (owns :
        process.owns? = none ∧
          next.owns? = some (before.nput * msgSize))
      (inside : process.crit = 1 ∧ process.resetting = 0)
      (sameIndex : next.index = process.index)
      (gives : process.held = 1 ∧ next.held = 0)
      (past : ¬ process.Past ∧ next.Past)
  | fills
      (offset : Nat)
      (silent : events = [])
      (stored :
        after.msgdata =
          Function.update before.msgdata offset
            { before.msgdata offset with
              first := some (sender, process.index) })
      (owns : process.owns? = some offset ∧ next.owns? = some offset)
      (sameIndex : next.index = process.index)
      (holdsNothing : process.held = 0 ∧ next.held = 0)
      (past : process.Past ∧ next.Past)
  | copies
      (offset : Nat)
      (copied : events = [.copied offset (sender, process.index)])
      (stored :
        process.Half sender before →
          after.msgdata =
            Function.update before.msgdata offset
              (Text.whole (sender, process.index)))
      (owns : process.owns? = some offset ∧ next.owns? = none)
      (outside : process.crit = 0)
      (sameIndex : next.index = process.index)
      (holdsNothing : process.held = 0 ∧ next.held = 0)
      (past : process.Past ∧ next.Past)

open Client in
/-- Every step of a client is one of these moves. -/
theorem client_move
    {nclients : Nat}
    {nloop : Int}
    {sender : Fin nclients}
    {before after : Shared nclients}
    {process next : Client}
    {events : List (Event nclients)}
    (ok : process.Ok before)
    (taken :
      client nloop sender before process = some (after, next, events)) :
    ClientMove sender before after process next events := by
  obtain ⟨pc, index⟩ := process
  cases pc with
  | testLoop =>
      by_cases more : index < nloop <;>
        simp only [client, more, if_true, if_false, Option.some.injEq,
          Prod.mk.injEq] at taken <;>
        obtain ⟨rfl, rfl, rfl⟩ := taken <;>
        exact .stays rfl rfl rfl rfl rfl False.elim
  | tryWait =>
      cases available : semWait before.nempty with
      | none =>
          simp only [client, available, Option.some.injEq,
            Prod.mk.injEq] at taken
          obtain ⟨rfl, rfl, rfl⟩ := taken
          exact .stays rfl rfl rfl rfl rfl False.elim
      | some tokens =>
          simp only [client, available, Option.some.injEq,
            Prod.mk.injEq] at taken
          obtain ⟨rfl, rfl, rfl⟩ := taken
          exact .accepts rfl rfl ⟨rfl, rfl⟩ rfl ⟨rfl, rfl⟩ id
  | waitOverflow | waitMutex =>
      obtain ⟨tokens, -, outcome⟩ := Option.map_eq_some_iff.mp taken
      simp only [Prod.mk.injEq] at outcome
      obtain ⟨rfl, rfl, rfl⟩ := outcome
      exact .stays rfl rfl rfl rfl rfl False.elim
  | loadOffset slot =>
      obtain ⟨offset, -, outcome⟩ := Option.map_eq_some_iff.mp taken
      simp only [Prod.mk.injEq] at outcome
      obtain ⟨rfl, rfl, rfl⟩ := outcome
      exact .stays rfl rfl rfl rfl rfl False.elim
  | storeNput offset nput =>
      obtain ⟨rfl, -, rfl⟩ := ok
      by_cases wraps : nmsg ≤ before.nput + 1 <;>
        simp only [client, wraps, if_true, if_false, Option.some.injEq,
          Prod.mk.injEq] at taken <;>
        obtain ⟨rfl, rfl, rfl⟩ := taken <;>
        exact .reserves rfl rfl ⟨rfl, rfl⟩ ⟨rfl, rfl⟩ rfl ⟨rfl, rfl⟩
          ⟨id, trivial⟩
  | copyFirst offset =>
      simp only [client, Option.some.injEq, Prod.mk.injEq] at taken
      obtain ⟨rfl, rfl, rfl⟩ := taken
      exact .fills offset rfl rfl ⟨rfl, rfl⟩ rfl ⟨rfl, rfl⟩
        ⟨trivial, trivial⟩
  | copyRest offset =>
      simp only [client, Option.some.injEq, Prod.mk.injEq] at taken
      obtain ⟨rfl, rfl, rfl⟩ := taken
      refine .copies offset rfl ?_ ⟨rfl, rfl⟩ rfl rfl ⟨rfl, rfl⟩
        ⟨trivial, trivial⟩
      intro half
      simp only [Half] at half
      simp only [half, Text.whole]
  | postOverflow =>
      simp only [client, Option.some.injEq, Prod.mk.injEq] at taken
      obtain ⟨rfl, rfl, rfl⟩ := taken
      exact .stays rfl rfl rfl rfl rfl False.elim
  | increment =>
      simp only [client, Option.some.injEq, Prod.mk.injEq] at taken
      obtain ⟨rfl, rfl, rfl⟩ := taken
      exact .increments rfl rfl ⟨rfl, rfl⟩ rfl ⟨rfl, rfl⟩
  | returned =>
      simp [client] at taken
  | _ =>
      simp only [client, Option.some.injEq, Prod.mk.injEq] at taken
      obtain ⟨rfl, rfl, rfl⟩ := taken
      exact .stays rfl rfl rfl rfl rfl id

/-- A client only writes to the slot it owns. -/
theorem ClientMove.frame
    {nclients : Nat}
    {sender : Fin nclients}
    {before after : Shared nclients}
    {process next : Client}
    {events : List (Event nclients)}
    (move : ClientMove sender before after process next events)
    (half : process.Half sender before)
    {offset : Nat}
    (other : process.owns? ≠ some offset) :
    after.msgdata offset = before.msgdata offset := by
  cases move with
  | stays _ sameData | increments _ sameData | accepts _ sameData
  | reserves _ sameData =>
      rw [sameData]
  | fills target _ stored owns =>
      have different : offset ≠ target := by
        rintro rfl
        exact other owns.1
      rw [stored, Function.update_of_ne different]
  | copies target _ stored owns =>
      have different : offset ≠ target := by
        rintro rfl
        exact other owns.1
      rw [stored half, Function.update_of_ne different]

/-- What one step of the server changes in the counters. -/
structure ServerEffect
    {nclients : Nat}
    (printed : Nat)
    (before after : Shared nclients)
    (process next : Server)
    (events : List (Event nclients)) : Prop where
  ok :
    next.Ok (printed + (printsIn events).length)
  mutex :
    after.mutex + next.crit = before.mutex + process.crit
  noverflowmutex :
    after.noverflowmutex + next.counting =
      before.noverflowmutex + process.counting
  nempty :
    after.nempty + next.debt =
      before.nempty + process.debt + (printsIn events).length
  nstroed :
    after.nstroed + next.token + (printsIn events).length =
      before.nstroed + process.token
  frame :
    after.nput = before.nput ∧ after.msgoff = before.msgoff ∧
      after.msgdata = before.msgdata
  silent :
    acceptedIn events = [] ∧ reservedIn events = []
  copiesNothing :
    ∀ offset message, .copied offset message ∉ events

/-- What one step of the server does with the slot it prints. -/
inductive ServerMove
    {nclients : Nat}
    (printed : Nat)
    (shared : Shared nclients)
    (process next : Server)
    (events : List (Event nclients)) : Prop where
  | stays
      (silent : printsIn events = [] ∧ ∀ offset, .released offset ∉ events)
      (sameToken : next.token = process.token)
      (sameDebt : next.debt = process.debt)
  | takes
      (waits : process.pc = .waitNstroed)
      (silent : events = [])
  | prints
      (shown :
        events =
          [.printed (place printed) (shared.msgdata (place printed))])
      (usesToken : process.token = 1 ∧ next.token = 0)
      (makesDebt : process.debt = 0 ∧ next.debt = 1)
  | releases
      (last : Nat)
      (isLast : printed = last + 1)
      (released : events = [.released (place last)])
      (paysDebt : process.debt = 1 ∧ next.debt = 0)
      (noToken : next.token = 0)

open Server in
/-- Every step of the server has its effect and is one of these moves. -/
theorem server_effect
    {nclients : Nat}
    {printed : Nat}
    {before after : Shared nclients}
    {process next : Server}
    {events : List (Event nclients)}
    (ok : process.Ok printed)
    (layout : before.msgoff = fun index => index.val * msgSize)
    (taken : server before process = some (after, next, events)) :
    ServerEffect printed before after process next events ∧
      ServerMove printed before process next events := by
  obtain ⟨pc, index, offset, lastnoverflow, temp⟩ := process
  cases pc with
  | waitNstroed =>
      obtain ⟨tokens, available, outcome⟩ := Option.map_eq_some_iff.mp taken
      have enough := semWait_eq_some.mp available
      simp only [Prod.mk.injEq] at outcome
      obtain ⟨rfl, rfl, rfl⟩ := outcome
      refine ⟨?_, .takes rfl rfl⟩
      constructor <;>
        simp_all [Ok, crit, counting, token, debt, acceptedIn, reservedIn,
          printsIn]
  | waitMutex | waitOverflow =>
      obtain ⟨tokens, available, outcome⟩ := Option.map_eq_some_iff.mp taken
      have enough := semWait_eq_some.mp available
      simp only [Prod.mk.injEq] at outcome
      obtain ⟨rfl, rfl, rfl⟩ := outcome
      refine ⟨?_, .stays ⟨rfl, by simp⟩ rfl rfl⟩
      constructor <;>
        simp_all [Ok, crit, counting, token, debt, acceptedIn, reservedIn,
          printsIn]
  | loadOffset =>
      obtain ⟨offset, found, outcome⟩ := Option.map_eq_some_iff.mp taken
      have isIndex : index = printed % nmsg := ok
      have inBounds : index < nmsg :=
        isIndex ▸ Nat.mod_lt printed (by decide)
      simp only [Shared.offsetAt, inBounds, dite_true, layout,
        Option.some.injEq] at found
      simp only [Prod.mk.injEq] at outcome
      obtain ⟨rfl, rfl, rfl⟩ := outcome
      refine ⟨?_, .stays ⟨rfl, by simp⟩ rfl rfl⟩
      constructor <;>
        simp [Ok, crit, counting, token, debt, acceptedIn, reservedIn, printsIn,
          place, ← isIndex, ← found]
  | print =>
      obtain ⟨rfl, rfl⟩ := ok
      simp only [server, Option.some.injEq, Prod.mk.injEq] at taken
      obtain ⟨rfl, rfl, rfl⟩ := taken
      refine ⟨?_, .prints rfl ⟨rfl, rfl⟩ ⟨rfl, rfl⟩⟩
      constructor <;>
        simp [Ok, crit, counting, token, debt, acceptedIn, reservedIn, printsIn,
          Event.accepted?, Event.reserved?, Event.printed?]
  | advance =>
      obtain ⟨last, rfl, rfl, rfl⟩ := ok
      simp only [server, Option.some.injEq, Prod.mk.injEq] at taken
      obtain ⟨rfl, rfl, rfl⟩ := taken
      refine ⟨?_, .stays ⟨rfl, by simp⟩ rfl rfl⟩
      constructor <;>
        simp [Ok, crit, counting, token, debt, acceptedIn, reservedIn, printsIn]
  | postNempty =>
      obtain ⟨last, rfl, rfl, rfl⟩ := ok
      simp only [server, Option.some.injEq, Prod.mk.injEq] at taken
      obtain ⟨rfl, rfl, rfl⟩ := taken
      refine ⟨?_, .releases last rfl rfl ⟨rfl, rfl⟩ rfl⟩
      constructor <;>
        simp [Ok, crit, counting, token, debt, acceptedIn, reservedIn, printsIn,
          semPost, Event.accepted?, Event.reserved?, Event.printed?]
      rfl
  | testOverflow =>
      have isIndex : index = printed % nmsg := ok
      by_cases changed : temp ≠ lastnoverflow
      · simp only [server, if_pos changed, Option.some.injEq,
          Prod.mk.injEq] at taken
        obtain ⟨rfl, rfl, rfl⟩ := taken
        refine ⟨?_, .stays ⟨rfl, by simp⟩ rfl rfl⟩
        constructor <;>
          simp [Ok, crit, counting, token, debt, acceptedIn, reservedIn,
            printsIn, Event.accepted?, Event.reserved?, Event.printed?]
        exact isIndex
      · simp only [server, if_neg changed, Option.some.injEq,
          Prod.mk.injEq] at taken
        obtain ⟨rfl, rfl, rfl⟩ := taken
        refine ⟨?_, .stays ⟨rfl, by simp⟩ rfl rfl⟩
        constructor <;>
          simp [Ok, crit, counting, token, debt, acceptedIn, reservedIn,
            printsIn, isIndex]
  | _ =>
      simp only [server, Option.some.injEq, Prod.mk.injEq] at taken
      obtain ⟨rfl, rfl, rfl⟩ := taken
      refine ⟨?_, .stays ⟨rfl, by simp⟩ rfl rfl⟩
      constructor <;>
        simp_all [Ok, crit, counting, token, debt, acceptedIn, reservedIn,
          printsIn, semPost]

/-- A step of the system is a step of one client or of the server. -/
theorem system_step_cases
    {nclients : Nat}
    {nloop : Fin nclients → Int}
    {state next : State nclients}
    {action : Action nclients}
    {events : List (Event nclients)}
    (taken : (system nloop).step? state action = some (next, events)) :
    (∃ sender after process, action = .client sender ∧
        client (nloop sender) sender state.shared (state.clients sender) =
          some (after, process, events) ∧
        next =
          { state with
            shared := after
            clients := Function.update state.clients sender process }) ∨
      (∃ after process, action = .server ∧
        server state.shared state.server = some (after, process, events) ∧
        next = { state with shared := after, server := process }) := by
  cases action with
  | client sender =>
      obtain ⟨⟨after, process, _⟩, stepped, outcome⟩ :=
        Option.map_eq_some_iff.mp taken
      simp only [Prod.mk.injEq] at outcome
      obtain ⟨rfl, rfl⟩ := outcome
      exact .inl ⟨sender, after, process, rfl, stepped, rfl⟩
  | server =>
      obtain ⟨⟨after, process, _⟩, stepped, outcome⟩ :=
        Option.map_eq_some_iff.mp taken
      simp only [Prod.mk.injEq] at outcome
      obtain ⟨rfl, rfl⟩ := outcome
      exact .inr ⟨after, process, rfl, stepped, rfl⟩

end CsPrimer.PxShm
