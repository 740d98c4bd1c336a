import CsPrimer.Lock.TicketLock
import Mathlib.Data.Fintype.Card
import Mathlib.Data.List.Nodup
import Mathlib.Tactic.Ring

namespace CsPrimer.Lock.TicketLock

open Library

/-!
# The ticket lock is one processor's at a time

The processors with a ticket form a queue: one may have the lock, the others
spin, and their tickets count up from `head`.  The tickets of the queue differ
as long as it is no longer than there are tickets, and then `head` equals
`tail` only when nobody has one, so it does not matter that `cmpxchg` does not
see what happened in between.
-/

namespace RawTickets

variable
  {width : Nat}
  {tickets : RawTickets width}

@[simp]
theorem ofHeadTail_headTail : ofHeadTail tickets.headTail = tickets := by
  simp [ofHeadTail, headTail, BitVec.extractLsb'_append_eq_left,
    BitVec.extractLsb'_append_eq_right]

theorem headTail_inj {other : RawTickets width} :
    tickets.headTail = other.headTail ↔ tickets = other := by
  constructor
  · intro same
    rw [← @ofHeadTail_headTail width tickets, same, ofHeadTail_headTail]
  · rintro rfl
    rfl

theorem toNat_headTail :
    tickets.headTail.toNat =
      tickets.tail.toNat * 2 ^ width + tickets.head.toNat := by
  rw [headTail, BitVec.toNat_append,
    ← Nat.shiftLeft_add_eq_or_of_lt tickets.head.isLt, Nat.shiftLeft_eq]

/-- The sum of the pairs carries nothing from `head` to `tail`. -/
theorem headTail_add_inc :
    tickets.headTail + headTail inc =
      headTail ⟨tickets.head, tickets.tail + 1⟩ := by
  apply BitVec.eq_of_toNat_eq
  have isSum :
      tickets.headTail.toNat + (headTail (inc : RawTickets width)).toNat =
        tickets.head.toNat +
          2 ^ width * (tickets.tail.toNat + (BitVec.ofNat width 1).toNat) := by
    rw [toNat_headTail, toNat_headTail]
    simp only [inc, BitVec.ofNat_eq_ofNat, BitVec.toNat_ofNat, Nat.zero_mod]
    ring
  rw [BitVec.toNat_add, isSum, Nat.pow_add, Nat.mod_mul,
    Nat.add_mul_mod_self_left, Nat.add_mul_div_left _ _ (Nat.two_pow_pos width),
    Nat.mod_eq_of_lt tickets.head.isLt, Nat.div_eq_of_lt tickets.head.isLt,
    Nat.zero_add, toNat_headTail, BitVec.toNat_add]
  exact (Nat.add_comm ..).trans (congrArg (· + _) (Nat.mul_comm ..))

theorem one_shiftLeft :
    BitVec.ofNat (width + width) 1 <<< width = headTail inc := by
  apply BitVec.eq_of_toNat_eq
  rw [toNat_headTail]
  cases width with
  | zero =>
      rfl
  | succ width =>
      have small : 2 ^ (width + 1) < 2 ^ (width + 1 + (width + 1)) :=
        Nat.pow_lt_pow_right (by omega) (by omega)
      simp [inc, Nat.shiftLeft_eq, Nat.mod_eq_of_lt small]

end RawTickets

section Functions

variable
  {Cpu : Type} [DecidableEq Cpu]
  {width : Nat}
  {state : State Cpu width}
  {cpu : Cpu}

/-- The tickets when one more is drawn. -/
def RawTickets.drawn (tickets : RawTickets width) : RawTickets width :=
  ⟨tickets.head, tickets.tail + 1⟩

theorem archSpinLock_eq :
    archSpinLock state cpu =
      if state.tickets.head = state.tickets.tail then
        ({ state.withCpu cpu .holding with
           tickets := state.tickets.drawn }, [.drew cpu, .entered cpu])
      else
        ({ state.withCpu cpu (.spinning state.tickets.tail) with
           tickets := state.tickets.drawn }, [.drew cpu]) := by
  rw [archSpinLock, RawTickets.xadd, RawTickets.headTail_add_inc,
    RawTickets.ofHeadTail_headTail]
  rfl

theorem exchange_eq
    {old : RawTickets width} :
    exchange state cpu old =
      if state.tickets = old then
        ({ state.withCpu cpu .holding with
           tickets := state.tickets.drawn }, [.drew cpu, .entered cpu])
      else
        (state.withCpu cpu .outside, [.refused cpu]) := by
  by_cases same : state.tickets = old
  · subst same
    have isNew :
        state.tickets.headTail + BitVec.ofNat (width + width) 1 <<< width =
          state.tickets.drawn.headTail := by
      rw [RawTickets.one_shiftLeft, RawTickets.headTail_add_inc]
      rfl
    simp [exchange, RawTickets.cmpxchg, isNew]
  · have different : state.tickets.headTail ≠ old.headTail := by
      rwa [Ne, RawTickets.headTail_inj]
    simp [exchange, RawTickets.cmpxchg, same, different, State.withCpu]

end Functions

/--
Where a processor is, if one holds the lock and these wait for it: the tickets
of the queue start at `head`.
-/
def Placed
    {Cpu : Type} {width : Nat}
    (head : BitVec width)
    (holder : Option Cpu)
    (waiting : List Cpu)
    (cpu : Cpu) : Position width → Prop
  | .outside =>
      cpu ∉ holder.toList ++ waiting
  | .spinning tail =>
      ∃ index, waiting[index]? = some cpu ∧
        tail = head + BitVec.ofNat width (holder.toList.length + index)
  | .exchanging old =>
      old.head = old.tail ∧ cpu ∉ holder.toList ++ waiting
  | .holding =>
      holder = some cpu

/-- A processor that does not move keeps its place in another queue. -/
theorem Placed.moved
    {Cpu : Type} {width : Nat}
    {head head' : BitVec width}
    {holder holder' : Option Cpu}
    {waiting waiting' : List Cpu}
    {cpu : Cpu}
    {position : Position width}
    (place : Placed head holder waiting cpu position)
    (out :
      cpu ∉ holder.toList ++ waiting → cpu ∉ holder'.toList ++ waiting')
    (spins :
      ∀ index, waiting[index]? = some cpu →
        ∃ index', waiting'[index']? = some cpu ∧
          head + BitVec.ofNat width (holder.toList.length + index) =
            head' + BitVec.ofNat width (holder'.toList.length + index'))
    (holds : holder = some cpu → holder' = some cpu) :
    Placed head' holder' waiting' cpu position := by
  cases position with
  | outside =>
      exact out place
  | spinning tail =>
      obtain ⟨index, isCpu, rfl⟩ := place
      exact spins index isCpu
  | exchanging old =>
      exact ⟨place.1, out place.2⟩
  | holding =>
      exact holds place

/-- The queue of the lock: its holder, if there is one, and who waits. -/
structure Invariant
    {Cpu : Type} {width : Nat}
    (trace : List (Event Cpu))
    (state : State Cpu width)
    (holder : Option Cpu)
    (waiting : List Cpu) : Prop where
  distinct : (holder.toList ++ waiting).Nodup
  placed :
    ∀ cpu, Placed state.tickets.head holder waiting cpu (state.cpus cpu)
  tail :
    state.tickets.tail =
      state.tickets.head +
        BitVec.ofNat width (holder.toList.length + waiting.length)
  order : draws trace = entries trace ++ waiting

theorem draws_append
    {Cpu : Type}
    {trace events : List (Event Cpu)} :
    draws (trace ++ events) = draws trace ++ draws events :=
  List.filterMap_append

theorem entries_append
    {Cpu : Type}
    {trace events : List (Event Cpu)} :
    entries (trace ++ events) = entries trace ++ entries events :=
  List.filterMap_append

theorem ofNat_eq_zero
    {width count : Nat}
    (fits : count < 2 ^ width) :
    BitVec.ofNat width count = BitVec.ofNat width 0 ↔ count = 0 := by
  rw [← BitVec.toNat_inj, BitVec.toNat_ofNat, BitVec.toNat_ofNat,
    Nat.zero_mod, Nat.mod_eq_of_lt fits]

namespace Invariant

variable
  {Cpu : Type}
  {width : Nat}
  {trace events : List (Event Cpu)}
  {state next : State Cpu width}
  {holder : Option Cpu}
  {waiting : List Cpu}
  {cpu : Cpu}
  {position : Position width}

/-- As long as the tickets suffice, `head` and `tail` tell when none is out. -/
theorem free_iff
    [Fintype Cpu]
    (fits : Fintype.card Cpu ≤ 2 ^ width)
    (invariant : Invariant trace state holder waiting)
    (notQueued : cpu ∉ holder.toList ++ waiting) :
    state.tickets.head = state.tickets.tail ↔
      holder = none ∧ waiting = [] := by
  have fewer :=
    (List.nodup_cons.mpr ⟨notQueued, invariant.distinct⟩).length_le_card
  rw [List.length_cons, List.length_append] at fewer
  rw [invariant.tail, BitVec.self_eq_add_right, ofNat_eq_zero (by omega),
    Nat.add_eq_zero_iff]
  simp

theorem exclusive
    (invariant : Invariant trace state holder waiting) :
    Exclusive state := by
  intro first second firstHolds secondHolds
  have firstPlace := invariant.placed first
  have secondPlace := invariant.placed second
  rw [firstHolds] at firstPlace
  rw [secondHolds] at secondPlace
  exact Option.some.inj (firstPlace.symm.trans secondPlace)

/-- Those in the queue have a ticket, and no others. -/
theorem hasTicket_iff
    (invariant : Invariant trace state holder waiting) :
    (state.cpus cpu).HasTicket ↔ cpu ∈ holder.toList ++ waiting := by
  have place := invariant.placed cpu
  cases isPosition : state.cpus cpu with
  | outside =>
      rw [isPosition] at place
      exact iff_of_false id place
  | spinning tail =>
      rw [isPosition] at place
      obtain ⟨index, isCpu, -⟩ := place
      exact iff_of_true trivial
        (List.mem_append_right _ (List.mem_of_getElem? isCpu))
  | exchanging old =>
      rw [isPosition] at place
      exact iff_of_false id place.2
  | holding =>
      rw [isPosition] at place
      subst place
      exact iff_of_true trivial (by simp)

/-- The place of one that has a ticket. -/
theorem hasTicket_cases
    (invariant : Invariant trace state holder waiting)
    (hasTicket : (state.cpus cpu).HasTicket) :
    state.cpus cpu = .holding ∧ holder = some cpu ∨
      ∃ index, waiting[index]? = some cpu ∧
        state.cpus cpu =
          .spinning (state.tickets.head +
            BitVec.ofNat width (holder.toList.length + index)) := by
  have place := invariant.placed cpu
  cases isPosition : state.cpus cpu with
  | spinning tail =>
      rw [isPosition] at place
      obtain ⟨index, isCpu, rfl⟩ := place
      exact Or.inr ⟨index, isCpu, rfl⟩
  | holding =>
      rw [isPosition] at place
      exact Or.inl ⟨rfl, place⟩
  | _ =>
      rw [isPosition] at hasTicket
      exact hasTicket.elim

/-- When nobody has the lock, the ticket of the first that waits is up. -/
theorem isUp
    {rest : List Cpu}
    (invariant : Invariant trace state holder (cpu :: rest))
    (isFree : ∀ other, state.cpus other ≠ .holding) :
    state.cpus cpu = .spinning state.tickets.head := by
  have distinct := invariant.distinct
  have noHolder : holder = none := by
    cases holder with
    | none =>
        rfl
    | some first =>
        have hasTicket := invariant.hasTicket_iff.mpr List.mem_cons_self
        rcases invariant.hasTicket_cases hasTicket with
          ⟨isHolding, -⟩ | ⟨index, isFirst, -⟩
        · exact absurd isHolding (isFree first)
        · exact absurd (List.mem_of_getElem? isFirst)
            (List.nodup_cons.mp distinct).1
  subst noHolder
  have hasTicket := invariant.hasTicket_iff.mpr List.mem_cons_self
  rcases invariant.hasTicket_cases hasTicket with
    ⟨isHolding, -⟩ | ⟨index, isCpu, isSpinning⟩
  · exact absurd isHolding (isFree cpu)
  · cases index with
    | zero =>
        simpa using isSpinning
    | succ index =>
        rw [List.getElem?_cons_succ] at isCpu
        exact absurd (List.mem_of_getElem? isCpu)
          (List.nodup_cons.mp distinct).1

/-- A processor whose ticket is up is the first that waits. -/
theorem isNext
    [Fintype Cpu]
    {tail : BitVec width}
    (fits : Fintype.card Cpu ≤ 2 ^ width)
    (invariant : Invariant trace state holder waiting)
    (isSpinning : state.cpus cpu = .spinning tail)
    (isUp : state.tickets.head = tail) :
    holder = none ∧ ∃ rest, waiting = cpu :: rest := by
  have place := invariant.placed cpu
  rw [isSpinning] at place
  obtain ⟨index, isCpu, isTail⟩ := place
  obtain ⟨inside, -⟩ := List.getElem?_eq_some_iff.mp isCpu
  have fewer := invariant.distinct.length_le_card
  rw [List.length_append] at fewer
  rw [← isUp, BitVec.self_eq_add_right, ofNat_eq_zero (by omega),
    Nat.add_eq_zero_iff] at isTail
  obtain ⟨noHolder, rfl⟩ := isTail
  refine ⟨by simpa using noHolder, ?_⟩
  cases waiting with
  | nil =>
      cases isCpu
  | cons first rest =>
      exact ⟨rest, by rw [Option.some.inj isCpu]⟩

variable [DecidableEq Cpu]

theorem initial :
    Invariant [] (system Cpu width).initial none [] := by
  refine ⟨List.nodup_nil, ?_, ?_, rfl⟩
  · intro cpu
    simp [system, Placed]
  · simp [system]

/-- One processor moves, and the others have a place in the new queue. -/
theorem placed_withCpu
    {head : BitVec width}
    (ownPlace : Placed head holder waiting cpu position)
    (otherPlaces :
      ∀ other, other ≠ cpu →
        Placed head holder waiting other (state.cpus other))
    (other : Cpu) :
    Placed head holder waiting other
      ((state.withCpu cpu position).cpus other) := by
  by_cases same : other = cpu
  · subst same
    simpa [State.withCpu] using ownPlace
  · simpa [State.withCpu, Function.update_of_ne same] using
      otherPlaces other same

/-- A processor that is not in the queue stays out of it. -/
theorem stayOut
    (invariant : Invariant trace state holder waiting)
    (ownPlace : Placed state.tickets.head holder waiting cpu position)
    (noDraw : draws events = [])
    (noEntry : entries events = []) :
    Invariant (trace ++ events) (state.withCpu cpu position) holder
      waiting := by
  refine ⟨invariant.distinct, ?_, invariant.tail, ?_⟩
  · exact placed_withCpu ownPlace fun other _ => invariant.placed other
  · rw [draws_append, entries_append, noDraw, noEntry, List.append_nil,
      List.append_nil, invariant.order]

/-- A processor draws a ticket and has the lock. -/
theorem enterFree
    (invariant : Invariant trace state none []) :
    Invariant (trace ++ [.drew cpu, .entered cpu])
      { state.withCpu cpu .holding with tickets := state.tickets.drawn }
      (some cpu) [] := by
  refine ⟨List.nodup_singleton cpu, ?_, ?_, ?_⟩
  · refine placed_withCpu rfl fun other different =>
      (invariant.placed other).moved ?_ ?_ ?_
    · simpa using different
    · intro index isOther
      simp at isOther
    · intro isHolder
      cases isHolder
  · have isTail := invariant.tail
    simp only [RawTickets.drawn]
    rw [isTail]
    simp
  · have order := invariant.order
    rw [draws_append, entries_append, order]
    simp [draws, entries]

/-- A processor draws a ticket and waits. -/
theorem wait
    (invariant : Invariant trace state holder waiting)
    (notQueued : cpu ∉ holder.toList ++ waiting) :
    Invariant (trace ++ [.drew cpu])
      { state.withCpu cpu (.spinning state.tickets.tail) with
        tickets := state.tickets.drawn }
      holder (waiting ++ [cpu]) := by
  refine ⟨?_, ?_, ?_, ?_⟩
  · rw [← List.append_assoc, List.nodup_append]
    refine ⟨invariant.distinct, List.nodup_singleton cpu, ?_⟩
    intro other member last isLast
    rw [List.mem_singleton.mp isLast]
    rintro rfl
    exact notQueued member
  · refine placed_withCpu ⟨waiting.length, by simp, invariant.tail⟩
      fun other different => (invariant.placed other).moved ?_ ?_ id
    · intro notMember
      rw [← List.append_assoc, List.mem_append, List.mem_singleton]
      exact fun either => either.elim notMember different
    · intro index isOther
      obtain ⟨inside, -⟩ := List.getElem?_eq_some_iff.mp isOther
      exact ⟨index, (List.getElem?_append_left inside).trans isOther, rfl⟩
  · have isTail := invariant.tail
    simp only [RawTickets.drawn]
    rw [isTail, List.length_append, List.length_singleton, ← Nat.add_assoc,
      BitVec.add_assoc]
    exact congrArg _ (BitVec.ofNat_add ..).symm
  · rw [draws_append, entries_append, invariant.order]
    simp [draws, entries]

/-- The first that waits has the lock. -/
theorem enterNext
    {rest : List Cpu}
    (invariant : Invariant trace state none (cpu :: rest)) :
    Invariant (trace ++ [.entered cpu]) (state.withCpu cpu .holding)
      (some cpu) rest := by
  refine ⟨invariant.distinct, ?_, ?_, ?_⟩
  · refine placed_withCpu rfl fun other different =>
      (invariant.placed other).moved id ?_ ?_
    · intro index isOther
      cases index with
      | zero =>
          exact absurd (Option.some.inj isOther).symm different
      | succ index =>
          refine ⟨index, isOther, ?_⟩
          simp [State.withCpu, Nat.add_comm]
    · intro isHolder
      cases isHolder
  · have isTail := invariant.tail
    rw [State.withCpu, isTail]
    simp [Nat.add_comm]
  · rw [draws_append, entries_append, invariant.order]
    simp [draws, entries]

/-- A processor leaves the lock. -/
theorem leave
    (invariant : Invariant trace state (some cpu) waiting) :
    Invariant (trace ++ [.left cpu])
      { state.withCpu cpu .outside with
        tickets := { state.tickets with head := state.tickets.head + 1 } }
      none waiting := by
  have distinct := invariant.distinct
  rw [Option.toList_some, List.singleton_append, List.nodup_cons] at distinct
  have moved :
      ∀ count,
        state.tickets.head + BitVec.ofNat width (1 + count) =
          state.tickets.head + 1 + BitVec.ofNat width (0 + count) := by
    intro count
    rw [BitVec.ofNat_add, ← BitVec.add_assoc, Nat.zero_add]
    rfl
  refine ⟨distinct.2, ?_, ?_, ?_⟩
  · refine placed_withCpu distinct.1 fun other different =>
      (invariant.placed other).moved ?_ ?_ ?_
    · exact fun notMember member =>
        notMember (List.mem_cons_of_mem _ member)
    · exact fun index isOther => ⟨index, isOther, moved index⟩
    · exact fun isHolder =>
        absurd (Option.some.inj isHolder).symm different
  · exact invariant.tail.trans (moved waiting.length)
  · rw [draws_append, entries_append, invariant.order]
    simp [draws, entries]

/-- A call that draws a ticket keeps the queue. -/
theorem drawn
    [Fintype Cpu]
    (fits : Fintype.card Cpu ≤ 2 ^ width)
    (invariant : Invariant trace state holder waiting)
    (notQueued : cpu ∉ holder.toList ++ waiting)
    (isFree : state.tickets.head = state.tickets.tail) :
    Invariant (trace ++ [.drew cpu, .entered cpu])
      { state.withCpu cpu .holding with tickets := state.tickets.drawn }
      (some cpu) [] := by
  obtain ⟨rfl, rfl⟩ := (invariant.free_iff fits notQueued).mp isFree
  exact invariant.enterFree

/-- Every step of a processor keeps the queue. -/
theorem preserved
    [Fintype Cpu]
    {action : Action Cpu}
    (fits : Fintype.card Cpu ≤ 2 ^ width)
    (invariant : ∃ holder waiting, Invariant trace state holder waiting)
    (taken : step? state action = some (next, events)) :
    ∃ holder waiting, Invariant (trace ++ events) next holder waiting := by
  obtain ⟨holder, waiting, invariant⟩ := invariant
  cases action with
  | lock cpu =>
      have place := invariant.placed cpu
      cases isPosition : state.cpus cpu with
      | outside =>
          rw [isPosition] at place
          simp only [step?, isPosition, Option.some.injEq,
            archSpinLock_eq] at taken
          split at taken
          · obtain ⟨rfl, rfl⟩ := Prod.mk.inj taken
            exact ⟨_, _, invariant.drawn fits place ‹_›⟩
          · obtain ⟨rfl, rfl⟩ := Prod.mk.inj taken
            exact ⟨_, _, invariant.wait place⟩
      | _ =>
          simp [step?, isPosition] at taken
  | trylock cpu =>
      have place := invariant.placed cpu
      cases isPosition : state.cpus cpu with
      | outside =>
          rw [isPosition] at place
          simp only [step?, isPosition, Option.some.injEq,
            archSpinTrylock] at taken
          split at taken
          · obtain ⟨rfl, rfl⟩ := Prod.mk.inj taken
            refine ⟨holder, waiting, invariant.distinct, invariant.placed,
              invariant.tail, ?_⟩
            rw [draws_append, entries_append, invariant.order]
            simp [draws, entries]
          · obtain ⟨rfl, rfl⟩ := Prod.mk.inj taken
            exact ⟨_, _, invariant.stayOut ⟨not_not.mp ‹_›, place⟩ rfl rfl⟩
      | _ =>
          simp [step?, isPosition] at taken
  | goOn cpu =>
      have place := invariant.placed cpu
      cases isPosition : state.cpus cpu with
      | outside =>
          simp [step?, isPosition] at taken
      | spinning tail =>
          simp only [step?, isPosition, Option.some.injEq, spin] at taken
          split at taken
          · obtain ⟨rfl, rfl⟩ := Prod.mk.inj taken
            obtain ⟨rfl, rest, rfl⟩ := invariant.isNext fits isPosition ‹_›
            exact ⟨_, _, invariant.enterNext⟩
          · obtain ⟨rfl, rfl⟩ := Prod.mk.inj taken
            exact ⟨_, _, by simpa using invariant⟩
      | exchanging old =>
          rw [isPosition] at place
          simp only [step?, isPosition, Option.some.injEq,
            exchange_eq] at taken
          split at taken
          · obtain ⟨rfl, rfl⟩ := Prod.mk.inj taken
            subst old
            exact ⟨_, _, invariant.drawn fits place.2 place.1⟩
          · obtain ⟨rfl, rfl⟩ := Prod.mk.inj taken
            exact ⟨_, _, invariant.stayOut place.2 rfl rfl⟩
      | holding =>
          rw [isPosition] at place
          subst place
          simp only [step?, isPosition, Option.some.injEq,
            archSpinUnlock] at taken
          obtain ⟨rfl, rfl⟩ := Prod.mk.inj taken
          exact ⟨_, _, invariant.leave⟩

/-- What holds in every run if the tickets suffice. -/
theorem of_reaches
    [Fintype Cpu]
    (fits : Fintype.card Cpu ≤ 2 ^ width)
    (reaches : (system Cpu width).Reaches trace state) :
    ∃ holder waiting, Invariant trace state holder waiting :=
  @System.Reaches.invariant _ _ _ (system Cpu width)
    (fun trace state => ∃ holder waiting, Invariant trace state holder waiting)
    ⟨none, [], initial⟩ (preserved fits) _ _ reaches

end Invariant

section Results

variable
  {Cpu : Type} [DecidableEq Cpu]
  {width : Nat}
  {trace : List (Event Cpu)}
  {state : State Cpu width}

/--
As long as there are no more processors than tickets, the lock goes from one to
the next in the order of their tickets, also to those that only try: whoever is
first in line gets it by one look at `head` when it is free, and to try is
refused at once exactly if somebody has the lock or waits for it.
-/
theorem ticketLock_inOrder
    [Fintype Cpu]
    (fits : Fintype.card Cpu ≤ 2 ^ width)
    (reaches : (system Cpu width).Reaches trace state) :
    entries trace <+: draws trace ∧
      (∀ cpu rest, draws trace = entries trace ++ cpu :: rest →
        (∀ other, state.cpus other ≠ .holding) →
          step? state (.goOn cpu) =
            some (state.withCpu cpu .holding, [.entered cpu])) ∧
      ∀ cpu, state.cpus cpu = .outside →
        (step? state (.trylock cpu) = some (state, [.refused cpu]) ↔
          ∃ other, (state.cpus other).HasTicket) := by
  obtain ⟨holder, waiting, invariant⟩ := Invariant.of_reaches fits reaches
  refine ⟨⟨waiting, invariant.order.symm⟩, ?_, ?_⟩
  · intro cpu rest isDrawn isFree
    rw [invariant.order, List.append_cancel_left_eq] at isDrawn
    subst isDrawn
    simp [step?, invariant.isUp isFree, spin]
  · intro cpu isOutside
    have notQueued : cpu ∉ holder.toList ++ waiting := by
      rw [← invariant.hasTicket_iff, isOutside]
      exact id
    have refused :
        step? state (.trylock cpu) = some (state, [.refused cpu]) ↔
          state.tickets.head ≠ state.tickets.tail := by
      simp only [step?, isOutside, archSpinTrylock]
      split
      · simp [*]
      · simp [*]
    have queued :
        (∃ other, (state.cpus other).HasTicket) ↔
          holder.toList ++ waiting ≠ [] := by
      simp only [invariant.hasTicket_iff]
      exact ⟨fun ⟨other, member⟩ => List.ne_nil_of_mem member,
        List.exists_mem_of_ne_nil _⟩
    rw [refused, Ne, invariant.free_iff fits notQueued, queued, Ne,
      List.append_eq_nil_iff, Option.toList_eq_nil_iff]

/-- The lock is taken, drawn behind that, and left. -/
theorem ticketLock_inOrder_handedOver :
    ∃ trace, ∃ state : State (Fin 2) 8,
      (system (Fin 2) 8).Reaches trace state ∧
        draws trace = [0, 1] ∧ entries trace = [0] ∧
        step? state (.goOn 1) =
          some (state.withCpu 1 .holding, [.entered 1]) := by
  obtain ⟨trace, state, reaches, observed⟩ :=
    System.Reaches.exists_of_run?
      (by decide +kernel :
        ((system (Fin 2) 8).run? (system (Fin 2) 8).initial
          [.lock 0, .lock 1, .goOn 1, .goOn 0]).any
          (fun outcome => decide (
            draws outcome.2 = [0, 1] ∧ entries outcome.2 = [0] ∧
              ∀ other, outcome.1.cpus other ≠ .holding)) = true)
  obtain ⟨drawn, entered, isFree⟩ := of_decide_eq_true observed
  have next :=
    (ticketLock_inOrder (by decide) reaches).2.1 1 []
      (by rw [drawn, entered]; rfl) isFree
  exact ⟨trace, state, reaches, drawn, entered, next⟩

/-- The first of some processors has the lock, the others have tickets. -/
structure Drawn
    (first : Cpu)
    (waiting : List Cpu)
    (state : State Cpu width) : Prop where
  tickets : state.tickets = ⟨0, BitVec.ofNat width (1 + waiting.length)⟩
  holds : state.cpus first = .holding
  others : ∀ other, other ∉ first :: waiting → state.cpus other = .outside

/-- Any other processor can lock next. -/
theorem Drawn.locks
    {first last : Cpu}
    {waiting : List Cpu}
    (isDrawn : Drawn first waiting state)
    (notQueued : last ∉ first :: waiting) :
    (system Cpu width).step? state (.lock last) =
      some (archSpinLock state last) := by
  simp [system, step?, isDrawn.others last notQueued]

/-- If the tickets just suffice, that many processors can draw one each. -/
theorem exists_drawn
    {first : Cpu}
    {waiting : List Cpu}
    (distinct : (first :: waiting).Nodup)
    (fits : waiting.length < 2 ^ width) :
    ∃ trace, ∃ state : State Cpu width,
      (system Cpu width).Reaches trace state ∧ Drawn first waiting state := by
  induction waiting using List.reverseRecOn with
  | nil =>
      have taken :
          (system Cpu width).step? (system Cpu width).initial
              (.lock first) =
            some (archSpinLock (system Cpu width).initial first) :=
        rfl
      have isFree :
          (system Cpu width).initial.tickets.head =
            (system Cpu width).initial.tickets.tail :=
        rfl
      rw [archSpinLock_eq, if_pos isFree] at taken
      refine ⟨_, _, .step .initial taken, ?_, ?_, ?_⟩
      · simp [RawTickets.drawn, system]
      · simp [State.withCpu]
      · intro other different
        rw [List.mem_singleton] at different
        simp [State.withCpu, Function.update_of_ne different, system]
  | append_singleton waiting last inductionHypothesis =>
      rw [← List.cons_append, List.nodup_append] at distinct
      obtain ⟨isDistinct, -, apart⟩ := distinct
      rw [List.length_append, List.length_singleton] at fits
      obtain ⟨trace, state, reaches, isDrawn⟩ :=
        inductionHypothesis isDistinct (by omega)
      have notQueued : last ∉ first :: waiting := by
        intro member
        exact apart last member last (List.mem_singleton_self last) rfl
      have taken := isDrawn.locks notQueued
      have notFree : state.tickets.head ≠ state.tickets.tail := by
        rw [isDrawn.tickets]
        intro isFree
        have none := (ofNat_eq_zero (by omega)).mp isFree.symm
        omega
      rw [archSpinLock_eq, if_neg notFree] at taken
      refine ⟨_, _, reaches.step taken, ?_, ?_, ?_⟩
      · simp [RawTickets.drawn, isDrawn.tickets, BitVec.ofNat_add,
          BitVec.add_assoc]
      · have different : first ≠ last := by
          rintro rfl
          exact notQueued List.mem_cons_self
        simp [State.withCpu, Function.update_of_ne different, isDrawn.holds]
      · intro other notMember
        rw [← List.cons_append, List.mem_append, List.mem_singleton,
          not_or] at notMember
        simp [State.withCpu, Function.update_of_ne notMember.2,
          isDrawn.others other notMember.1]

/-- With one processor more there is a run that ends with two that hold it. -/
theorem exists_not_exclusive
    [Fintype Cpu]
    (tooMany : 2 ^ width < Fintype.card Cpu) :
    ∃ trace, ∃ state : State Cpu width,
      (system Cpu width).Reaches trace state ∧ ¬ Exclusive state := by
  have isLength := Finset.length_toList (Finset.univ : Finset Cpu)
  have distinct := Finset.nodup_toList (Finset.univ : Finset Cpu)
  rw [Finset.card_univ] at isLength
  generalize (Finset.univ : Finset Cpu).toList = cpus at isLength distinct
  cases cpus with
  | nil =>
      rw [← isLength] at tooMany
      exact absurd tooMany (Nat.not_lt_zero _)
  | cons first rest =>
      rw [List.length_cons] at isLength
      have positive := Nat.two_pow_pos width
      have isTaken : (rest.take (2 ^ width)).length = 2 ^ width := by
        rw [List.length_take]
        omega
      rcases List.eq_nil_or_concat (rest.take (2 ^ width)) with
        isEmpty | ⟨waiting, last, split⟩
      · rw [isEmpty, List.length_nil] at isTaken
        omega
      · rw [split, List.concat_eq_append, List.length_append,
          List.length_singleton] at isTaken
        have part := distinct.sublist
          ((List.take_sublist (2 ^ width) rest).cons_cons first)
        rw [split, List.concat_eq_append, ← List.cons_append,
          List.nodup_append] at part
        obtain ⟨isDistinct, -, apart⟩ := part
        obtain ⟨trace, state, reaches, isDrawn⟩ :=
          @exists_drawn Cpu _ width first waiting isDistinct (by omega)
        have notQueued : last ∉ first :: waiting := by
          intro member
          exact apart last member last (List.mem_singleton_self last) rfl
        have taken := isDrawn.locks notQueued
        have isFree : state.tickets.head = state.tickets.tail := by
          rw [isDrawn.tickets, Nat.add_comm, isTaken]
          apply BitVec.eq_of_toNat_eq
          simp only [BitVec.ofNat_eq_ofNat, BitVec.toNat_ofNat, Nat.zero_mod,
            Nat.mod_self]
        rw [archSpinLock_eq, if_pos isFree] at taken
        refine ⟨_, _, reaches.step taken, ?_⟩
        intro exclusive
        have different : first ≠ last := by
          rintro rfl
          exact notQueued List.mem_cons_self
        apply different
        apply exclusive
        · simp [State.withCpu, Function.update_of_ne different, isDrawn.holds]
        · simp [State.withCpu]

/--
The lock is one processor's at a time in every run exactly if there are no more
processors than tickets.  The source takes 16 bits for a ticket as soon as there
may be 256 processors.
-/
theorem ticketLock_exclusive_iff
    (Cpu : Type) [DecidableEq Cpu] [Fintype Cpu]
    (width : Nat) :
    (∀ trace state, (system Cpu width).Reaches trace state →
        Exclusive state) ↔
      Fintype.card Cpu ≤ 2 ^ width := by
  constructor
  · intro exclusive
    by_contra tooMany
    obtain ⟨trace, state, reaches, violates⟩ :=
      exists_not_exclusive (Nat.lt_of_not_le tooMany)
    exact violates (exclusive trace state reaches)
  · intro fits trace state reaches
    obtain ⟨holder, waiting, invariant⟩ := Invariant.of_reaches fits reaches
    exact invariant.exclusive

end Results

end CsPrimer.Lock.TicketLock
