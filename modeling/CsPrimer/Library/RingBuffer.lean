import Mathlib.Data.List.Basic
import Mathlib.Data.List.Range
import Mathlib.Data.Nat.ModEq
import Mathlib.Logic.Function.Basic
import CsPrimer.Library.TransitionSystem

namespace CsPrimer.Library

/-!
# Ring buffers

Positions are counted without bound and wrap around a ring of `size` slots.
`Window` is the content of a ring between the position that is consumed next
and the one that is stored next, and `RingTrace` is what an observer of the
stores and the consumptions can say: items are stored and consumed in the
order of their positions, and a slot is only overwritten after everything that
was stored in it has been consumed.
-/

variable {size : Nat} [NeZero size]

/-- The slot of a position. -/
def slot (size : Nat) [NeZero size] (position : Nat) : Fin size :=
  Fin.ofNat size position

theorem slot_eq_iff
    {first second : Nat} :
    slot size first = slot size second ↔
      first % size = second % size := by
  simp [slot, Fin.ext_iff]

/-- Positions less than a ring apart have different slots. -/
theorem slot_ne
    {first second : Nat}
    (later : first < second)
    (near : second < first + size) :
    slot size first ≠ slot size second := by
  rw [Ne, slot_eq_iff]
  intro same
  have divides : size ∣ second - first :=
    (Nat.modEq_iff_dvd' (Nat.le_of_lt later)).mp same
  have tooFar := Nat.le_of_dvd (by omega) divides
  omega

section Content

variable {Item : Type}

/-- The slots of the positions from `first` up to `last` hold their items. -/
def Window
    (item : Nat → Item)
    (buf : Fin size → Item)
    (first last : Nat) : Prop :=
  ∀ position, first ≤ position → position < last →
    buf (slot size position) = item position

namespace Window

variable
  {item : Nat → Item}
  {buf : Fin size → Item}
  {first last : Nat}

theorem empty :
    Window item buf first first := by
  intro position after before
  exact absurd after (Nat.not_le_of_lt before)

/-- A window shrinks from the front. -/
theorem mono
    {later : Nat}
    (window : Window item buf first last)
    (less : first ≤ later) :
    Window item buf later last :=
  fun position after before =>
    window position (Nat.le_trans less after) before

/-- A window only depends on the items of its positions. -/
theorem congr_item
    {other : Nat → Item}
    (window : Window item buf first last)
    (same : ∀ position, position < last → other position = item position) :
    Window other buf first last :=
  fun position after before =>
    (window position after before).trans (same position before).symm

/-- The slot of the next position is free in a window with room. -/
theorem update_next
    (window : Window item buf first last)
    (room : last < first + size)
    (value : Item) :
    Window item (Function.update buf (slot size last) value) first last := by
  intro position after before
  rw [Function.update_of_ne (slot_ne before (by omega))]
  exact window position after before

/-- Storing the next item extends a window that does not fill the ring. -/
theorem store
    (window : Window item buf first last)
    (room : last < first + size) :
    Window item (Function.update buf (slot size last) (item last))
      first (last + 1) := by
  intro position after before
  rcases Nat.lt_succ_iff_lt_or_eq.mp before with earlier | rfl
  · exact window.update_next room (item last) position after earlier
  · rw [Function.update_self]

end Window

/-- What an observer of a ring sees. -/
inductive RingEvent (size : Nat) (Item : Type) where
  /-- An item is stored in a slot. -/
  | stored (slot : Fin size) (item : Item)
  /-- An item is read out of a slot. -/
  | consumed (slot : Fin size) (item : Item)
  /-- A reader reports that a slot does not hold the expected item. -/
  | error (slot : Fin size) (item : Item)
  deriving Repr, DecidableEq

def RingEvent.storedItem? : RingEvent size Item → Option (Fin size × Item)
  | .stored slot item =>
      some (slot, item)
  | _ =>
      none

def RingEvent.consumedItem? : RingEvent size Item → Option (Fin size × Item)
  | .consumed slot item =>
      some (slot, item)
  | _ =>
      none

/-- The stores of a trace, in order. -/
def storedItems (trace : List (RingEvent size Item)) :
    List (Fin size × Item) :=
  trace.filterMap RingEvent.storedItem?

/-- The consumptions of a trace, in order. -/
def consumedItems (trace : List (RingEvent size Item)) :
    List (Fin size × Item) :=
  trace.filterMap RingEvent.consumedItem?

/-- The items of the positions below `bound`, in order. -/
def itemsBelow (item : Nat → Item) (bound : Nat) :
    List (Fin size × Item) :=
  (List.range bound).map fun position =>
    (slot size position, item position)

/-- The entries of a list of stores or consumptions that concern one slot. -/
def inSlot
    (place : Fin size)
    (items : List (Fin size × Item)) : List (Fin size × Item) :=
  items.filter fun entry => entry.1 = place

/--
Whenever a slot is written, everything stored in it before has been consumed.
-/
def NoOverwrite (trace : List (RingEvent size Item)) : Prop :=
  AtEvery
    (fun before event => ∀ place item, event = .stored place item →
      inSlot place (storedItems before) =
        inSlot place (consumedItems before))
    trace

/-- An orderly use of a ring, `produced` and `consumed` items into it. -/
structure RingTrace
    (item : Nat → Item)
    (trace : List (RingEvent size Item))
    (produced consumed : Nat) : Prop where
  stored :
    storedItems trace = itemsBelow item produced
  read :
    consumedItems trace = itemsBelow item consumed
  noError :
    ∀ place item, .error place item ∉ trace
  noOverwrite :
    NoOverwrite trace

theorem itemsBelow_succ
    (item : Nat → Item)
    (bound : Nat) :
    (itemsBelow item (bound + 1) : List (Fin size × Item)) =
      itemsBelow item bound ++ [(slot size bound, item bound)] := by
  simp [itemsBelow, List.range_succ]

/-- Positions less than a ring before `next` are not in its slot. -/
theorem inSlot_itemsBelow
    {item : Nat → Item}
    {consumed bound next : Nat}
    (reached : consumed ≤ bound)
    (before : bound ≤ next)
    (near : next < consumed + size) :
    inSlot (slot size next) (itemsBelow item bound) =
      inSlot (slot size next) (itemsBelow item consumed) := by
  induction bound, reached using Nat.le_induction with
  | base =>
      rfl
  | succ bound reached inductionHypothesis =>
      have other : slot size bound ≠ slot size next :=
        slot_ne before (by omega)
      have unchanged := inductionHypothesis (Nat.le_of_succ_le before)
      rw [itemsBelow_succ, ← unchanged]
      simp [inSlot, other]

namespace RingTrace

variable
  {item : Nat → Item}
  {trace : List (RingEvent size Item)}
  {produced consumed : Nat}

theorem start :
    RingTrace item ([] : List (RingEvent size Item)) 0 0 where
  stored := rfl
  read := rfl
  noError := by simp
  noOverwrite := AtEvery.nil

/-- A store in the slot of the next position, when the ring is not full. -/
theorem store
    (orderly : RingTrace item trace produced consumed)
    (behind : consumed ≤ produced)
    (room : produced < consumed + size) :
    RingTrace item
      (trace ++ [.stored (slot size produced) (item produced)])
      (produced + 1) consumed where
  stored := by
    rw [itemsBelow_succ, ← orderly.stored]
    simp [storedItems, RingEvent.storedItem?]
  read := by
    rw [← orderly.read]
    simp [consumedItems, RingEvent.consumedItem?]
  noError := by
    simpa using orderly.noError
  noOverwrite := by
    refine orderly.noOverwrite.snoc ?_
    rintro place value same
    obtain ⟨rfl, -⟩ : slot size produced = place ∧ item produced = value := by
      simpa using same
    rw [orderly.stored, orderly.read]
    exact inSlot_itemsBelow behind (Nat.le_refl produced) room

/-- A consumption of the next position. -/
theorem consume
    (orderly : RingTrace item trace produced consumed) :
    RingTrace item
      (trace ++ [.consumed (slot size consumed) (item consumed)])
      produced (consumed + 1) where
  stored := by
    rw [← orderly.stored]
    simp [storedItems, RingEvent.storedItem?]
  read := by
    rw [itemsBelow_succ, ← orderly.read]
    simp [consumedItems, RingEvent.consumedItem?]
  noError := by
    simpa using orderly.noError
  noOverwrite := orderly.noOverwrite.snoc nofun

/-- The values stored are those of the first positions, in order. -/
theorem stored_values
    (orderly : RingTrace item trace produced consumed) :
    (storedItems trace).map Prod.snd = (List.range produced).map item := by
  rw [orderly.stored]
  simp [itemsBelow]

/-- The values consumed are those of the first positions, in order. -/
theorem consumed_values
    (orderly : RingTrace item trace produced consumed) :
    (consumedItems trace).map Prod.snd = (List.range consumed).map item := by
  rw [orderly.read]
  simp [itemsBelow]

end RingTrace

end Content

end CsPrimer.Library
