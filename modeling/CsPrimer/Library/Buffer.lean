import Mathlib.Data.List.Basic

namespace CsPrimer.Library

/-!
# Byte buffers of a fixed size

A store or a load that leaves the buffer has no outcome.  What a program has
put at the start of a buffer is a prefix of its bytes; the bytes behind it are
whatever was there before.
-/

/-- An array of `size` bytes. -/
structure Buffer (size : Nat) where
  bytes : List UInt8
  length_eq : bytes.length = size
  deriving Repr, DecidableEq

namespace Buffer

variable {size : Nat}

/-- A buffer that holds one byte everywhere. -/
def filled (size : Nat) (byte : UInt8) : Buffer size where
  bytes := List.replicate size byte
  length_eq := List.length_replicate

/-- Store bytes from an offset on. -/
def store?
    (buffer : Buffer size)
    (offset : Nat)
    (bytes : List UInt8) :
    Option (Buffer size) :=
  if fits : offset + bytes.length ≤ size then
    some
      { bytes :=
          buffer.bytes.take offset ++ bytes ++
            buffer.bytes.drop (offset + bytes.length)
        length_eq := by
          have length := buffer.length_eq
          rw [List.length_append, List.length_append, List.length_take,
            List.length_drop]
          omega }
  else
    none

/-- Load a number of bytes from an offset on. -/
def load?
    (buffer : Buffer size)
    (offset count : Nat) :
    Option (List UInt8) :=
  if offset + count ≤ size then
    some ((buffer.bytes.drop offset).take count)
  else
    none

/-- `snprintf(&buffer[offset], room, ...)` with the text it formats. -/
def snprintf?
    (buffer : Buffer size)
    (offset room : Nat)
    (text : List UInt8) :
    Option (Buffer size) :=
  if room = 0 then
    some buffer
  else
    buffer.store? offset (text.take (room - 1) ++ [0])

/-- The buffer starts with what has been written. -/
def Holds (buffer : Buffer size) (written : List UInt8) : Prop :=
  written <+: buffer.bytes

theorem Holds.nil (buffer : Buffer size) : buffer.Holds [] :=
  List.nil_prefix

theorem Holds.length_le
    {buffer : Buffer size}
    {written : List UInt8}
    (holds : buffer.Holds written) :
    written.length ≤ size :=
  buffer.length_eq ▸ List.IsPrefix.length_le holds

/-- What has been stored lies inside the buffer. -/
theorem fits_of_store?
    {buffer next : Buffer size}
    {offset : Nat}
    {bytes : List UInt8}
    (stored : buffer.store? offset bytes = some next) :
    offset + bytes.length ≤ size := by
  unfold store? at stored
  split at stored
  case isTrue fits => exact fits
  case isFalse => cases stored

/-- A store that fits replaces the bytes at its offset. -/
theorem exists_store?
    (buffer : Buffer size)
    (offset : Nat)
    (bytes : List UInt8)
    (fits : offset + bytes.length ≤ size) :
    ∃ next,
      buffer.store? offset bytes = some next ∧
        next.bytes =
          buffer.bytes.take offset ++ bytes ++
            buffer.bytes.drop (offset + bytes.length) :=
  ⟨_, dif_pos fits, rfl⟩

/-- A store that fits keeps what stands before it. -/
theorem store?_holds
    (buffer : Buffer size)
    (offset : Nat)
    (bytes : List UInt8)
    (fits : offset + bytes.length ≤ size) :
    ∃ next,
      buffer.store? offset bytes = some next ∧
        next.Holds (buffer.bytes.take offset ++ bytes) :=
  ⟨_, dif_pos fits, List.prefix_append _ _⟩

/-- What has been stored at the start can be taken from there. -/
theorem store?_front
    (buffer : Buffer size)
    (bytes : List UInt8)
    (fits : bytes.length ≤ size) :
    ∃ next,
      buffer.store? 0 bytes = some next ∧
        next.bytes.take bytes.length = bytes := by
  obtain ⟨next, stored, holds⟩ := buffer.store?_holds 0 bytes (by omega)
  rw [List.take_zero, List.nil_append] at holds
  exact ⟨next, stored, (List.prefix_iff_eq_take.mp holds).symm⟩

/-- A load from the start takes the first bytes. -/
theorem load?_front
    {buffer : Buffer size}
    {count : Nat}
    (fits : count ≤ size) :
    buffer.load? 0 count = some (buffer.bytes.take count) := by
  rw [load?, if_pos (by omega), List.drop_zero]

theorem eq_take_of_load?
    {buffer : Buffer size}
    {count : Nat}
    {bytes : List UInt8}
    (loaded : buffer.load? 0 count = some bytes) :
    buffer.bytes.take count = bytes := by
  unfold load? at loaded
  split at loaded
  case isTrue =>
    rwa [List.drop_zero, Option.some.injEq] at loaded
  case isFalse =>
    cases loaded

/-- A store behind what has been written extends it. -/
theorem Holds.store
    {buffer : Buffer size}
    {written : List UInt8}
    {offset : Nat}
    (holds : buffer.Holds written)
    (isOffset : written.length = offset)
    (bytes : List UInt8)
    (fits : offset + bytes.length ≤ size) :
    ∃ next,
      buffer.store? offset bytes = some next ∧
        next.Holds (written ++ bytes) := by
  have kept : written = buffer.bytes.take offset :=
    isOffset ▸ List.prefix_iff_eq_take.mp holds
  obtain ⟨next, stored, nextHolds⟩ := buffer.store?_holds offset bytes fits
  exact ⟨next, stored, by rwa [← kept] at nextHolds⟩

/-- Bytes that are stored with a NUL behind them. -/
theorem exists_terminated
    (buffer : Buffer size)
    (bytes : List UInt8)
    (fits : bytes.length < size) :
    ∃ first next,
      buffer.store? 0 bytes = some first ∧
        first.store? bytes.length [0] = some next ∧
        next.Holds (bytes ++ [0]) := by
  obtain ⟨first, stored, holds⟩ := buffer.store?_holds 0 bytes (by omega)
  rw [List.take_zero, List.nil_append] at holds
  obtain ⟨next, terminated, nextHolds⟩ :=
    holds.store rfl [0] (by rw [List.length_singleton]; omega)
  exact ⟨first, next, stored, terminated, nextHolds⟩

/-- A store replaces a part of the buffer by bytes of the same length. -/
theorem store?_replace
    {buffer : Buffer size}
    (before old bytes after : List UInt8)
    (isBytes : buffer.bytes = before ++ (old ++ after))
    (sameLength : old.length = bytes.length) :
    ∃ next,
      buffer.store? before.length bytes = some next ∧
        next.bytes = before ++ (bytes ++ after) := by
  have total := buffer.length_eq
  rw [isBytes, List.length_append, List.length_append] at total
  refine ⟨_, dif_pos (by omega), ?_⟩
  have isLength :
      before.length + bytes.length = (before ++ old).length := by
    rw [List.length_append, sameLength]
  simp only [isBytes]
  rw [isLength, ← List.append_assoc before old, List.drop_left,
    List.append_assoc before old, List.take_left, List.append_assoc]

/-- A load of what has been written. -/
theorem Holds.load
    {buffer : Buffer size}
    {written : List UInt8}
    (holds : buffer.Holds written)
    (offset count : Nat)
    (inside : offset + count ≤ written.length) :
    buffer.load? offset count =
      some ((written.drop offset).take count) := by
  have bound := holds.length_le
  obtain ⟨rest, isBytes⟩ := holds
  rw [load?, if_pos (by omega), ← isBytes, List.drop_append_of_le_length,
    List.take_append_of_le_length]
  · rw [List.length_drop]
    omega
  · omega

end Buffer

end CsPrimer.Library
