import Mathlib.Algebra.Group.Nat.Defs
import Mathlib.Data.List.Basic

namespace CsPrimer.Library

/-!
# Little-endian words

A word of a given width is a list of bytes, the least significant byte first.
An `int` is a word of four bytes.
-/

namespace LittleEndian

/-- The low bytes of a number. -/
def encode : Nat → Nat → List UInt8
  | 0, _ =>
      []
  | width + 1, value =>
      UInt8.ofNat value :: encode width (value / 256)

/-- The number a list of bytes stands for. -/
def decode : List UInt8 → Nat
  | [] =>
      0
  | byte :: rest =>
      byte.toNat + 256 * decode rest

@[simp]
theorem length_encode (width value : Nat) :
    (encode width value).length = width := by
  induction width generalizing value with
  | zero =>
      rfl
  | succ width inductionHypothesis =>
      simp [encode, inductionHypothesis]

/-- Decoding recovers what fits the width. -/
theorem decode_encode (width value : Nat) :
    decode (encode width value) = value % 256 ^ width := by
  induction width generalizing value with
  | zero =>
      simp [encode, decode, Nat.mod_one]
  | succ width inductionHypothesis =>
      have low : (UInt8.ofNat value).toNat = value % 256 :=
        UInt8.toNat_ofNat'
      rw [encode, decode, inductionHypothesis, low, Nat.pow_succ',
        Nat.mod_mul]

end LittleEndian

/-- The bytes of an `int` in memory. -/
def intBytes (value : Int32) : List UInt8 :=
  LittleEndian.encode 4 value.toBitVec.toNat

/-- The `int` found in four bytes of memory. -/
def intOfBytes (bytes : List UInt8) : Int32 :=
  .ofBitVec (BitVec.ofNat 32 (LittleEndian.decode bytes))

@[simp]
theorem length_intBytes (value : Int32) :
    (intBytes value).length = 4 :=
  LittleEndian.length_encode 4 _

@[simp]
theorem intOfBytes_intBytes (value : Int32) :
    intOfBytes (intBytes value) = value := by
  have small : value.toBitVec.toNat < 256 ^ 4 := value.toBitVec.isLt
  rw [intOfBytes, intBytes, LittleEndian.decode_encode,
    Nat.mod_eq_of_lt small, BitVec.ofNat_toNat, BitVec.setWidth_eq,
    Int32.ofBitVec_toBitVec]

end CsPrimer.Library
