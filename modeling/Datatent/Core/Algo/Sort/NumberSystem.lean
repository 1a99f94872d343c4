import Mathlib.Data.UInt

/-!
# Number systems

The number system of a key type says which number the bits of a key stand for. The built-in
types begin with one; that of another type is set once.
-/

namespace Datatent

/-- The number system that is used: that of `uint` and `ulong`, ones' complement (which is not
common), that of `int` and `long`, and that of `float` and `double`. -/
inductive NumberSystem where
  | unsigned
  | onesComplement
  | twosComplement
  | signBit
deriving DecidableEq, Repr

/-- The types that are told apart, and any other one with its size. -/
inductive ValueType where
  | sbyte
  | short
  | int
  | long
  | bool
  | byte
  | ushort
  | char
  | uint
  | ulong
  | float
  | double
  | other (size : Nat)
deriving DecidableEq, Repr

namespace ValueType

/-- The size of a type in bytes. -/
def size : ValueType → Nat
  | sbyte | bool | byte => 1
  | short | ushort | char => 2
  | int | uint | float => 4
  | long | ulong | double => 8
  | other size => size

/-- The number system that a type begins with. -/
def numberSystem : ValueType → Option NumberSystem
  | sbyte | short | int | long => some .twosComplement
  | bool | byte | ushort | char | uint | ulong => some .unsigned
  | float | double => some .signBit
  | other _ => none

end ValueType

namespace NumberSystem

/-- The number that a key of 32 bits stands for. A key of a floating point type stands for its
place among the numbers of the type: the bits behind the sign are in the order of the absolute
values, and the two zeros are at the same place. -/
def number : NumberSystem → UInt32 → Int
  | unsigned, key => key.toNat
  | onesComplement, key =>
      if key.toNat < 2 ^ 31 then key.toNat else (key.toNat : Int) - (2 ^ 32 - 1)
  | twosComplement, key =>
      if key.toNat < 2 ^ 31 then key.toNat else (key.toNat : Int) - 2 ^ 32
  | signBit, key =>
      if key.toNat < 2 ^ 31 then key.toNat else - ((key.toNat : Int) - 2 ^ 31)

end NumberSystem

end Datatent
