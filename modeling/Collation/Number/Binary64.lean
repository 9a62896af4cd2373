/-
  File:      Collation/Number/Binary64.lean
  Subject:   64-bit floating-point numbers by their bits: order, and conversions with integers.

  A number is its bits: a sign, eleven bits of exponent, fifty-two of fraction.  Everything
  here is integer arithmetic on them.

  * `Binary64.compare?` -- the order of two numbers; none if one of them is not a number.
    The bits without the sign grow with the number, and both zeros have magnitude zero;
  * `Binary64.ofInt` -- the nearest number to an integer, ties going to the even fraction;
  * `Binary64.toInt` -- the integer part, cut to a given range.
-/
namespace Collation

/-- A 64-bit floating-point number, by its bits. -/
structure Binary64 where
  bits : UInt64
  deriving DecidableEq, Repr

namespace Binary64

/-! ## 1. Order -/

/-- The bits below the sign. -/
def magnitude (x : Binary64) : Nat := x.bits.toNat % 0x8000000000000000

def isNegative (x : Binary64) : Bool := 0x8000000000000000 ≤ x.bits.toNat

/-- All exponent bits are set, and some fraction bit: this stands for no number. -/
def isNaN (x : Binary64) : Bool := 0x7FF0000000000000 < x.magnitude

/-- An integer that grows with the number, the same for both zeros. -/
def rank (x : Binary64) : Int := if x.isNegative then -(x.magnitude : Int) else x.magnitude

/-- The order of two numbers, if both are numbers. -/
def compare? (x y : Binary64) : Option Ordering :=
  if x.isNaN || y.isNaN then none else some (compare x.rank y.rank)

/-- Positive zero. -/
def zero : Binary64 := ⟨0⟩

/-- The bits that stand for no number, as they are written. -/
def nan : Binary64 := ⟨0x7FF8000000000000⟩

/-! ## 2. From integers -/

/-- The nearest integer to `m / 2 ^ shift`, a tie going to the even one. -/
def roundShift (m shift : Nat) : Nat :=
  let unit := 1 <<< shift
  let q := m / unit
  let r := m % unit
  if 2 * r < unit then q
  else if unit < 2 * r then q + 1
  else q + q % 2

/-- The bits of the nearest number to a positive integer.  A fraction that rounds up to the
    next power of two carries into the exponent. -/
def bitsOfNat (m : Nat) : Nat :=
  let e := m.log2
  let fraction := if e ≤ 52 then m <<< (52 - e) else roundShift m (e - 52)
  (e + 1022) * 0x0010000000000000 + fraction

/-- The nearest number to an integer. -/
def ofInt (n : Int) : Binary64 :=
  if n = 0 then zero
  else
    let sign := if n < 0 then 0x8000000000000000 else 0
    ⟨UInt64.ofNat (sign + bitsOfNat n.natAbs)⟩

/-- Half of an integer of at most 53 bits: the exponent is one less. -/
def ofHalves (n : Int) : Binary64 :=
  if n = 0 then zero else ⟨(ofInt n).bits - 0x0010000000000000⟩

/-! ## 3. To integers -/

/-- The integer part without its sign. -/
def integerPart (x : Binary64) : Nat :=
  let e := x.magnitude / 0x0010000000000000
  let m := 0x0010000000000000 + x.magnitude % 0x0010000000000000
  if e < 1023 then 0
  else if e < 1075 then m >>> (1075 - e)
  else m <<< (e - 1075)

/-- The integer part, cut to the range from `lo` to `hi`; zero if there is no number. -/
def toInt (x : Binary64) (lo hi : Int) : Int :=
  if x.isNaN then 0
  else
    let n : Int := if x.isNegative then -(x.integerPart : Int) else x.integerPart
    max lo (min hi n)

def toInt32 (x : Binary64) : Int32 := Int32.ofInt (x.toInt (-2147483648) 2147483647)

def toInt64 (x : Binary64) : Int64 :=
  Int64.ofInt (x.toInt (-9223372036854775808) 9223372036854775807)

end Binary64

end Collation
