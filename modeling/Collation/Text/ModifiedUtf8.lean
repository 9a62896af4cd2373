/-
  File:      Collation/Text/ModifiedUtf8.lean
  Subject:   The text encoding of class files.

  A text is cut into 16-bit units (a character beyond U+FFFF is a pair of surrogates), and
  each unit is written in one, two or three bytes; the unit zero takes two, so no zero byte
  ever appears.

  * `ModifiedUtf8.encode` -- the bytes of a text;
  * `ModifiedUtf8.decode` -- the text of some bytes.  The lead byte alone says how many bytes
    follow, and of a following byte only the low six bits count; an unfinished sequence, any
    other lead byte and a surrogate without its partner have no text.
-/
namespace Collation.ModifiedUtf8

/-! ## 1. Units -/

/-- The 16-bit units of a character: itself, or a pair of surrogates. -/
def units (c : Char) : List Nat :=
  if c.toNat < 0x10000 then [c.toNat]
  else [0xD800 + (c.toNat - 0x10000) / 0x400, 0xDC00 + (c.toNat - 0x10000) % 0x400]

/-- A unit that opens a pair. -/
def isHigh (u : Nat) : Bool := 0xD800 ≤ u && u < 0xDC00

/-- A unit that closes a pair. -/
def isLow (u : Nat) : Bool := 0xDC00 ≤ u && u < 0xE000

/-- The characters that a list of units stands for, put in front of `acc` in reverse;
    there are none when a surrogate stands without its partner. -/
def charsOnto (acc : List Char) : List Nat → Option (List Char)
  | [] => some acc
  | [u] => if isHigh u || isLow u then none else some (Char.ofNat u :: acc)
  | u :: v :: rest =>
    if isHigh u then
      if isLow v then
        charsOnto (Char.ofNat (0x10000 + (u - 0xD800) * 0x400 + (v - 0xDC00)) :: acc) rest
      else none
    else if isLow u then none
    else charsOnto (Char.ofNat u :: acc) (v :: rest)

/-- The characters of a list of units. -/
def chars (us : List Nat) : Option (List Char) := (charsOnto [] us).map List.reverse

/-! ## 2. Bytes -/

/-- The bytes of one unit. -/
def unitBytes (u : Nat) : List UInt8 :=
  if u ≠ 0 ∧ u < 0x80 then [UInt8.ofNat u]
  else if u < 0x800 then [UInt8.ofNat (0xC0 + u / 64), UInt8.ofNat (0x80 + u % 64)]
  else [UInt8.ofNat (0xE0 + u / 4096), UInt8.ofNat (0x80 + u / 64 % 64),
    UInt8.ofNat (0x80 + u % 64)]

/-- The units that a list of bytes stands for, put in front of `acc` in reverse. -/
def unitsOnto (acc : List Nat) : List UInt8 → Option (List Nat)
  | [] => some acc
  | a :: rest =>
    if 0x01 ≤ a.toNat ∧ a.toNat < 0x80 then unitsOnto (a.toNat :: acc) rest
    else if 0xC0 ≤ a.toNat ∧ a.toNat < 0xE0 then
      match rest with
      | b :: rest' => unitsOnto ((a.toNat % 32 * 64 + b.toNat % 64) :: acc) rest'
      | [] => none
    else if 0xE0 ≤ a.toNat ∧ a.toNat < 0xF0 then
      match rest with
      | b :: c :: rest' =>
        unitsOnto ((a.toNat % 16 * 4096 + b.toNat % 64 * 64 + c.toNat % 64) :: acc) rest'
      | _ => none
    else none

/-! ## 3. Texts -/

/-- The bytes of a text. -/
def encode (s : String) : List UInt8 := (s.toList.flatMap units).flatMap unitBytes

/-- The text that some bytes stand for. -/
def decode (bs : List UInt8) : Option String := do
  let us ← unitsOnto [] bs
  let cs ← chars us.reverse
  return String.ofList cs

end Collation.ModifiedUtf8
