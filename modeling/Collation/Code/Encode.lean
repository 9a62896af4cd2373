/-
  File:      Collation/Code/Encode.lean
  Subject:   The bytes of the instructions that are written.

  A small constant and a local below four have a form of one byte.
-/
import Collation.Bytes.Word
import Collation.Code.Opcode

namespace Collation.Encode

/-- Pushes an integer; of one that needs more than two bytes the low two are kept. -/
def pushInt (value : Int32) : List UInt8 :=
  if -1 ≤ value ∧ value ≤ 5 then [Opcode.iconst0 + value.toInt8.toUInt8]
  else if 0 ≤ value ∧ value ≤ 127 then [Opcode.bipush, value.toInt8.toUInt8]
  else Opcode.sipush :: Word.bytes16 value.toInt16.toUInt16

/-- An instruction on a local, in its short form if it has one. -/
def onLocal (short long slot : UInt8) : List UInt8 :=
  if slot ≤ 3 then [short + slot] else [long, slot]

/-- Pushes the integer in a local. -/
def iload : UInt8 → List UInt8 := onLocal Opcode.iload0 Opcode.iload

/-- Pops an integer into a local. -/
def istore : UInt8 → List UInt8 := onLocal Opcode.istore0 Opcode.istore

/-- Pushes the reference in a local. -/
def aload : UInt8 → List UInt8 := onLocal Opcode.aload0 Opcode.aload

/-- An instruction with an index into the pool. -/
def withIndex (opcode : UInt8) (index : UInt16) : List UInt8 := opcode :: Word.bytes16 index

def getfield : UInt16 → List UInt8 := withIndex Opcode.getfield

def putfield : UInt16 → List UInt8 := withIndex Opcode.putfield

def invokespecial : UInt16 → List UInt8 := withIndex Opcode.invokespecial

/-- A call through an interface, with the number of slots that it pops. -/
def invokeinterface (index : UInt16) (slots : UInt8) : List UInt8 :=
  withIndex Opcode.invokeinterface index ++ [slots, 0]

end Collation.Encode
