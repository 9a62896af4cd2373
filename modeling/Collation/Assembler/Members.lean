/-
  File:      Collation/Assembler/Members.lean
  Subject:   Writing what a class declares: its place among classes, fields, attributes.

  The order of these parts, and the counts before them, are up to the caller.
-/
import Collation.Assembler.Code

namespace Collation.Assembly

/-- Writes a word that says how many entries follow. -/
def declareCount (count : UInt16) : Assembly Unit := write (Word.bytes16 count)

/-- Writes the flags of the class, its own name and that of its superclass. -/
def defineClassWithSuper (flags : ClassFlags) (this super : UInt16) : Assembly Unit :=
  write (Word.bytes16 flags.bits ++ Word.bytes16 this ++ Word.bytes16 super)

/-- Writes the flags and the name of a class right below the root class. -/
def defineClass (flags : ClassFlags) (this : UInt16) : Assembly Unit := do
  let standard ← standardPool
  defineClassWithSuper flags this standard.objectClass

/-- Writes the interfaces of the class. -/
def declareInterfaces (classes : List UInt16) : Assembly Unit := fun s =>
  let n := classes.length
  if n ≤ 65535 then
    write (Word.bytes16 (UInt16.ofNat n) ++ classes.flatMap Word.bytes16) s
  else .error (.refused (.tableTooLong n)) s

/-- Writes a field without attributes. -/
def defineField (flags : FieldFlags) (name descriptor : UInt16) : Assembly Unit :=
  write (Word.bytes16 flags.bits ++ Word.bytes16 name ++ Word.bytes16 descriptor ++ Word.bytes16 0)

/-- Writes an attribute, whose length has to fit into a word of 32 bits. -/
def defineAttribute (name : UInt16) (info : List UInt8) : Assembly Unit := fun s =>
  let n := info.length
  if n ≤ 4294967295 then
    write (Word.bytes16 name ++ Word.bytes32 (UInt32.ofNat n) ++ info) s
  else .error (.refused (.tableTooLong n)) s

/-- Writes a constructor that only calls the constructor of the root class. -/
def defineDefaultConstructor : Assembly Unit := do
  let standard ← standardPool
  beginMethod .public standard.initName standard.initDescriptor 1 1
  emit (Encode.aload 0)
  emit (Encode.invokespecial standard.objectInit)
  emit [Opcode.return_]
  endCode
  codeAttributes 0
  endMethod

end Collation.Assembly
