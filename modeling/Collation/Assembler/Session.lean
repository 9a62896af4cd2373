/-
  File:      Collation/Assembler/Session.lean
  Subject:   A session that writes a class file from front to back.

  The caller writes the parts in the order of the file.  The session knows how far the class
  has come, which constants every class needs, and the method that is open; it fills in the
  fields whose value is known only later.

  An operation of a session (`Assembly`) gives an answer or a failure, and always the session
  after it: what was written before a failure stays written.
-/
import Collation.Bytes.Buffer
import Collation.Fault

namespace Collation

/-! ## 1. Sessions -/

/-- How far the class has come. -/
inductive Stage where
  /-- Nothing is begun. -/
  | fresh
  /-- The header is written; constants may follow until their number is filled in. -/
  | pooling (countField : Reserved16)
  /-- The pool is complete. -/
  | pooled
  deriving DecidableEq, Repr

/-- The constants that every class needs. -/
structure StandardPool where
  /-- The root class. -/
  objectClass : UInt16
  /-- The name of constructors. -/
  initName : UInt16
  /-- The descriptor of a constructor without parameters. -/
  initDescriptor : UInt16
  /-- The constructor of the root class. -/
  objectInit : UInt16
  /-- The name of the attribute with the code of a method. -/
  codeAttribute : UInt16
  deriving DecidableEq, Repr

/-- The method that is being written. -/
structure OpenMethod where
  /-- The length of the whole code attribute. -/
  attributeLength : Reserved32
  /-- The length of the code, until it is filled in. -/
  codeLength : Option Reserved32
  /-- Where the code begins. -/
  codeStart : Nat
  deriving DecidableEq, Repr

/-- A session. -/
structure Session where
  buffer : Buffer
  /-- The index of the next constant. -/
  poolCount : Nat
  stage : Stage
  standard : Option StandardPool
  method : Option OpenMethod
  deriving DecidableEq, Repr

namespace Session

/-- A session in which nothing was written. -/
def empty : Session := ⟨.empty, 1, .fresh, none, none⟩

/-- The bytes written so far. -/
def bytes (s : Session) : List UInt8 := s.buffer.toList

def position (s : Session) : Nat := s.buffer.position

/-- The class in a sink of `size` zeros, which must have room for it. -/
def dumpInto (s : Session) (size : Nat) : Except Fault (List UInt8) :=
  if s.position ≤ size then .ok (s.bytes ++ List.replicate (size - s.position) 0)
  else .error (.sink .full)

end Session

/-! ## 2. Operations on bytes -/

/-- Why an operation gave no answer. -/
inductive Failure where
  | refused (fault : Fault)
  /-- A position past the end of the buffer was accessed. -/
  | outOfBounds
  deriving DecidableEq, Repr

/-- An operation of a session. -/
abbrev Assembly : Type → Type := EStateM Failure Session

namespace Assembly

/-- Refuses a misuse. -/
def refuse {α : Type} (cause : Misuse) : Assembly α := fun s => .error (.refused (.misuse cause)) s

/-- Forgets everything. -/
def clear : Assembly Unit := fun _ => .ok () .empty

/-- Appends bytes. -/
def write (bytes : List UInt8) : Assembly Unit := fun s =>
  .ok () { s with buffer := s.buffer.putBytes bytes }

/-- Reads a byte back. -/
def byteAt (p : Nat) : Assembly UInt8 := fun s =>
  match s.buffer.get? p with
  | some b => .ok b s
  | none => .error .outOfBounds s

/-- Replaces bytes that were written before. -/
def overwrite (p : Nat) (bytes : List UInt8) : Assembly Unit := fun s =>
  if p + bytes.length ≤ s.position then .ok () { s with buffer := s.buffer.replace p bytes }
  else .error .outOfBounds s

/-- Appends a field of four bytes to be filled in later. -/
def reserve32 : Assembly Reserved32 := fun s =>
  .ok ⟨s.position⟩ { s with buffer := s.buffer.putU32 0 }

/-- Fills in the number of bytes that were written after a field. -/
def fillSpan (r : Reserved32) : Assembly Unit := fun s =>
  match r.spanTo s.position with
  | some n => overwrite r.position (Word.bytes32 (UInt32.ofNat n)) s
  | none => .error .outOfBounds s

end Assembly

end Collation
