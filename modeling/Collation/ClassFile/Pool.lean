/-
  File:      Collation/ClassFile/Pool.lean
  Subject:   The constant pool and resolving indices into it.

  Indices count from one.  Every resolution is given the byte at which the index was read,
  and a failure names the index, the kind of constant that had to be there, and that byte.

  * `Pool.text`, `Pool.className`, `Pool.nameAndType`, `Pool.member` -- resolve an index;
  * `Pool.checkEntry` -- the indices inside one constant point at constants of the right kind.
-/
import Collation.ClassFile.Constant

namespace Collation

/-- The constants of a class, the one with index 1 first. -/
structure Pool where
  entries : Array Constant
  deriving DecidableEq, Repr

/-- A member that a class refers to, by names. -/
structure MemberRef where
  kind : MemberKind
  owner : String
  name : String
  descriptor : String
  deriving DecidableEq, Repr

namespace Pool

/-- One more than the number of constants. -/
def count (p : Pool) : Nat := p.entries.size + 1

/-- The constant at an index; there is none at index 0. -/
def get? (p : Pool) (index : UInt16) : Option Constant :=
  if index = 0 then none else p.entries[index.toNat - 1]?

/-- The refusal of an index. -/
def badIndex {α : Type} (offset : Nat) (index : UInt16) (expected : ConstantKind) :
    Except Rejection α :=
  .error ⟨offset, .badConstantIndex index expected⟩

/-- The text at an index. -/
def text (p : Pool) (index : UInt16) (offset : Nat) : Except Rejection String :=
  match p.get? index with
  | some (.text value) => .ok value
  | _ => badIndex offset index .text

/-- The name of the class at an index. -/
def className (p : Pool) (index : UInt16) (offset : Nat) : Except Rejection String :=
  match p.get? index with
  | some (.cls name) => p.text name offset
  | _ => badIndex offset index .cls

/-- The name and the descriptor at an index. -/
def nameAndType (p : Pool) (index : UInt16) (offset : Nat) :
    Except Rejection (String × String) :=
  match p.get? index with
  | some (.nameAndType name descriptor) => do
    let n ← p.text name offset
    let d ← p.text descriptor offset
    return (n, d)
  | _ => badIndex offset index .nameAndType

/-- The member of the wanted kind at an index. -/
def member (p : Pool) (index : UInt16) (wanted : MemberKind) (offset : Nat) :
    Except Rejection MemberRef :=
  match p.get? index with
  | some (.member kind owner pair) =>
    if kind = wanted then do
      let (n, d) ← p.nameAndType pair offset
      let c ← p.className owner offset
      return ⟨kind, c, n, d⟩
    else badIndex offset index wanted.constantKind
  | _ => badIndex offset index wanted.constantKind

/-- Checks the indices inside the constant read at `offset`. -/
def checkEntry (p : Pool) (offset : Nat) : Constant → Except Rejection Unit
  | .text _ => .ok ()
  | .cls name => do
    discard (p.text name offset)
  | .nameAndType name descriptor => do
    discard (p.text name offset)
    discard (p.text descriptor offset)
  | .member _ owner pair => do
    discard (p.className owner offset)
    discard (p.nameAndType pair offset)

/-- Checks the indices inside every constant, in order, each with the byte at which its
    constant was read. -/
def checkEntries (p : Pool) : List (Nat × Constant) → Except Rejection Unit
  | [] => .ok ()
  | (offset, c) :: rest =>
    match p.checkEntry offset c with
    | .ok () => p.checkEntries rest
    | .error e => .error e

end Pool

end Collation
