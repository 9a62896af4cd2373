/-
  File:      Collation/ClassFile/Basic.lean
  Subject:   A class as its file describes it, with every index resolved.
-/
import Collation.ClassFile.Access
import Collation.ClassFile.Pool
import Collation.ClassFile.StackMap

namespace Collation

/-- A declared field. -/
structure FieldDecl where
  flags : FieldFlags
  name : String
  type : FieldType
  deriving DecidableEq, Repr

/-- The body of a method, not yet read as instructions. -/
structure CodeBody where
  maxStack : UInt16
  maxLocals : UInt16
  bytes : List UInt8
  /-- Where in the class file the first byte of the code stands. -/
  position : Nat
  stackMap : List FrameDelta
  deriving DecidableEq, Repr

/-- A declared method. -/
structure MethodDecl where
  flags : MethodFlags
  name : String
  type : MethodType
  /-- The descriptor as it stands in the pool. -/
  descriptor : String
  /-- Only abstract methods have none. -/
  code : Option CodeBody
  deriving DecidableEq, Repr

/-- Name and descriptor, by which messages name a method. -/
def MethodDecl.signature (m : MethodDecl) : String := m.name ++ m.descriptor

/-- A class file. -/
structure ClassFile where
  version : Version
  pool : Pool
  flags : ClassFlags
  thisClass : String
  superClass : String
  interfaces : List String
  fields : List FieldDecl
  methods : List MethodDecl
  deriving DecidableEq, Repr

end Collation
