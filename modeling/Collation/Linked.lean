/-
  File:      Collation/Linked.lean
  Subject:   Classes that are checked and bound, ready to run.

  Binding turns jump targets into instruction numbers, fields into slots and calls into the
  few methods that code can reach: the constructor of the root class and the accessors of
  records.

  * `ClassFile.bindCode` -- binds the instructions of a method;
  * `ClassFile.checkShape` -- superclass, constructor, and the methods that a comparator needs;
  * `LinkedClass.load` -- from bytes to a class that can run.
-/
import Collation.ClassFile.Parse
import Collation.Record
import Collation.Typing.Check

namespace Collation

/-! ## 1. Types -/

/-- What a call is bound to. -/
inductive Callee where
  /-- The constructor of the root class. -/
  | objectInit
  /-- The accessor of a record for columns of a kind. -/
  | accessor (kind : ColumnKind)
  deriving DecidableEq, Repr

/-- An instruction ready to run: jumps by instruction number, fields by slot. -/
abbrev Bound : Type := Instr Nat Nat Callee

/-- The body of a method: each instruction with the code offset at which it stood. -/
structure LinkedBody where
  maxStack : UInt16
  maxLocals : UInt16
  code : Array (Nat × Bound)
  deriving DecidableEq, Repr

structure LinkedMethod where
  name : String
  descriptor : String
  type : MethodType
  isStatic : Bool
  /-- Abstract methods have none. -/
  body : Option LinkedBody
  deriving DecidableEq, Repr

/-- Name and descriptor, by which messages name a method. -/
def LinkedMethod.signature (m : LinkedMethod) : String := m.name ++ m.descriptor

structure LinkedField where
  name : String
  type : FieldType
  deriving DecidableEq, Repr

/-- A class ready to run. -/
structure LinkedClass where
  name : String
  superName : String
  interfaces : List String
  version : Version
  fields : List LinkedField
  methods : List LinkedMethod
  deriving DecidableEq, Repr

namespace LinkedClass

def implements (c : LinkedClass) (name : String) : Bool := c.interfaces.contains name

/-- The first method with this name and descriptor. -/
def findMethod? (c : LinkedClass) (name descriptor : String) : Option LinkedMethod :=
  c.methods.find? fun m => m.name == name && m.descriptor == descriptor

end LinkedClass

/-! ## 2. Binding -/

namespace ClassFile

/-- The slot of the field that a pool index names: the first field of the class itself with
    that name and type that belongs to instances. -/
def bindField (file : ClassFile) (index : UInt16) (offset : Nat) : Except Fault Nat :=
  match file.pool.member index .field offset with
  | .error e => .error (.malformed e)
  | .ok m =>
    let slot :=
      if m.owner = file.thisClass then
        file.fields.findIdx? fun f =>
          f.name == m.name && f.type.render == m.descriptor && !f.flags.isStatic
      else none
    match slot with
    | some i => .ok i
    | none => .error (.link (.unresolvedField m.owner m.name m.descriptor))

/-- What a member can be bound to, called as the given kind. -/
def callee? (kind : MemberKind) (m : MemberRef) : Option Callee :=
  match kind with
  | .method =>
    if m.owner = objectClass ∧ m.name = initName ∧ m.descriptor = initDescriptor then
      some .objectInit
    else none
  | .interfaceMethod =>
    if m.owner = recordClass then (ColumnKind.ofAccessor? m.name m.descriptor).map .accessor
    else none
  | .field => none

/-- The method that a pool index names. -/
def bindMethod (file : ClassFile) (kind : MemberKind) (index : UInt16) (offset : Nat) :
    Except Fault Callee :=
  match file.pool.member index kind offset with
  | .error e => .error (.malformed e)
  | .ok m =>
    match callee? kind m with
    | some c => .ok c
    | none => .error (.link (.unresolvedMethod m.owner m.name m.descriptor))

/-- Binds the instruction at `pc`. -/
def bindInstr (s : Subject) (starts : Array (Option Nat)) (pc : Nat) (instr : Decoded) :
    Except Fault Bound :=
  let offset := s.operandPosition pc
  instr.traverse
    (fun target =>
      match indexAt starts target with
      | some i => .ok i
      | none => .error (.malformed (s.rejection pc (.badBranchTarget target))))
    (fun index => s.file.bindField index offset)
    (fun operand => s.file.bindMethod .method operand.index offset)
    (fun operand => s.file.bindMethod .interfaceMethod operand.index offset)

/-- Binds instructions in order, those bound so far being `acc`. -/
def bindAll (s : Subject) (starts : Array (Option Nat)) (acc : Array (Nat × Bound)) :
    Listing → Except Fault (Array (Nat × Bound))
  | [] => .ok acc
  | (pc, instr) :: rest =>
    match bindInstr s starts pc instr with
    | .ok b => bindAll s starts (acc.push (pc, b)) rest
    | .error e => .error e

/-- Binds the instructions of a method. -/
def bindCode (s : Subject) (listing : Listing) : Except Fault LinkedBody :=
  match bindAll s (Listing.indexTable s.code.bytes.length listing) #[] listing with
  | .ok code => .ok ⟨s.code.maxStack, s.code.maxLocals, code⟩
  | .error e => .error e

/-! ## 3. Loading -/

/-- The class has a method of instances with this name, this descriptor and a body. -/
def hasInstanceMethod (file : ClassFile) (name descriptor : String) : Bool :=
  file.methods.any fun m =>
    m.name == name && m.descriptor == descriptor && m.code.isSome && !m.flags.isStatic

/-- The methods that a comparator must have. -/
def capability : List (String × String) :=
  [(setLeftName, setLeftDescriptor), (compareName, compareDescriptor)]

/-- Superclass, constructor, and for comparators their methods. -/
def checkShape (file : ClassFile) : Except LinkFault Unit :=
  if file.superClass ≠ objectClass then .error (.unsupportedSuperclass file.superClass)
  else if !file.hasInstanceMethod initName initDescriptor then
    .error (.missingConstructor file.thisClass)
  else if file.interfaces.contains comparatorClass then
    match capability.find? fun p => !file.hasInstanceMethod p.1 p.2 with
    | some (name, descriptor) =>
      .error (.missingCapabilityMethod file.thisClass name descriptor)
    | none => .ok ()
  else .ok ()

/-- Checks and binds one method. -/
def linkMethod (file : ClassFile) (m : MethodDecl) : Except Fault LinkedMethod :=
  match m.code with
  | none => .ok ⟨m.name, m.descriptor, m.type, m.flags.isStatic, none⟩
  | some code =>
    let subject : Subject := ⟨file, m, code⟩
    match subject.check with
    | .error e => .error (.malformed e)
    | .ok listing =>
      match bindCode subject listing with
      | .error e => .error e
      | .ok body => .ok ⟨m.name, m.descriptor, m.type, m.flags.isStatic, some body⟩

/-- Checks and binds methods in order. -/
def linkMethods (file : ClassFile) (acc : Array LinkedMethod) :
    List MethodDecl → Except Fault (List LinkedMethod)
  | [] => .ok acc.toList
  | m :: rest =>
    match file.linkMethod m with
    | .ok linked => file.linkMethods (acc.push linked) rest
    | .error e => .error e

/-- Checks and binds a class. -/
def link (file : ClassFile) : Except Fault LinkedClass :=
  match file.checkShape with
  | .error e => .error (.link e)
  | .ok () =>
    match file.linkMethods #[] file.methods with
    | .error e => .error e
    | .ok methods =>
      .ok ⟨file.thisClass, file.superClass, file.interfaces, file.version,
        file.fields.map fun f => ⟨f.name, f.type⟩, methods⟩

end ClassFile

/-- Reads, checks and binds a class. -/
def LinkedClass.load (input : List UInt8) : Except Fault LinkedClass :=
  match ClassFile.parse input with
  | .error e => .error (.malformed e)
  | .ok file => file.link

end Collation
