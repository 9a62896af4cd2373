/-
  File:      Collation/Comparator/Generator.lean
  Subject:   Generating a comparator class for a layout.

  The class has one field for the left record, a method that sets it, and a method that
  compares it with a right record.  The latter reads both records under each key in turn and
  leaves at the first key that tells them apart: every key but the last is followed by a jump
  to the common end, which returns the result from a local.

  * `Generator.writeKey` -- the code of one key;
  * `Generator.writeClass` -- the whole class;
  * `Generator.generate`, `Generator.assemble` -- the bytes of the class, and the linked class.
-/
import Collation.Assembler.Members
import Collation.Fault.Message
import Collation.Layout
import Collation.Linked

namespace Collation

/-! ## 1. Generators -/

/-- A session that is used for one class after the other, and how many there were. -/
structure Generator where
  session : Session
  generated : Nat
  deriving DecidableEq, Repr

/-- Why no class was generated. -/
inductive GenerationFault where
  | failed (cause : Failure)
  | columnOutOfRange (column : UInt16)
  | missingAccessor (kind : ColumnKind)
  deriving DecidableEq, Repr

/-- A failure as a sentence. -/
def Failure.message : Failure → String
  | .refused fault => fault.message
  | .outOfBounds => "position past the end of the buffer"

/-- A failure with all its parts. -/
def Failure.detail : Failure → String
  | .refused fault => fault.detail
  | .outOfBounds => "OutOfBounds"

def ColumnKind.spelled : ColumnKind → String
  | .int => "Int"
  | .long => "Long"
  | .double => "Double"

namespace GenerationFault

/-- The failure behind this one. -/
def cause? : GenerationFault → Option Failure
  | .failed cause => some cause
  | .columnOutOfRange _ | .missingAccessor _ => none

def message : GenerationFault → String
  | .failed cause => "comparator generation failed: " ++ cause.message
  | .columnOutOfRange c => "column " ++ toString c.toNat ++ " is out of range"
  | .missingAccessor kind => "no accessor constant for " ++ kind.spelled

/-- A fault with all its parts. -/
def detail : GenerationFault → String
  | .failed cause => Text.tuple "BytecodeGen" [cause.detail]
  | .columnOutOfRange c => Text.tuple "ColumnOutOfRange" [toString c.toNat]
  | .missingAccessor kind => Text.tuple "MissingAccessor" [kind.spelled]

end GenerationFault

/-- Writing a class: what a session does, and what else can go wrong. -/
abbrev Generation : Type → Type := EStateM GenerationFault Session

/-- A step of a session while a class is written. -/
def Generation.ofAssembly {α : Type} (x : Assembly α) : Generation α := fun s =>
  match x s with
  | .ok a t => .ok a t
  | .error cause t => .error (.failed cause) t

instance : MonadLift Assembly Generation := ⟨Generation.ofAssembly⟩

namespace Generator

open Assembly

/-- A generator that has generated nothing. -/
def new : Generator := ⟨.empty, 0⟩

/-- The name that the next class will have. -/
def nextName (g : Generator) : String :=
  "io/classasm/gen/RecordComparator$" ++ toString g.generated

/-! ## 2. The code of the comparing method -/

/-- The constants that the code of a comparator refers to. -/
structure Indices where
  /-- The field with the left record. -/
  left : UInt16
  /-- The name of the attribute with stack maps. -/
  stackMap : UInt16
  /-- The methods that read columns, with the kinds of the columns. -/
  accessors : List (ColumnKind × UInt16)

namespace Indices

/-- The method that reads columns of a kind, if there is one. -/
def accessor? (pool : Indices) (kind : ColumnKind) : Option UInt16 := pool.accessors.lookup kind

def accessor (pool : Indices) (kind : ColumnKind) : Generation UInt16 :=
  match pool.accessor? kind with
  | some method => pure method
  | none => throw (.missingAccessor kind)

end Indices

/-- The local that holds the result. -/
def resultLocal : UInt8 := 2

/-- Pushes the left or the right record, and the number of a column. -/
def operandCode (pool : Indices) (key : SortKey) (ofLeft : Bool) : List UInt8 :=
  (if ofLeft then Encode.aload 0 ++ Encode.getfield pool.left else Encode.aload 1) ++
    Encode.pushInt (Int32.ofNat key.column.toNat)

/-- Reads a column of a kind by this method; integers are widened. -/
def accessCode (kind : ColumnKind) (method : UInt16) : List UInt8 :=
  Encode.invokeinterface method 2 ++ (if kind = .int then [Opcode.i2l] else [])

/-- Writes code that pushes a column of the left or of the right record. -/
def writeValue (pool : Indices) (key : SortKey) (ofLeft : Bool) : Generation Unit := do
  emit (operandCode pool key ofLeft)
  let method ← pool.accessor key.kind
  emit (accessCode key.kind method)

/-- The instruction that compares two values of a kind. -/
def comparisonOpcode : ColumnKind → UInt8
  | .int | .long => Opcode.lcmp
  | .double => Opcode.dcmpl

/-- Writes code that compares both records under a key and stores the result. -/
def writeKey (pool : Indices) (key : SortKey) : Generation Unit := do
  writeValue pool key (!key.descending)
  writeValue pool key key.descending
  emit ([comparisonOpcode key.kind] ++ Encode.istore resultLocal)

/-- Writes the code of all keys; the jumps that leave it early come out in reverse order. -/
def writeKeys (pool : Indices) (exits : List JumpSite) : List SortKey → Generation (List JumpSite)
  | [] => pure exits
  | [key] => do
    writeKey pool key
    return exits
  | key :: rest => do
    writeKey pool key
    emit (Encode.iload resultLocal)
    let exit ← jump Opcode.ifne
    writeKeys pool (exit :: exits) rest

/-- Makes all the jumps lead here, and gives the offset of this place if there are any. -/
def placeAll (place : Option Nat) : List JumpSite → Assembly (Option Nat)
  | [] => pure place
  | exit :: rest => do
    let target ← placeJump exit
    placeAll (some target) rest

/-- Writes the attributes of code that is entered by jumps at one place, if at all. -/
def writeStackMap (pool : Indices) : Option Nat → Assembly Unit
  | none => codeAttributes 0
  | some place => do
    codeAttributes 1
    appendIntFrame pool.stackMap (UInt16.ofNat place)

/-- Writes the method that compares. -/
def writeCompare (pool : Indices) (keys : List SortKey) (name descriptor : UInt16) :
    Generation Unit := do
  beginMethod .public name descriptor 4 3
  if keys.isEmpty then
    emit (Encode.pushInt 0 ++ [Opcode.ireturn])
    endCode
    codeAttributes 0
  else
    let exits ← writeKeys pool [] keys
    let place ← placeAll none exits.reverse
    emit (Encode.iload resultLocal ++ [Opcode.ireturn])
    endCode
    writeStackMap pool place
  endMethod

/-! ## 3. The class -/

/-- Writes the method that sets the left record. -/
def writeSetLeft (pool : Indices) (name descriptor : UInt16) : Assembly Unit := do
  beginMethod .public name descriptor 2 2
  emit (Encode.aload 0 ++ Encode.aload 1 ++ Encode.putfield pool.left ++ [Opcode.return_])
  endCode
  codeAttributes 0
  endMethod

/-- Adds a class by name. -/
def addClass (name : String) : Assembly UInt16 := do
  let text ← addConstant (.text name)
  addConstant (.cls text)

/-- Adds the methods that read the columns of some kinds. -/
def addAccessors (recordIndex : UInt16) :
    List ColumnKind → Assembly (List (ColumnKind × UInt16))
  | [] => pure []
  | kind :: rest => do
    let name ← addConstant (.text kind.accessorName)
    let descriptor ← addConstant (.text kind.accessorDescriptor)
    let pair ← addConstant (.nameAndType name descriptor)
    let method ← addConstant (.member .interfaceMethod recordIndex pair)
    let others ← addAccessors recordIndex rest
    return (kind, method) :: others

/-- Writes the class with a given name. -/
def writeClass (className : String) (layout : Layout) : Generation Unit := do
  let _ ← setupPool
  let this ← addClass className
  let comparator ← addClass comparatorClass
  let record ← addClass recordClass
  let leftName ← addConstant (.text "left")
  let leftDescriptor ← addConstant (.text recordDescriptor)
  let leftPair ← addConstant (.nameAndType leftName leftDescriptor)
  let left ← addConstant (.member .field this leftPair)
  let setLeftIndex ← addConstant (.text setLeftName)
  let setLeftType ← addConstant (.text setLeftDescriptor)
  let compareIndex ← addConstant (.text compareName)
  let compareType ← addConstant (.text compareDescriptor)
  let stackMap ← addConstant (.text stackMapAttributeName)
  let accessors ← addAccessors record layout.kinds
  finishPool
  let pool : Indices := ⟨left, stackMap, accessors⟩
  defineClass .publicFinal this
  declareInterfaces [comparator]
  declareCount 1
  defineField .private leftName leftDescriptor
  declareCount 3
  defineDefaultConstructor
  writeSetLeft pool setLeftIndex setLeftType
  writeCompare pool layout.keys compareIndex compareType
  declareCount 0

/-! ## 4. Generating -/

/-- The bytes of the next class, which its session holds alone.  A failure leaves behind what was
    written of the class, and does not count. -/
def generate (g : Generator) (layout : Layout) :
    Except GenerationFault (List UInt8) × Generator :=
  match layout.keys.find? fun key => maxColumn < key.column.toNat with
  | some key => (.error (.columnOutOfRange key.column), g)
  | none =>
    match (liftM clear *> writeClass g.nextName layout) g.session with
    | .ok _ s => (.ok s.bytes, ⟨s, g.generated + 1⟩)
    | .error fault s => (.error fault, ⟨s, g.generated⟩)

/-- The next class, linked. -/
def assemble (g : Generator) (layout : Layout) : Except GenerationFault LinkedClass × Generator :=
  match g.generate layout with
  | (.error e, g) => (.error e, g)
  | (.ok bytes, g) =>
    match LinkedClass.load bytes with
    | .ok cls => (.ok cls, g)
    | .error fault => (.error (.failed (.refused fault)), g)

end Generator

end Collation
