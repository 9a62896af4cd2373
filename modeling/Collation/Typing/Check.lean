/-
  File:      Collation/Typing/Check.lean
  Subject:   Checking the code of a method against its stack map.

  The check walks once through the instructions.  It keeps the frame before the next one, or
  none after a jump or a return; where a frame is declared, the current one must be
  assignable to it and is replaced by it.  Jumps must find a declared frame to which theirs
  is assignable, and control may not run off the end.

  * `Subject.checkInstr` -- what one instruction makes of a frame;
  * `Subject.checkFrom` -- the walk;
  * `ClassFile.verify` -- the instructions of an accepted method.
-/
import Collation.Typing.Declared

namespace Collation

/-- Why an instruction is refused: for what it does to the frame, or because what it refers
    to is not in the class file. -/
inductive StepDefect where
  | code (defect : CodeDefect)
  | reference (rejection : Rejection)
  deriving DecidableEq, Repr

/-- A method under check. -/
structure Subject where
  file : ClassFile
  method : MethodDecl
  code : CodeBody
  deriving DecidableEq, Repr

namespace Subject

/-- The rejection for a defect at a code offset. -/
def rejection (s : Subject) (offset : Nat) (defect : CodeDefect) : Rejection :=
  ⟨s.code.position + offset, .badCode s.method.signature offset defect⟩

/-- Where in the class file the operand of the instruction at `pc` stands. -/
def operandPosition (s : Subject) (pc : Nat) : Nat := s.code.position + pc + 1

/-- The owner and the type of the field at a pool index. -/
def fieldAt (s : Subject) (index : UInt16) (pc : Nat) : Except Rejection (String × FieldType) :=
  match s.file.pool.member index .field (s.operandPosition pc) with
  | .error e => .error e
  | .ok m =>
    match FieldType.parse m.descriptor with
    | .ok t => .ok (m.owner, t)
    | .error _ => .error ⟨s.operandPosition pc, .badDescriptor m.descriptor⟩

/-- The owner and the type of the method at a pool index. -/
def methodAt (s : Subject) (index : UInt16) (kind : MemberKind) (pc : Nat) :
    Except Rejection (String × MethodType) :=
  match s.file.pool.member index kind (s.operandPosition pc) with
  | .error e => .error e
  | .ok m =>
    match MethodType.parse m.descriptor with
    | .ok t => .ok (m.owner, t)
    | .error _ => .error ⟨s.operandPosition pc, .badDescriptor m.descriptor⟩

/-- A jump must find a declared frame to which the frame is assignable. -/
def checkJump (s : Subject) (frames : FrameTable) (f : Frame) (target : Nat) :
    Except CodeDefect Unit :=
  match frames.at? target with
  | none => .error .missingFrame
  | some declared =>
    if s.file.frameAssignable f declared then .ok () else .error .incompatibleFrame

/-- What reading a field makes of a frame. -/
def checkGet (s : Subject) (f : Frame) (owner : String) (t : FieldType) :
    Except CodeDefect Frame := do
  let f ← s.file.popExpecting f (.object owner)
  f.push (.ofField t) s.code.maxStack

/-- What writing a field makes of a frame. -/
def checkPut (s : Subject) (f : Frame) (owner : String) (t : FieldType) :
    Except CodeDefect Frame :=
  s.file.popAll f [.ofField t, .object owner]

/-- What a call makes of a frame.  The arguments are on the stack in order, above the
    receiver. -/
def checkCall (s : Subject) (f : Frame) (slots : Option UInt8) (owner : String)
    (t : MethodType) : Except CodeDefect Frame :=
  if slots.any fun n => n.toNat ≠ t.slotsWithReceiver then .error .badOperand
  else do
    let f ← s.file.popAll f (t.parameters.reverse.map SlotType.ofField)
    let f ← s.file.popExpecting f (.object owner)
    match t.result with
    | none => return f
    | some result => f.push (.ofField result) s.code.maxStack

/-- Marks a defect of the frame. -/
def codeDefect {α : Type} : Except CodeDefect α → Except StepDefect α
  | .ok a => .ok a
  | .error d => .error (.code d)

/-- What the instruction at `pc` makes of a frame. -/
def checkInstr (s : Subject) (frames : FrameTable) (f : Frame) (pc : Nat) (instr : Decoded) :
    Except StepDefect Frame :=
  let room := s.code.maxStack
  match instr with
  | .push _ => codeDefect (f.push .int room)
  | .iload n => codeDefect do
    let t ← f.local? n
    if t = .int then f.push .int room else .error .invalidType
  | .aload n => codeDefect do
    let t ← f.local? n
    if t.isReference then f.push t room else .error .invalidType
  | .istore n => codeDefect do
    let f ← s.file.popExpecting f .int
    f.setLocal n .int
  | .astore n => codeDefect do
    let (t, f) ← f.pop
    if t.isReference then f.setLocal n t else .error .invalidType
  | .pop => codeDefect do
    let (_, f) ← f.popNarrow
    return f
  | .dup => codeDefect do
    let (t, f) ← f.popNarrow
    let f ← f.push t room
    f.push t room
  | .swap => codeDefect do
    let (upper, f) ← f.popNarrow
    let (lower, f) ← f.popNarrow
    let f ← f.push upper room
    f.push lower room
  | .iadd | .isub | .imul => codeDefect do
    let f ← s.file.popAll f [.int, .int]
    f.push .int room
  | .ineg => codeDefect do
    let f ← s.file.popExpecting f .int
    f.push .int room
  | .i2l => codeDefect do
    let f ← s.file.popExpecting f .int
    f.push .long room
  | .lcmp => codeDefect do
    let f ← s.file.popAll f [.long, .long]
    f.push .int room
  | .dcmp _ => codeDefect do
    let f ← s.file.popAll f [.double, .double]
    f.push .int room
  | .ifZero _ target => codeDefect do
    let f ← s.file.popExpecting f .int
    s.checkJump frames f target
    return f
  | .ifInts _ target => codeDefect do
    let f ← s.file.popAll f [.int, .int]
    s.checkJump frames f target
    return f
  | .goto target => codeDefect do
    s.checkJump frames f target
    return f
  | .ireturn => codeDefect <|
    if s.method.type.result.map SlotType.ofField = some .int then s.file.popExpecting f .int
    else .error .badReturn
  | .vreturn => codeDefect <|
    if s.method.type.result.isNone then .ok f else .error .badReturn
  | .getfield index =>
    match s.fieldAt index pc with
    | .ok (owner, t) => codeDefect (s.checkGet f owner t)
    | .error e => .error (.reference e)
  | .putfield index =>
    match s.fieldAt index pc with
    | .ok (owner, t) => codeDefect (s.checkPut f owner t)
    | .error e => .error (.reference e)
  | .invokespecial operand =>
    match s.methodAt operand.index .method pc with
    | .ok (owner, t) => codeDefect (s.checkCall f operand.slots owner t)
    | .error e => .error (.reference e)
  | .invokeinterface operand =>
    match s.methodAt operand.index .interfaceMethod pc with
    | .ok (owner, t) => codeDefect (s.checkCall f operand.slots owner t)
    | .error e => .error (.reference e)

/-- The frame with which the instruction at `pc` is checked, given the one that control
    brings there, if it gets there. -/
def frameAt (s : Subject) (frames : FrameTable) (current : Option Frame) (pc : Nat) :
    Except CodeDefect Frame :=
  match frames.at? pc, current with
  | none, none => .error .missingFrame
  | none, some f => .ok f
  | some declared, none => .ok declared
  | some declared, some f =>
    if s.file.frameAssignable f declared then .ok declared else .error .incompatibleFrame

/-- Walks through the instructions, control bringing the frame `current`, if any, to the
    first of them. -/
def checkFrom (s : Subject) (frames : FrameTable) (current : Option Frame) :
    Listing → Except Rejection Unit
  | [] =>
    match current with
    | none => .ok ()
    | some _ => .error (s.rejection s.code.bytes.length .fallsOffEnd)
  | (pc, instr) :: rest =>
    match s.frameAt frames current pc with
    | .error d => .error (s.rejection pc d)
    | .ok f =>
      match s.checkInstr frames f pc instr with
      | .error (.code d) => .error (s.rejection pc d)
      | .error (.reference e) => .error e
      | .ok f' => s.checkFrom frames (if instr.isUnconditional then none else some f') rest

/-- Checks the body of a method and gives its instructions. -/
def check (s : Subject) : Except Rejection Listing :=
  match Code.decode s.code.bytes with
  | .error (pc, d) => .error (s.rejection pc d)
  | .ok listing =>
    match s.file.declaredFrames s.method s.code listing with
    | .error (pc, d) => .error (s.rejection pc d)
    | .ok frames =>
      match Frame.layOut s.code (s.file.entryTypes s.method) [] with
      | .error d => .error (s.rejection 0 d)
      | .ok entry =>
        match s.checkFrom frames (some entry) listing with
        | .error e => .error e
        | .ok () => .ok listing

end Subject

/-- Checks a method and gives its instructions; an abstract method has none. -/
def ClassFile.verify (file : ClassFile) (method : MethodDecl) :
    Except Rejection (Option Listing) :=
  match method.code with
  | none => .ok none
  | some code =>
    match (Subject.mk file method code).check with
    | .ok listing => .ok (some listing)
    | .error e => .error e

end Collation
