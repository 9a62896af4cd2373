/-
  File:      Collation/Assembler/Code.lean
  Subject:   Writing methods and their code.

  One method is open at a time.  Its code is written first and closed, which fills in its
  length; attributes of the code may follow until the method is ended.  A jump to a place not
  yet written leaves a site (`JumpSite`), to be filled in when the place is reached.
-/
import Collation.Assembler.Constants
import Collation.Code.Encode

namespace Collation

/-! ## 1. The open method -/

namespace Session

/-- The method that is open. -/
def openMethod (s : Session) : Except Misuse OpenMethod :=
  match s.method with
  | none => .error .noOpenMethod
  | some m => .ok m

/-- The method whose code is open, and the field for the length of the code. -/
def openCode (s : Session) : Except Misuse (OpenMethod × Reserved32) :=
  match s.openMethod with
  | .error e => .error e
  | .ok m =>
    match m.codeLength with
    | none => .error .codeAlreadyClosed
    | some field => .ok (m, field)

end Session

/-- A jump whose target is not written yet. -/
structure JumpSite where
  /-- Where the instruction begins, from the start of the code. -/
  instructionOffset : Nat
  /-- Where its operand is, from the start of the buffer. -/
  operandPosition : Nat
  deriving DecidableEq, Repr

namespace Assembly

/-- Opens a method and its code. -/
def beginMethod (flags : MethodFlags) (name descriptor maxStack maxLocals : UInt16) :
    Assembly Unit := do
  if (← get).method.isSome then refuse .methodAlreadyOpen
  let standard ← standardPool
  write (Word.bytes16 flags.bits ++ Word.bytes16 name ++ Word.bytes16 descriptor ++
    Word.bytes16 1 ++ Word.bytes16 standard.codeAttribute)
  let attributeLength ← reserve32
  write (Word.bytes16 maxStack ++ Word.bytes16 maxLocals)
  let codeLength ← reserve32
  modify fun s => { s with method := some ⟨attributeLength, some codeLength, s.position⟩ }

/-! ## 2. Code -/

/-- How many bytes of code were written. -/
def codeOffset : Assembly Nat := fun s =>
  match s.openCode with
  | .error e => refuse e s
  | .ok (m, _) =>
    if m.codeStart ≤ s.position then .ok (s.position - m.codeStart) s else .error .outOfBounds s

/-- Appends an instruction, or several. -/
def emit (bytes : List UInt8) : Assembly Unit := fun s =>
  match s.openCode with
  | .error e => refuse e s
  | .ok _ => write bytes s

/-- Appends a jump to a place that comes later. -/
def jump (opcode : UInt8) : Assembly JumpSite := do
  let instructionOffset ← codeOffset
  emit [opcode]
  let operandPosition := (← get).position
  write (Word.bytes16 0)
  return ⟨instructionOffset, operandPosition⟩

/-- The longest way that a jump can go. -/
def maxJump : Nat := 32767

/-- Makes a jump lead to the present place, and gives the offset of that place. -/
def placeJump (site : JumpSite) : Assembly Nat := do
  let target ← codeOffset
  if target ≤ site.instructionOffset then refuse .backwardJump
  let delta := target - site.instructionOffset
  if maxJump < delta then refuse (.codeTooLarge delta)
  overwrite site.operandPosition (Word.bytes16 (UInt16.ofNat delta))
  return target

/-- The size that code may not reach. -/
def codeLimit : Nat := 65536

/-- Closes the code: fills in its length.  A code that is refused stays open. -/
def endCode : Assembly Unit := fun s =>
  match s.openCode with
  | .error e => refuse e s
  | .ok (m, field) =>
    match field.spanTo s.position with
    | none => .error .outOfBounds s
    | some length =>
      if length = 0 then refuse .emptyCode s
      else if codeLimit ≤ length then refuse (.codeTooLarge length) s
      else
        overwrite field.position (Word.bytes32 (UInt32.ofNat length))
          { s with method := some { m with codeLength := none } }

/-! ## 3. After the code -/

/-- Announces the attributes of the code, after an empty table of handlers. -/
def codeAttributes (count : UInt16) : Assembly Unit :=
  write (Word.bytes16 0 ++ Word.bytes16 count)

/-- A stack map with one frame, which has one more local, an integer, than the first one. -/
def appendIntFrame (name target : UInt16) : Assembly Unit := do
  write (Word.bytes16 name)
  let length ← reserve32
  write (Word.bytes16 1 ++ [252] ++ Word.bytes16 target ++ [1])
  fillSpan length

/-- Ends the method: fills in the length of the code attribute. -/
def endMethod : Assembly Unit := fun s =>
  match s.openMethod with
  | .error e => refuse e s
  | .ok m =>
    if m.codeLength.isSome then refuse .codeStillOpen s
    else fillSpan m.attributeLength { s with method := none }

end Assembly

end Collation
