/-
  File:      Collation/Assembler/Constants.lean
  Subject:   Writing the header and the pool of constants.

  Constants are numbered from one in the order of writing.  A constant that is refused leaves
  no trace.
-/
import Collation.Assembler.Session
import Collation.ClassFile.Access
import Collation.ClassFile.Constant
import Collation.ClassFile.Names

namespace Collation.Assembly

/-- The number of constants, the unused index zero counted, that no pool may pass. -/
def poolLimit : Nat := 65535

/-- Writes the header. -/
def beginClass (version : Version) : Assembly Unit := fun s =>
  match s.stage with
  | .fresh =>
    let header := s.buffer.putBytes
      (Word.bytes32 ClassFile.magic ++ Word.bytes16 version.minor ++ Word.bytes16 version.major)
    let (countField, buffer) := header.reserve16
    .ok () { s with buffer := buffer, stage := .pooling countField }
  | _ => refuse .classAlreadyBegun s

/-- Writes a constant and gives its index. -/
def addConstant (c : Constant) : Assembly UInt16 := fun s =>
  match s.stage with
  | .fresh => refuse .classNotBegun s
  | .pooled => refuse .poolAlreadyFinished s
  | .pooling _ =>
    if s.poolCount = poolLimit then .error (.refused (.poolOverflow s.poolCount)) s
    else
      match c.bytes with
      | .error fault => .error (.refused fault) s
      | .ok bytes =>
        .ok (UInt16.ofNat s.poolCount)
          { s with buffer := s.buffer.putBytes bytes, poolCount := s.poolCount + 1 }

/-- Completes the pool: fills in the number of its constants. -/
def finishPool : Assembly Unit := fun s =>
  match s.stage with
  | .fresh => refuse .classNotBegun s
  | .pooled => refuse .poolAlreadyFinished s
  | .pooling countField =>
    overwrite countField.position (Word.bytes16 (UInt16.ofNat s.poolCount)) { s with stage := .pooled }

/-- Writes the header and the constants that every class needs. -/
def setupPool : Assembly StandardPool := do
  beginClass .written
  let objectName ← addConstant (.text Collation.objectClass)
  let objectClass ← addConstant (.cls objectName)
  let initName ← addConstant (.text Collation.initName)
  let initDescriptor ← addConstant (.text Collation.initDescriptor)
  let init ← addConstant (.nameAndType initName initDescriptor)
  let objectInit ← addConstant (.member .method objectClass init)
  let codeAttribute ← addConstant (.text codeAttributeName)
  let standard := ⟨objectClass, initName, initDescriptor, objectInit, codeAttribute⟩
  modify fun s => { s with standard := some standard }
  return standard

/-- The constants that every class needs, which must have been written. -/
def standardPool : Assembly StandardPool := fun s =>
  match s.standard with
  | some standard => .ok standard s
  | none => refuse (if s.stage = .fresh then .classNotBegun else .standardPoolMissing) s

end Collation.Assembly
