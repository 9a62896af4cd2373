/-
  File:      Collation/ClassFile/Parse.lean
  Subject:   Reading a class file.

  Each part is read in the order of the file, every index is resolved where it is read, and
  every declared length is compared with what was read.  `ClassFile.parse` reads a whole
  file and refuses bytes that follow it.
-/
import Collation.ClassFile.Basic
import Collation.ClassFile.Names
import Collation.ClassFile.Reader

namespace Collation.ClassFile

open Reader

/-! ## 1. The pool -/

/-- Reads one constant, together with the byte at which it begins. -/
def readConstant : Reader (Nat × Constant) := do
  let offset ← position
  let tag ← u8
  if tag = ConstantKind.text.tag then
    let length ← u16
    let encoded ← bytes length.toNat
    match ModifiedUtf8.decode encoded with
    | some value => return (offset, .text value)
    | none => reject offset .badText
  else if tag = ConstantKind.cls.tag then
    return (offset, .cls (← u16))
  else if tag = ConstantKind.field.tag then
    return (offset, .member .field (← u16) (← u16))
  else if tag = ConstantKind.method.tag then
    return (offset, .member .method (← u16) (← u16))
  else if tag = ConstantKind.interfaceMethod.tag then
    return (offset, .member .interfaceMethod (← u16) (← u16))
  else if tag = ConstantKind.nameAndType.tag then
    return (offset, .nameAndType (← u16) (← u16))
  else reject offset (.unknownConstantTag tag)

/-- Reads the pool and checks the indices inside it. -/
def readPool : Reader Pool := do
  let offset ← position
  let count ← u16
  if count = 0 then reject offset .badPoolCount
  else
    let constants ← times (count.toNat - 1) readConstant
    let pool : Pool := ⟨(constants.map Prod.snd).toArray⟩
    answer (pool.checkEntries constants)
    return pool

/-- Reads an index and resolves it to a class name. -/
def readClassName (pool : Pool) : Reader String := do
  let offset ← position
  let index ← u16
  answer (pool.className index offset)

/-- Reads an index and resolves it to a text. -/
def readText (pool : Pool) : Reader String := do
  let offset ← position
  let index ← u16
  answer (pool.text index offset)

/-! ## 2. Fields -/

/-- Skips the body of an attribute. -/
def skipBody : Reader Unit := do
  let length ← u32
  discard (bytes length.toNat)

/-- Skips attributes, whose names must still be texts. -/
def skipAttributes (pool : Pool) : Reader Unit := do
  let count ← u16
  discard <| times count.toNat do
    discard (readText pool)
    skipBody

def readField (pool : Pool) : Reader FieldDecl := do
  let flags ← u16
  let name ← readText pool
  let offset ← position
  let descriptor ← readText pool
  match FieldType.parse descriptor with
  | .error _ => reject offset (.badDescriptor descriptor)
  | .ok type =>
    skipAttributes pool
    return ⟨.ofWord flags, name, type⟩

/-! ## 3. Stack maps -/

def readSlotType (pool : Pool) : Reader SlotType := do
  let offset ← position
  let tag ← u8
  if tag = 0 then return .top
  else if tag = 1 then return .int
  else if tag = 2 then return .float
  else if tag = 3 then return .double
  else if tag = 4 then return .long
  else if tag = 5 then return .null
  else if tag = 7 then return .object (← readClassName pool)
  else reject offset (.badSlotType tag)

/-- Reads one frame.  Small deltas stand in the tag itself. -/
def readFrame (pool : Pool) : Reader FrameDelta := do
  let offset ← position
  let tag ← u8
  if tag.toNat ≤ 63 then return .same (UInt16.ofNat tag.toNat)
  else if tag.toNat ≤ 127 then
    return .sameWithOne (UInt16.ofNat (tag.toNat - 64)) (← readSlotType pool)
  else if tag.toNat ≤ 246 then reject offset (.unsupportedFrame tag)
  else if tag.toNat = 247 then
    let delta ← u16
    return .sameWithOne delta (← readSlotType pool)
  else if tag.toNat ≤ 250 then return .chop (← u16) (251 - tag.toNat)
  else if tag.toNat = 251 then return .same (← u16)
  else if tag.toNat ≤ 254 then
    let delta ← u16
    return .append delta (← times (tag.toNat - 251) (readSlotType pool))
  else
    let delta ← u16
    let localCount ← u16
    let locals ← times localCount.toNat (readSlotType pool)
    let stackCount ← u16
    let stack ← times stackCount.toNat (readSlotType pool)
    return .full delta locals stack

/-- Reads something behind its declared length, and compares the two as 32-bit numbers. -/
def readMeasured {α : Type} (body : Reader α) : Reader α := do
  let offset ← position
  let declared ← u32
  let start ← position
  let a ← body
  let stop ← position
  if UInt32.ofNat (stop - start) = declared then return a
  else reject offset (.badLength declared (UInt32.ofNat (stop - start)))

def readStackMap (pool : Pool) : Reader (List FrameDelta) :=
  readMeasured do
    let count ← u16
    times count.toNat (readFrame pool)

/-! ## 4. Methods -/

/-- Reads one attribute: if it has the wanted name, into the place for it, which must still
    be empty; any other is skipped. -/
def readOnce {α : Type} (pool : Pool) (owner wanted : String) (body : Reader α)
    (found : Option α) : Reader (Option α) := do
  let offset ← position
  let name ← readText pool
  if name = wanted then
    match found with
    | some _ => reject offset (.duplicateAttribute owner wanted)
    | none => return some (← body)
  else
    skipBody
    return found

/-- Reads attributes of which at most one may have the wanted name. -/
def readAttributes {α : Type} (pool : Pool) (owner wanted : String) (body : Reader α) :
    Reader (Option α) := do
  let count ← u16
  iterate (readOnce pool owner wanted body) count.toNat none

/-- Reads the body of a method. -/
def readCode (pool : Pool) (signature : String) : Reader CodeBody :=
  readMeasured do
    let maxStack ← u16
    let maxLocals ← u16
    let lengthOffset ← position
    let length ← u32
    if length.toNat = 0 ∨ length.toNat ≥ 65536 then
      reject lengthOffset (.badLength length (UInt32.ofNat (← remaining)))
    else
      let codePosition ← position
      let code ← bytes length.toNat
      let handlersOffset ← position
      let handlers ← u16
      if handlers ≠ 0 then reject handlersOffset (.exceptionHandlers signature)
      else
        let stackMap ← readAttributes pool signature stackMapAttributeName (readStackMap pool)
        return ⟨maxStack, maxLocals, code, codePosition, stackMap.getD []⟩

def readMethod (pool : Pool) : Reader MethodDecl := do
  let start ← position
  let word ← u16
  let flags := MethodFlags.ofWord word
  let name ← readText pool
  let offset ← position
  let descriptor ← readText pool
  match MethodType.parse descriptor with
  | .error _ => reject offset (.badDescriptor descriptor)
  | .ok type =>
    let signature := name ++ descriptor
    let code ← readAttributes pool signature codeAttributeName (readCode pool signature)
    if code.isNone && !flags.isAbstract then reject start (.missingCode signature)
    else return ⟨flags, name, type, descriptor, code⟩

/-! ## 5. The whole file -/

def readVersion : Reader Version := do
  let offset ← position
  let minor ← u16
  let major ← u16
  if (Version.mk minor major).isSupported then return ⟨minor, major⟩
  else reject offset (.unsupportedVersion major minor)

/-- Reads a class file, and leaves what follows it. -/
def read : Reader ClassFile := do
  let word ← u32
  if word ≠ magic then reject 0 (.badMagic word)
  else
    let version ← readVersion
    let pool ← readPool
    let flags ← u16
    let thisClass ← readClassName pool
    let superClass ← readClassName pool
    let interfaceCount ← u16
    let interfaces ← times interfaceCount.toNat (readClassName pool)
    let fieldCount ← u16
    let fields ← times fieldCount.toNat (readField pool)
    let methodCount ← u16
    let methods ← times methodCount.toNat (readMethod pool)
    skipAttributes pool
    return ⟨version, pool, .ofWord flags, thisClass, superClass, interfaces, fields, methods⟩

/-- The class that a whole list of bytes describes. -/
def parse (input : List UInt8) : Except Rejection ClassFile :=
  match read (.start input) with
  | .error e => .error e
  | .ok (file, ⟨_, []⟩) => .ok file
  | .ok (_, ⟨offset, rest⟩) => .error ⟨offset, .trailingBytes rest.length⟩

end Collation.ClassFile
