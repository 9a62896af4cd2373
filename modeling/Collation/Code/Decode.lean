/-
  File:      Collation/Code/Decode.lean
  Subject:   Reading the code of a method as instructions.

  Instructions stand one after another from the first byte to the last.  `Code.decodeOne`
  reads one and says how many operand bytes it has; `Code.decodeAll` reads all of them; then
  every jump must land on the beginning of an instruction (`Code.checkTargets`).  A defect
  comes with the code offset of its instruction.

  * `Listing.indexTable` -- for every code offset the number of the instruction that begins
    there.
-/
import Collation.Bytes.Word
import Collation.Code.Instr
import Collation.Code.Opcode
import Collation.Fault

namespace Collation

/-! ## 1. One instruction -/

namespace Code

/-- An instruction with one operand byte. -/
def withByte (rest : List UInt8) (make : UInt8 → Decoded) : Except CodeDefect (Decoded × Nat) :=
  match rest with
  | a :: _ => .ok (make a, 1)
  | _ => .error .truncatedInstruction

/-- An instruction with a two-byte operand. -/
def withWord (rest : List UInt8) (make : UInt16 → Decoded) : Except CodeDefect (Decoded × Nat) :=
  match rest with
  | a :: b :: _ => .ok (make (Word.ofBytes16 a b), 2)
  | _ => .error .truncatedInstruction

/-- A jump, whose operand is the signed distance from its own beginning; the target must
    lie in the code. -/
def withJump (size pc : Nat) (rest : List UInt8) (make : Nat → Decoded) :
    Except CodeDefect (Decoded × Nat) :=
  match rest with
  | a :: b :: _ =>
    let target : Int := pc + (Word.ofBytes16 a b).toInt16.toInt
    if 0 ≤ target ∧ target < size then .ok (make target.toNat, 2)
    else .error (.badBranchTarget target)
  | _ => .error .truncatedInstruction

/-- A call through an interface: index, number of argument slots, and a zero byte. -/
def withInterfaceCall (rest : List UInt8) : Except CodeDefect (Decoded × Nat) :=
  match rest with
  | a :: b :: slots :: zero :: _ =>
    if zero ≠ 0 ∨ slots = 0 then .error .badOperand
    else .ok (.invokeinterface ⟨Word.ofBytes16 a b, some slots⟩, 4)
  | _ => .error .truncatedInstruction

/-- Reads the instruction that begins with `opcode` at offset `pc` of a code of `size` bytes;
    gives it with the number of its operand bytes. -/
def decodeOne (size pc : Nat) (opcode : UInt8) (rest : List UInt8) :
    Except CodeDefect (Decoded × Nat) :=
  if Opcode.iconstM1 ≤ opcode ∧ opcode ≤ Opcode.iconst0 + 5 then
    .ok (.push (Int32.ofInt ((opcode.toNat : Int) - Opcode.iconst0.toNat)), 0)
  else if opcode = Opcode.bipush then
    withByte rest fun a => .push a.toInt8.toInt32
  else if opcode = Opcode.sipush then
    withWord rest fun w => .push w.toInt16.toInt32
  else if opcode = Opcode.iload then withByte rest fun a => .iload a.toNat
  else if opcode = Opcode.aload then withByte rest fun a => .aload a.toNat
  else if opcode = Opcode.istore then withByte rest fun a => .istore a.toNat
  else if opcode = Opcode.astore then withByte rest fun a => .astore a.toNat
  else if Opcode.iload0 ≤ opcode ∧ opcode ≤ Opcode.iload0 + 3 then
    .ok (.iload (opcode.toNat - Opcode.iload0.toNat), 0)
  else if Opcode.aload0 ≤ opcode ∧ opcode ≤ Opcode.aload0 + 3 then
    .ok (.aload (opcode.toNat - Opcode.aload0.toNat), 0)
  else if Opcode.istore0 ≤ opcode ∧ opcode ≤ Opcode.istore0 + 3 then
    .ok (.istore (opcode.toNat - Opcode.istore0.toNat), 0)
  else if Opcode.astore0 ≤ opcode ∧ opcode ≤ Opcode.astore0 + 3 then
    .ok (.astore (opcode.toNat - Opcode.astore0.toNat), 0)
  else if opcode = Opcode.pop then .ok (.pop, 0)
  else if opcode = Opcode.dup then .ok (.dup, 0)
  else if opcode = Opcode.swap then .ok (.swap, 0)
  else if opcode = Opcode.iadd then .ok (.iadd, 0)
  else if opcode = Opcode.isub then .ok (.isub, 0)
  else if opcode = Opcode.imul then .ok (.imul, 0)
  else if opcode = Opcode.ineg then .ok (.ineg, 0)
  else if opcode = Opcode.i2l then .ok (.i2l, 0)
  else if opcode = Opcode.lcmp then .ok (.lcmp, 0)
  else if opcode = Opcode.dcmpl then .ok (.dcmp (-1), 0)
  else if opcode = Opcode.dcmpg then .ok (.dcmp 1, 0)
  else if Opcode.ifeq ≤ opcode ∧ opcode ≤ Opcode.ifeq + 5 then
    withJump size pc rest (.ifZero (.ofRank (opcode.toNat - Opcode.ifeq.toNat)))
  else if Opcode.ifIcmpeq ≤ opcode ∧ opcode ≤ Opcode.ifIcmpeq + 5 then
    withJump size pc rest (.ifInts (.ofRank (opcode.toNat - Opcode.ifIcmpeq.toNat)))
  else if opcode = Opcode.goto then withJump size pc rest .goto
  else if opcode = Opcode.ireturn then .ok (.ireturn, 0)
  else if opcode = Opcode.return_ then .ok (.vreturn, 0)
  else if opcode = Opcode.getfield then withWord rest .getfield
  else if opcode = Opcode.putfield then withWord rest .putfield
  else if opcode = Opcode.invokespecial then withWord rest fun w => .invokespecial ⟨w, none⟩
  else if opcode = Opcode.invokeinterface then withInterfaceCall rest
  else .error (.unsupportedOpcode opcode)

/-! ## 2. All instructions -/

/-- Reads instructions to the end of the code, the next one beginning at `pc`. -/
def decodeAll (size pc : Nat) (acc : Array (Nat × Decoded)) (code : List UInt8) :
    Except (Nat × CodeDefect) (Array (Nat × Decoded)) :=
  match code with
  | [] => .ok acc
  | opcode :: rest =>
    match decodeOne size pc opcode rest with
    | .ok (instr, operands) =>
      decodeAll size (pc + 1 + operands) (acc.push (pc, instr)) (rest.drop operands)
    | .error defect => .error (pc, defect)
  termination_by code.length
  decreasing_by
    simp only [List.length_drop, List.length_cons]
    omega

end Code

/-! ## 3. Where instructions begin -/

/-- Notes in a table, under each offset, the number of the instruction that begins there;
    the first of the given instructions has number `i`. -/
def Listing.indexOnto (table : Array (Option Nat)) (i : Nat) : Listing → Array (Option Nat)
  | [] => table
  | (pc, _) :: rest => indexOnto (table.setIfInBounds pc (some i)) (i + 1) rest

/-- The number of the instruction that begins at each offset of a code of `size` bytes. -/
def Listing.indexTable (size : Nat) (listing : Listing) : Array (Option Nat) :=
  Listing.indexOnto (Array.replicate size none) 0 listing

/-- The number of the instruction that begins at an offset. -/
def indexAt (table : Array (Option Nat)) (offset : Nat) : Option Nat :=
  (table[offset]?).join

namespace Code

/-- Checks that every jump lands on the beginning of an instruction. -/
def checkTargets (table : Array (Option Nat)) : Listing → Except (Nat × CodeDefect) Unit
  | [] => .ok ()
  | (pc, instr) :: rest =>
    match instr.target? with
    | none => checkTargets table rest
    | some target =>
      if (indexAt table target).isSome then checkTargets table rest
      else .error (pc, .badBranchTarget target)

/-- Reads a whole code as instructions. -/
def decode (code : List UInt8) : Except (Nat × CodeDefect) Listing :=
  let size := code.length
  match decodeAll size 0 #[] code with
  | .error e => .error e
  | .ok all =>
    let listing := all.toList
    match checkTargets (Listing.indexTable size listing) listing with
    | .error e => .error e
    | .ok () => .ok listing

end Code

end Collation
