/-
  File:      Collation/Code/Instr.lean
  Subject:   Instructions.

  One type serves code as it was read and code that is ready to run; the two differ in what
  a jump, a field and a call carry.  Code as read (`Decoded`) carries code offsets and pool
  indices.
-/
namespace Collation

/-- The condition of a jump. -/
inductive Comparison where
  | eq | ne | lt | ge | gt | le
  deriving DecidableEq, Repr

namespace Comparison

/-- The conditions in the order of their opcodes. -/
def ofRank : Nat → Comparison
  | 0 => .eq
  | 1 => .ne
  | 2 => .lt
  | 3 => .ge
  | 4 => .gt
  | _ => .le

/-- Whether the condition holds of two integers. -/
def holds : Comparison → Int32 → Int32 → Bool
  | .eq, a, b => a == b
  | .ne, a, b => a != b
  | .lt, a, b => a < b
  | .ge, a, b => b ≤ a
  | .gt, a, b => b < a
  | .le, a, b => a ≤ b

end Comparison

/-- An instruction whose jumps carry a `τ`, whose field accesses carry a `φ` and whose calls
    carry a `μ`. -/
inductive Instr (τ φ μ : Type) where
  | push (value : Int32)
  | iload (slot : Nat)
  | aload (slot : Nat)
  | istore (slot : Nat)
  | astore (slot : Nat)
  | pop
  | dup
  | swap
  | iadd
  | isub
  | imul
  | ineg
  | i2l
  | lcmp
  /-- Compares doubles, with the answer for an unordered pair. -/
  | dcmp (unordered : Int32)
  /-- Compares an integer with zero and jumps. -/
  | ifZero (condition : Comparison) (target : τ)
  /-- Compares two integers and jumps. -/
  | ifInts (condition : Comparison) (target : τ)
  | goto (target : τ)
  | ireturn
  | vreturn
  | getfield (field : φ)
  | putfield (field : φ)
  | invokespecial (method : μ)
  | invokeinterface (method : μ)
  deriving DecidableEq, Repr

namespace Instr

variable {τ φ μ : Type}

/-- Control never goes on to the next instruction. -/
def isUnconditional : Instr τ φ μ → Bool
  | .goto _ | .ireturn | .vreturn => true
  | _ => false

/-- Where the instruction may jump. -/
def target? : Instr τ φ μ → Option τ
  | .ifZero _ t | .ifInts _ t | .goto t => some t
  | _ => none

/-- Replaces what jumps, field accesses and calls carry; each replacement may fail. -/
def traverse {ε τ' φ' μ' : Type} (jump : τ → Except ε τ') (access : φ → Except ε φ')
    (special interface : μ → Except ε μ') : Instr τ φ μ → Except ε (Instr τ' φ' μ')
  | .push v => .ok (.push v)
  | .iload n => .ok (.iload n)
  | .aload n => .ok (.aload n)
  | .istore n => .ok (.istore n)
  | .astore n => .ok (.astore n)
  | .pop => .ok .pop
  | .dup => .ok .dup
  | .swap => .ok .swap
  | .iadd => .ok .iadd
  | .isub => .ok .isub
  | .imul => .ok .imul
  | .ineg => .ok .ineg
  | .i2l => .ok .i2l
  | .lcmp => .ok .lcmp
  | .dcmp u => .ok (.dcmp u)
  | .ifZero c t => (jump t).map (.ifZero c)
  | .ifInts c t => (jump t).map (.ifInts c)
  | .goto t => (jump t).map .goto
  | .ireturn => .ok .ireturn
  | .vreturn => .ok .vreturn
  | .getfield f => (access f).map .getfield
  | .putfield f => (access f).map .putfield
  | .invokespecial m => (special m).map .invokespecial
  | .invokeinterface m => (interface m).map .invokeinterface

end Instr

/-- What a call carries in code as read: a pool index and, for calls through an interface,
    the declared number of argument slots. -/
structure CallOperand where
  index : UInt16
  slots : Option UInt8
  deriving DecidableEq, Repr

/-- An instruction as read: jumps by code offset, members by pool index. -/
abbrev Decoded : Type := Instr Nat UInt16 CallOperand

/-- Instructions with the code offsets at which they begin, in order. -/
abbrev Listing : Type := List (Nat × Decoded)

end Collation
