/-
  File:      Collation/Machine/Value.lean
  Subject:   Values of running code.

  A reference is nothing, the instance whose method runs, or a record: one that the instance
  may keep, or one lent for the duration of a call.
-/
import Collation.Descriptor
import Collation.Fault
import Collation.Record

namespace Collation

/-- A reference, with records of type `ρ`. -/
inductive Reference (ρ : Type) where
  | null
  | this
  | shared (record : ρ)
  | borrowed (record : ρ)
  deriving DecidableEq, Repr

/-- A value on the stack, in a local or in a field.  A wide value is one value here. -/
inductive Value (ρ : Type) where
  | int (value : Int32)
  /-- A 32-bit floating-point number by its bits; nothing computes with it. -/
  | float (bits : UInt32)
  | long (value : Int64)
  | double (value : Binary64)
  | ref (reference : Reference ρ)
  deriving DecidableEq, Repr

variable {ρ : Type}

/-- The record that a reference leads to. -/
def Reference.record : Reference ρ → Except TrapCause ρ
  | .null => .error .nullReference
  | .this => .error .wrongReceiver
  | .shared r | .borrowed r => .ok r

/-- A reference through which fields are reached must be to the instance itself. -/
def Reference.checkSelf : Reference ρ → Except TrapCause Unit
  | .this => .ok ()
  | .null => .error .nullReference
  | .shared _ | .borrowed _ => .error .wrongReceiver

namespace Value

/-- The value that a field of a type begins with. -/
def zero : FieldType → Value ρ
  | .base .long => .long 0
  | .base .double => .double .zero
  | .base .float => .float 0
  | .base .int | .base .char | .base .short | .base .byte | .base .boolean => .int 0
  | .object _ | .array _ _ => .ref .null

/-- The value may be passed where the type is expected. -/
def hasType : Value ρ → FieldType → Bool
  | .long _, .base .long => true
  | .double _, .base .double => true
  | .float _, .base .float => true
  | .int _, .base .int | .int _, .base .short | .int _, .base .char | .int _, .base .byte
  | .int _, .base .boolean => true
  | .ref _, .object _ | .ref _, .array _ _ => true
  | _, _ => false

/-- How many slots of the locals the value takes. -/
def width : Value ρ → Nat
  | .long _ | .double _ => 2
  | _ => 1

/-- The value as a field can keep it: a record that is only lent cannot be kept. -/
def stored : Value ρ → Except TrapCause (Value ρ)
  | .ref (.borrowed _) => .error .escapingReference
  | v => .ok v

end Value

end Collation
