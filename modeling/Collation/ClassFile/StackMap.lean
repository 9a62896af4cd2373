/-
  File:      Collation/ClassFile/StackMap.lean
  Subject:   Types of slots, and the stack maps that declare them.

  A stack map lists frames in the order of the code; each says how far after the one before
  it stands, and how its locals and its stack differ.  Class names are already resolved.
-/
import Collation.Descriptor

namespace Collation

/-- The type of what a slot of the stack or of the locals holds. -/
inductive SlotType where
  /-- Nothing that can be used. -/
  | top
  | int
  | float
  | long
  | double
  | null
  /-- A reference, by class name; an array by its written type. -/
  | object (name : String)
  deriving DecidableEq, Repr

namespace SlotType

/-- How many slots such a value takes. -/
def width : SlotType → Nat
  | .long | .double => 2
  | _ => 1

def isReference : SlotType → Bool
  | .null | .object _ => true
  | _ => false

/-- The type that a base type has in a slot: all small integers are `int`. -/
def ofBase : BaseType → SlotType
  | .float => .float
  | .long => .long
  | .double => .double
  | .int | .char | .short | .byte | .boolean => .int

/-- The type that a field type has in a slot. -/
def ofField : FieldType → SlotType
  | .base b => ofBase b
  | .object name => .object name
  | .array n element => .object (FieldType.array n element).render

theorem width_ofField (t : FieldType) : (ofField t).width = t.width := by
  cases t with
  | base b => cases b <;> rfl
  | object _ => rfl
  | array _ _ => rfl

end SlotType

/-- One entry of a stack map. -/
inductive FrameDelta where
  /-- The locals of the frame before, and an empty stack. -/
  | same (delta : UInt16)
  /-- The locals of the frame before, and one value on the stack. -/
  | sameWithOne (delta : UInt16) (stack : SlotType)
  /-- The last `count` locals are gone; an empty stack. -/
  | chop (delta : UInt16) (count : Nat)
  /-- More locals at the end; an empty stack. -/
  | append (delta : UInt16) (locals : List SlotType)
  /-- New locals and a new stack, the top of the stack last. -/
  | full (delta : UInt16) (locals stack : List SlotType)
  deriving DecidableEq, Repr

/-- How far the frame stands after the one before. -/
def FrameDelta.delta : FrameDelta → UInt16
  | .same d | .sameWithOne d _ | .chop d _ | .append d _ | .full d _ _ => d

end Collation
