/-
  File:      Collation/Typing/Frame.lean
  Subject:   What is known, before an instruction, of the stack and the locals.

  A frame has one type per local slot (the second slot of a wide value is `top`) and one
  type per value on the stack.  Its operations refuse what the code may not do.
-/
import Collation.ClassFile.Basic
import Collation.ClassFile.Names

namespace Collation

/-- The types in the locals, and those on the stack with the top first. -/
structure Frame where
  locals : Array SlotType
  stack : List SlotType
  deriving DecidableEq, Repr

namespace Frame

/-- The slots that the values on the stack take. -/
def depth (f : Frame) : Nat := f.stack.foldl (fun n t => n + t.width) 0

/-- Puts a value on the stack, if its slots fit. -/
def push (f : Frame) (t : SlotType) (maxStack : UInt16) : Except CodeDefect Frame :=
  if f.depth + t.width > maxStack.toNat then .error (.stackOverflow maxStack)
  else .ok { f with stack := t :: f.stack }

/-- Takes the top off the stack. -/
def pop (f : Frame) : Except CodeDefect (SlotType × Frame) :=
  match f.stack with
  | t :: rest => .ok (t, { f with stack := rest })
  | [] => .error .emptyStack

/-- Takes a value of one slot off the stack. -/
def popNarrow (f : Frame) : Except CodeDefect (SlotType × Frame) :=
  match f.pop with
  | .ok (t, f) => if t.width = 1 then .ok (t, f) else .error .invalidType
  | .error e => .error e

/-- The type in a local. -/
def local? (f : Frame) (slot : Nat) : Except CodeDefect SlotType :=
  match f.locals[slot]? with
  | some t => .ok t
  | none => .error (.invalidLocal slot)

/-- The locals with the first half of a wide value gone, if its second half is in `slot`. -/
def breakWide (locals : Array SlotType) (slot : Nat) : Array SlotType :=
  match slot with
  | 0 => locals
  | before + 1 =>
    match locals[before]? with
    | some t => if t.width = 2 then locals.setIfInBounds before .top else locals
    | none => locals

/-- Puts a value into a local, if its slots are there.  A wide value before it that it cuts
    in half is gone, and the second slot of a wide value becomes unusable. -/
def setLocal (f : Frame) (slot : Nat) (t : SlotType) : Except CodeDefect Frame :=
  if slot + t.width > f.locals.size then .error (.invalidLocal slot)
  else
    let broken := breakWide f.locals slot
    let spread := if t.width = 2 then broken.setIfInBounds (slot + 1) .top else broken
    .ok { f with locals := spread.setIfInBounds slot t }

end Frame

/-! ## Assignability -/

namespace ClassFile

/-- A value of type `a` may stand where `b` is expected.  Of the class hierarchy only the
    class itself is known: it may stand for its superclass and its interfaces. -/
def assignable (file : ClassFile) : SlotType → SlotType → Bool
  | _, .top => true
  | .null, .object _ => true
  | .object a, .object b =>
    a == b || b == objectClass ||
      (a == file.thisClass && (b == file.superClass || file.interfaces.contains b))
  | a, b => a == b

/-- Every slot of one frame may stand for that of the other. -/
def frameAssignable (file : ClassFile) (f g : Frame) : Bool :=
  f.stack.isEqv g.stack file.assignable && f.locals.isEqv g.locals file.assignable

/-- Takes a value off the stack that may stand for the expected type. -/
def popExpecting (file : ClassFile) (f : Frame) (expected : SlotType) :
    Except CodeDefect Frame :=
  match f.pop with
  | .ok (t, f) => if file.assignable t expected then .ok f else .error .invalidType
  | .error e => .error e

/-- Takes several values off the stack, the first of the list first. -/
def popAll (file : ClassFile) (f : Frame) : List SlotType → Except CodeDefect Frame
  | [] => .ok f
  | t :: rest =>
    match file.popExpecting f t with
    | .ok f => file.popAll f rest
    | .error e => .error e

end ClassFile

end Collation
