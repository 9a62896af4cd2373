/-
  File:      Collation/Typing/Declared.lean
  Subject:   The frames that a stack map declares.

  Locals are listed one entry a value; a frame lays them out by slots.  The entries of a
  stack map change the locals of the entry before, beginning with those on entry to the
  method; the result is a table from code offsets to frames.
-/
import Collation.Code.Decode
import Collation.Typing.Frame

namespace Collation

/-- Lays values out by slots, a wide one with an unusable slot behind it. -/
def slotsOf (types : List SlotType) : List SlotType :=
  types.flatMap fun t => if t.width = 2 then [t, .top] else [t]

/-- The frame with the given locals, one entry a value, and the given stack, top first. -/
def Frame.layOut (code : CodeBody) (types stack : List SlotType) : Except CodeDefect Frame :=
  let slots := slotsOf types
  let length := slots.length
  if length > code.maxLocals.toNat then .error (.invalidLocal code.maxLocals.toNat)
  else
    let frame : Frame :=
      ⟨(slots ++ List.replicate (code.maxLocals.toNat - length) SlotType.top).toArray, stack⟩
    if frame.depth > code.maxStack.toNat then .error (.stackOverflow code.maxStack)
    else .ok frame

/-- The types of the locals on entry to a method, one entry a value. -/
def ClassFile.entryTypes (file : ClassFile) (method : MethodDecl) : List SlotType :=
  let parameters := method.type.parameters.map SlotType.ofField
  if method.flags.isStatic then parameters else .object file.thisClass :: parameters

namespace FrameDelta

/-- The locals and the stack, top first, that an entry makes of the locals before it. -/
def applyTo (types : List SlotType) : FrameDelta → Except CodeDefect (List SlotType × List SlotType)
  | .same _ => .ok (types, [])
  | .sameWithOne _ t => .ok (types, [t])
  | .chop _ n =>
    if n > types.length then .error .incompatibleFrame
    else .ok (types.take (types.length - n), [])
  | .append _ more => .ok (types ++ more, [])
  | .full _ types' stack => .ok (types', stack.reverse)

/-- The code offset of an entry, given that of the entry before it. -/
def offsetAfter (previous : Option Nat) (d : FrameDelta) : Nat :=
  match previous with
  | none => d.delta.toNat
  | some p => p + d.delta.toNat + 1

end FrameDelta

/-- The declared frame at each code offset. -/
abbrev FrameTable : Type := Array (Option Frame)

/-- The frame declared at an offset. -/
def FrameTable.at? (table : FrameTable) (offset : Nat) : Option Frame := (table[offset]?).join

/-- Enters the frames of a stack map into a table; a defect comes with the code offset of
    the frame. -/
def FrameTable.enter (code : CodeBody) (starts : Array (Option Nat)) (types : List SlotType)
    (previous : Option Nat) (table : FrameTable) :
    List FrameDelta → Except (Nat × CodeDefect) FrameTable
  | [] => .ok table
  | d :: rest =>
    let offset := d.offsetAfter previous
    match d.applyTo types with
    | .error defect => .error (offset, defect)
    | .ok (types', stack) =>
      if (indexAt starts offset).isNone then .error (offset, .misplacedFrame offset)
      else
        match Frame.layOut code types' stack with
        | .error defect => .error (offset, defect)
        | .ok frame =>
          FrameTable.enter code starts types' (some offset)
            (table.setIfInBounds offset (some frame)) rest

/-- The frames that a method declares, given its instructions. -/
def ClassFile.declaredFrames (file : ClassFile) (method : MethodDecl) (code : CodeBody)
    (listing : Listing) : Except (Nat × CodeDefect) FrameTable :=
  let size := code.bytes.length
  FrameTable.enter code (Listing.indexTable size listing) (file.entryTypes method) none
    (Array.replicate size none) code.stackMap

end Collation
