/-
  File:      Collation/ClassFile/Reader.lean
  Subject:   Reading bytes in order, knowing at each point how many were read.

  A read that needs more bytes than are left is refused as truncated, at the byte at which
  it began.
-/
import Collation.Bytes.Word
import Collation.Fault

namespace Collation

/-- How many bytes were read, and those that are left. -/
structure Cursor where
  offset : Nat
  rest : List UInt8
  deriving DecidableEq, Repr

/-- Nothing read yet. -/
def Cursor.start (bytes : List UInt8) : Cursor := ⟨0, bytes⟩

/-- A read: from a cursor, a result and the cursor after it, or a refusal. -/
abbrev Reader : Type → Type := StateT Cursor (Except Rejection)

/-- Splits exactly `n` elements off a list; `acc` holds those taken so far in reverse. -/
def takeExactly {α : Type} : Nat → List α → List α → Option (List α × List α)
  | 0, acc, rest => some (acc.reverse, rest)
  | _ + 1, _, [] => none
  | n + 1, acc, a :: rest => takeExactly n (a :: acc) rest

namespace Reader

/-- The number of bytes read so far. -/
def position : Reader Nat := fun c => .ok (c.offset, c)

/-- The number of bytes left. -/
def remaining : Reader Nat := fun c => .ok (c.rest.length, c)

/-- Refuses the input. -/
def reject {α : Type} (offset : Nat) (defect : Defect) : Reader α := fun _ => .error ⟨offset, defect⟩

/-- Takes over the answer of a resolution. -/
def answer {α : Type} (r : Except Rejection α) : Reader α := fun c =>
  match r with
  | .ok a => .ok (a, c)
  | .error e => .error e

def u8 : Reader UInt8 := fun c =>
  match c.rest with
  | a :: rest => .ok (a, ⟨c.offset + 1, rest⟩)
  | _ => .error ⟨c.offset, .truncated⟩

def u16 : Reader UInt16 := fun c =>
  match c.rest with
  | a :: b :: rest => .ok (Word.ofBytes16 a b, ⟨c.offset + 2, rest⟩)
  | _ => .error ⟨c.offset, .truncated⟩

def u32 : Reader UInt32 := fun c =>
  match c.rest with
  | a :: b :: d :: e :: rest => .ok (Word.ofBytes32 a b d e, ⟨c.offset + 4, rest⟩)
  | _ => .error ⟨c.offset, .truncated⟩

/-- The next `n` bytes. -/
def bytes (n : Nat) : Reader (List UInt8) := fun c =>
  match takeExactly n [] c.rest with
  | some (taken, rest) => .ok (taken, ⟨c.offset + n, rest⟩)
  | none => .error ⟨c.offset, .truncated⟩

/-- Runs a read `n` times, each time on the result of the last. -/
def iterate {β : Type} (step : β → Reader β) : Nat → β → Cursor → Except Rejection (β × Cursor)
  | 0, b, c => .ok (b, c)
  | n + 1, b, c =>
    match step b c with
    | .ok (b', c') => iterate step n b' c'
    | .error e => .error e

/-- Runs a read `n` times and lists the results. -/
def times {α : Type} (n : Nat) (read : Reader α) : Reader (List α) := do
  let all ← iterate (fun acc : Array α => do return acc.push (← read)) n #[]
  return all.toList

end Reader

end Collation
