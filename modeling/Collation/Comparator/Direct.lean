/-
  File:      Collation/Comparator/Direct.lean
  Subject:   Comparing records by walking a layout.

  A comparator holds a left record and compares it with right ones: minus one if the left
  comes first, one if the right does, zero if no key tells them apart.  A descending key
  compares the other way round.  A value that is no number counts as less, whichever way.

  * `SortKey.compare?`, `Layout.compare?` -- the comparison under a key and under a layout; none
    if a column cannot be read;
  * `DirectComparator` -- the comparator; used wrongly it gives no answer but a `Crash`.
-/
import Collation.Fault.Message
import Collation.Layout

namespace Collation

/-! ## 1. The order of records -/

/-- Minus one, zero or one; an unordered pair counts as less. -/
def signOrLess : Option Ordering → Int32
  | some .lt | none => -1
  | some .eq => 0
  | some .gt => 1

variable {ρ : Type} [Record ρ]

/-- Compares one column of two records. -/
def SortKey.compareInOrder? (k : SortKey) (a b : ρ) : Option Int32 :=
  let column := Int32.ofNat k.column.toNat
  match k.kind with
  | .int => do
    let x ← Record.getInt a column
    let y ← Record.getInt b column
    return signOrLess (some (compare x y))
  | .long => do
    let x ← Record.getLong a column
    let y ← Record.getLong b column
    return signOrLess (some (compare x y))
  | .double => do
    let x ← Record.getDouble a column
    let y ← Record.getDouble b column
    return signOrLess (x.compare? y)

/-- Compares two records under one key. -/
def SortKey.compare? (k : SortKey) (left right : ρ) : Option Int32 :=
  if k.descending then k.compareInOrder? right left else k.compareInOrder? left right

/-- Compares two records under keys: the first key that tells them apart decides. -/
def compareKeys? (left right : ρ) : List SortKey → Option Int32
  | [] => some 0
  | k :: rest =>
    match k.compare? left right with
    | none => none
    | some c => if c = 0 then compareKeys? left right rest else some c

/-- Compares two records under a layout. -/
def Layout.compare? (l : Layout) (left right : ρ) : Option Int32 := compareKeys? left right l.keys

/-! ## 2. The comparator -/

/-- A comparator that was used wrongly gives no answer. -/
inductive Crash where
  /-- A record was asked for a column that it does not have. -/
  | unreadable
  /-- No left record was set. -/
  | leftUnset
  /-- The method of a class that takes the left record failed. -/
  | setLeftFailed (cls : String) (cause : RunFault)
  /-- The method of a class that compares failed. -/
  | compareFailed (cls : String) (cause : RunFault)
  /-- The method of a class that compares gave no integer. -/
  | noAnswer (cls : String)
  deriving DecidableEq, Repr

/-- The words with which a comparator gives up; a missing column has none. -/
def Crash.message? : Crash → Option String
  | .unreadable => none
  | .leftUnset => some "compare called before set_left"
  | .setLeftFailed cls cause => some (cls ++ ".setLeft failed: " ++ (Fault.execution cause).message)
  | .compareFailed cls cause => some (cls ++ ".compare failed: " ++ (Fault.execution cause).message)
  | .noAnswer _ => none

/-- A comparator that walks its layout at every call. -/
structure DirectComparator (ρ : Type) where
  layout : Layout
  left : Option ρ
  deriving DecidableEq, Repr

namespace DirectComparator

/-- A comparator without a left record. -/
def new (layout : Layout) : DirectComparator ρ := ⟨layout, none⟩

def setLeft (c : DirectComparator ρ) (record : ρ) : DirectComparator ρ :=
  { c with left := some record }

/-- Compares the left record with another. -/
def compare (c : DirectComparator ρ) (right : ρ) : Except Crash Int32 :=
  match c.left with
  | none => .error .leftUnset
  | some left =>
    match c.layout.compare? left right with
    | some n => .ok n
    | none => .error .unreadable

end DirectComparator

end Collation
