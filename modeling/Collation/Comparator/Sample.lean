/-
  File:      Collation/Comparator/Sample.lean
  Subject:   Rows on which two ways of comparing are tried against each other.

  The rows have few distinct values in each column, so that later keys get to break ties.
  They are always the same: the values come from a fixed congruential sequence.
-/
import Collation.Comparator.Basic

namespace Collation.Sample

/-- How many rows there are. -/
def size : Nat := 48

/-! ## 1. Rows -/

/-- The first element of the sequence, which is not used. -/
def seed : UInt64 := 0x2545F4914F6CDD1D

def advance (s : UInt64) : UInt64 := s * 6364136223846793005 + 1442695040888963407

/-- The value, from minus three to three, that stands for an element of the sequence. -/
def draw (s : UInt64) : Int := (((s.toNat >>> 33) % 7 : Nat) : Int) - 3

/-- A value as a column of some kind; among the doubles there is one that is no number. -/
def columnOf (value : Int) : ColumnKind → Column
  | .int => .int (Int32.ofInt value)
  | .long => .long (Int64.ofInt (value * 1099511627776))
  | .double => .double (if value = 3 then .nan else .ofHalves value)

/-- The kinds of the columns up to the last that a layout reads: of two keys on one column the
    later decides, and a column without a key holds integers. -/
def columnKinds (l : Layout) : Array ColumnKind :=
  let width := l.keys.foldl (fun w key => max w (key.column.toNat + 1)) 0
  l.keys.foldl (fun kinds key => kinds.setIfInBounds key.column.toNat key.kind)
    (Array.replicate width .int)

/-- One row, and the element of the sequence that was used last. -/
def row (kinds : Array ColumnKind) (s : UInt64) : Row × UInt64 :=
  let (columns, s) := kinds.foldl
    (fun (columns, s) kind => (columns.push (columnOf (draw (advance s)) kind), advance s))
    ((#[] : Array Column), s)
  (⟨columns⟩, s)

/-- The given number of rows. -/
def rowsFrom (kinds : Array ColumnKind) : Nat → UInt64 → List Row
  | 0, _ => []
  | n + 1, s =>
    let (first, s) := row kinds s
    first :: rowsFrom kinds n s

/-- The rows for a layout. -/
def rows (l : Layout) : List Row := rowsFrom (columnKinds l) size seed

/-! ## 2. Trial -/

/-- How often an instance answers otherwise than a comparator that walks its layout. -/
def disagreementsWith (direct : DirectComparator Row) :
    List Row → Instance Row → Except Crash (Nat × Instance Row)
  | [], i => .ok (0, i)
  | right :: rest, i => do
    let expected ← direct.compare right
    let (answer, i) := i.compare right
    let found ← answer
    let (n, i) ← disagreementsWith direct rest i
    return (if found = expected then n else n + 1, i)

/-- The same, with each of some rows as the left record. -/
def disagreements (l : Layout) (right : List Row) : List Row → Instance Row → Except Crash Nat
  | [], _ => .ok 0
  | left :: rest, i => do
    let (answer, i) := i.setLeft left
    answer
    let (n, i) ← disagreementsWith ((DirectComparator.new l).setLeft left) right i
    let m ← disagreements l right rest i
    return n + m

/-- How often an instance answers otherwise than its layout, over all pairs of rows. -/
def trial (l : Layout) (i : Instance Row) : Except Crash Nat :=
  disagreements l (rows l) (rows l) i

end Collation.Sample
