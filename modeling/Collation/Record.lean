/-
  File:      Collation/Record.lean
  Subject:   Records, whose columns are read by number, and rows of plain values.

  A record answers three questions about a column: its value as an integer, as a long
  integer, as a floating-point number.  It may also have no such column.  `Row` is a record
  that converts between the kinds.

  The names under which code reaches records and comparators stand here as well.
-/
import Collation.Number.Binary64

namespace Collation

/-! ## 1. Columns by kind -/

/-- The kinds of values that can be sorted by. -/
inductive ColumnKind where
  | int | long | double
  deriving DecidableEq, Repr

namespace ColumnKind

/-- All kinds, in the order in which they are listed. -/
def all : List ColumnKind := [.int, .long, .double]

/-- The method of a record that reads a column of this kind. -/
def accessorName : ColumnKind → String
  | .int => "getInt"
  | .long => "getLong"
  | .double => "getDouble"

/-- The descriptor of that method. -/
def accessorDescriptor : ColumnKind → String
  | .int => "(I)I"
  | .long => "(I)J"
  | .double => "(I)D"

/-- The kind whose accessor has this name and descriptor. -/
def ofAccessor? (name descriptor : String) : Option ColumnKind :=
  all.find? fun k => k.accessorName == name && k.accessorDescriptor == descriptor

end ColumnKind

/-! ## 2. Records -/

/-- What can be read column by column.  A column that is not there has no value. -/
class Record (ρ : Type) where
  getInt : ρ → Int32 → Option Int32
  getLong : ρ → Int32 → Option Int64
  getDouble : ρ → Int32 → Option Binary64

/-- One value of a row. -/
inductive Column where
  | int (value : Int32)
  | long (value : Int64)
  | double (value : Binary64)
  deriving DecidableEq, Repr

/-- The value as an integer: a long one keeps its low bits, a floating-point one is cut. -/
def Column.toInt32 : Column → Int32
  | .int v => v
  | .long v => v.toInt32
  | .double v => v.toInt32

def Column.toInt64 : Column → Int64
  | .int v => v.toInt64
  | .long v => v
  | .double v => v.toInt64

def Column.toBinary64 : Column → Binary64
  | .int v => .ofInt v.toInt
  | .long v => .ofInt v.toInt
  | .double v => v

/-- A list of values. -/
structure Row where
  columns : Array Column
  deriving DecidableEq, Repr

/-- The value of a column; there is none at a negative number or past the end. -/
def Row.column? (r : Row) (index : Int32) : Option Column :=
  if index < 0 then none else r.columns[index.toInt.toNat]?

instance : Record Row where
  getInt r i := (r.column? i).map Column.toInt32
  getLong r i := (r.column? i).map Column.toInt64
  getDouble r i := (r.column? i).map Column.toBinary64

/-! ## 3. Names -/

/-- The interface through which code reads columns. -/
def recordClass : String := "io/classasm/Record"

/-- The type of a reference to a record, as it is written. -/
def recordDescriptor : String := "Lio/classasm/Record;"

/-- The interface of comparators. -/
def comparatorClass : String := "io/classasm/RecordComparator"

def setLeftName : String := "setLeft"

def setLeftDescriptor : String := "(Lio/classasm/Record;)V"

def compareName : String := "compare"

def compareDescriptor : String := "(Lio/classasm/Record;)I"

end Collation
