/-
  File:      Collation/Layout.lean
  Subject:   Sort keys and layouts, and their written form.

  A key is a kind, a column and a direction, written `kind:column` or `kind:column:direction`;
  a layout lists keys, the most significant first, with commas between them.

  * `SortKey.render`, `Layout.render` -- the written form;
  * `SortKey.parse`, `Layout.parse` -- the key or the layout of a text.  Blanks around a key
    are dropped, and a blank text is the empty layout.
-/
import Collation.Record
import Collation.Text.Blank

namespace Collation

/-! ## 1. Types -/

/-- One column to sort by. -/
structure SortKey where
  kind : ColumnKind
  column : UInt16
  descending : Bool
  deriving DecidableEq, Repr

/-- Keys, the most significant first. -/
structure Layout where
  keys : List SortKey
  deriving DecidableEq, Repr

/-- The kinds of column that a layout reads, each once and in a fixed order. -/
def Layout.kinds (l : Layout) : List ColumnKind :=
  ColumnKind.all.filter fun kind => l.keys.any fun key => key.kind = kind

/-- The greatest column that can be written, and read by generated code. -/
def maxColumn : Nat := 32767

/-! ## 2. The written form -/

/-- The word for a kind. -/
def ColumnKind.word : ColumnKind → String
  | .int => "int"
  | .long => "long"
  | .double => "double"

/-- The kind that a word names. -/
def ColumnKind.ofWord? (w : List Char) : Option ColumnKind :=
  all.find? fun k => k.word.toList = w

def SortKey.render (k : SortKey) : String :=
  k.kind.word ++ ":" ++ toString k.column.toNat ++ (if k.descending then ":desc" else "")

def Layout.render (l : Layout) : String := ",".intercalate (l.keys.map SortKey.render)

/-! ## 3. Reading -/

/-- Why a text is no layout. -/
inductive LayoutFault where
  | badKey (text : String)
  | unknownKind (text : String)
  | badColumn (text : String)
  | unknownDirection (text : String)
  deriving DecidableEq, Repr

def LayoutFault.message : LayoutFault → String
  | .badKey t => "bad sort key '" ++ t ++ "' (expected eg. 'int:0' or 'long:2:desc')"
  | .unknownKind t =>
    "unknown column kind '" ++ t ++ "' (expected 'int', 'long', or 'double')"
  | .badColumn t => "bad column index '" ++ t ++ "'"
  | .unknownDirection t => "unknown direction '" ++ t ++ "' (expected 'asc' or 'desc')"

/-- The value of a row of decimal digits, which may not be empty. -/
def digitsValue? (cs : List Char) : Option Nat :=
  if cs ≠ [] ∧ cs.all Char.isDigit then
    some (cs.foldl (fun n c => n * 10 + (c.toNat - '0'.toNat)) 0)
  else none

/-- The value of a natural number, which may have a plus sign. -/
def naturalValue? : List Char → Option Nat
  | '+' :: digits => digitsValue? digits
  | digits => digitsValue? digits

/-- The column that a text names. -/
def columnValue? (cs : List Char) : Option UInt16 :=
  match naturalValue? cs with
  | some n => if n ≤ maxColumn then some (UInt16.ofNat n) else none
  | none => none

/-- Whether a direction, if there is one, is the descending one. -/
def descending? : Option (List Char) → Except LayoutFault Bool
  | none => .ok false
  | some w =>
    if w = "asc".toList then .ok false
    else if w = "desc".toList then .ok true
    else .error (.unknownDirection (String.ofList w))

/-- The key with the given parts. -/
def SortKey.ofParts (kind column : List Char) (direction : Option (List Char)) :
    Except LayoutFault SortKey :=
  match ColumnKind.ofWord? kind with
  | none => .error (.unknownKind (String.ofList kind))
  | some k =>
    match columnValue? column with
    | none => .error (.badColumn (String.ofList column))
    | some c =>
      match descending? direction with
      | .error e => .error e
      | .ok d => .ok ⟨k, c, d⟩

/-- The key that a list of characters describes. -/
def SortKey.ofChars (cs : List Char) : Except LayoutFault SortKey :=
  match Text.splitOn ':' (Text.trim cs) with
  | [kind, column] => ofParts kind column none
  | [kind, column, direction] => ofParts kind column (some direction)
  | _ => .error (.badKey (String.ofList cs))

/-- The key that a text describes. -/
def SortKey.parse (s : String) : Except LayoutFault SortKey := ofChars s.toList

/-- The layout that a text describes; of several faults the first is reported. -/
def Layout.parse (s : String) : Except LayoutFault Layout :=
  if Text.trim s.toList = [] then .ok ⟨[]⟩
  else ((Text.splitOn ',' s.toList).mapM SortKey.ofChars).map Layout.mk

end Collation
