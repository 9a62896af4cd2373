/-
  File:      Collation/Text/Blank.lean
  Subject:   Blank characters, and cutting them off both ends of a text.
-/
namespace Collation.Text

/-- The twenty-five characters with the white-space property. -/
def isBlank (c : Char) : Bool :=
  let n := c.toNat
  (0x09 ≤ n && n ≤ 0x0D) || n == 0x20 || n == 0x85 || n == 0xA0 || n == 0x1680 ||
    (0x2000 ≤ n && n ≤ 0x200A) || n == 0x2028 || n == 0x2029 || n == 0x202F || n == 0x205F ||
    n == 0x3000

/-- The characters without the blanks at both ends. -/
def trim (cs : List Char) : List Char :=
  ((cs.dropWhile isBlank).reverse.dropWhile isBlank).reverse

/-- Puts a character in front of the first piece. -/
def consPiece (c : Char) : List (List Char) → List (List Char)
  | piece :: pieces => (c :: piece) :: pieces
  | [] => [[c]]

/-- Cuts a list of characters at every `sep`; there is always at least one piece. -/
def splitOn (sep : Char) (cs : List Char) : List (List Char) :=
  cs.foldr (fun c pieces => if c = sep then [] :: pieces else consPiece c pieces) [[]]

end Collation.Text
