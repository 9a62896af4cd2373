/-
  File:      Collation/Text/Quoted.lean
  Subject:   Texts and tagged values as they stand in messages.

  * `Text.quoted` -- a text in double quotes, with a backslash before quotes, backslashes and
    the named controls, and every character that cannot be shown by its number in base 16;
  * `Text.tuple`, `Text.record` -- a tag with unnamed or named parts.
-/
import Collation.Text.Unprintable

namespace Collation.Text

/-- A code point in base 16, without leading zeros. -/
def hex (n : Nat) : String := String.ofList (Nat.toDigits 16 n)

/-- One character inside quotes. -/
def quotedChar (c : Char) : String :=
  if c = '"' then "\\\""
  else if c = '\\' then "\\\\"
  else if c = '\n' then "\\n"
  else if c = '\r' then "\\r"
  else if c = '\t' then "\\t"
  else if c.toNat = 0 then "\\0"
  else if isPrintable c then String.singleton c
  else "\\u\x7b" ++ hex c.toNat ++ "\x7d"

/-- A text in double quotes. -/
def quoted (s : String) : String :=
  "\"" ++ String.join (s.toList.map quotedChar) ++ "\""

/-- A tag with unnamed parts: `Tag(a, b)`. -/
def tuple (tag : String) (parts : List String) : String :=
  tag ++ "(" ++ ", ".intercalate parts ++ ")"

/-- A tag with named parts, in braces. -/
def record (tag : String) (parts : List (String × String)) : String :=
  tag ++ " \x7b " ++ ", ".intercalate (parts.map fun p => p.1 ++ ": " ++ p.2) ++ " \x7d"

end Collation.Text
