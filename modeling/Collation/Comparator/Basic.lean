/-
  File:      Collation/Comparator/Basic.lean
  Subject:   Comparators of both sorts: instances of a class, and those that walk a layout.

  An instance keeps the left record in its field and gets the right one lent for the call.
-/
import Collation.Comparator.Direct
import Collation.Machine.Instance

namespace Collation

variable {ρ : Type} [Record ρ]

namespace Instance

/-- Hands the instance a left record to keep. -/
def setLeft (i : Instance ρ) (record : ρ) : Except Crash Unit × Instance ρ :=
  match i.invoke setLeftName setLeftDescriptor [.ref (.shared record)] with
  | (.ok _, i) => (.ok (), i)
  | (.error (.fault cause), i) => (.error (.setLeftFailed i.cls.name cause), i)
  | (.error .unreadable, i) => (.error .unreadable, i)

/-- Lends the instance a right record to compare with. -/
def compare (i : Instance ρ) (right : ρ) : Except Crash Int32 × Instance ρ :=
  match i.invoke compareName compareDescriptor [.ref (.borrowed right)] with
  | (.ok (some (.int n)), i) => (.ok n, i)
  | (.ok _, i) => (.error (.noAnswer i.cls.name), i)
  | (.error (.fault cause), i) => (.error (.compareFailed i.cls.name cause), i)
  | (.error .unreadable, i) => (.error .unreadable, i)

end Instance

/-- A comparator. -/
inductive Comparator (ρ : Type) where
  | generated (self : Instance ρ)
  | direct (self : DirectComparator ρ)
  deriving DecidableEq, Repr

namespace Comparator

/-- Sets the left record. -/
def setLeft : Comparator ρ → ρ → Except Crash Unit × Comparator ρ
  | .generated i, record =>
    let (answer, i) := i.setLeft record
    (answer, .generated i)
  | .direct c, record => (.ok (), .direct (c.setLeft record))

/-- Compares the left record with another. -/
def compare : Comparator ρ → ρ → Except Crash Int32 × Comparator ρ
  | .generated i, right =>
    let (answer, i) := i.compare right
    (answer, .generated i)
  | .direct c, right => (c.compare right, .direct c)

end Comparator

end Collation
