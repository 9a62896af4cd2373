/-
  File:      Collation/Comparator/Registry.lean
  Subject:   One class for each layout.

  A layout is generated for when it is first asked for; the class, or that there is none, is
  remembered.  Comparators are instances of the class, and walk the layout if there is none.
-/
import Collation.Comparator.Basic
import Collation.Comparator.Generator

namespace Collation

/-- A generator and what it made of each layout so far, the latest first. -/
structure Registry where
  generator : Generator
  classes : List (Layout × Option LinkedClass)
  deriving DecidableEq, Repr

namespace Registry

/-- A registry that was asked for nothing. -/
def empty : Registry := ⟨.new, []⟩

/-- How many layouts were asked for. -/
def size (r : Registry) : Nat := r.classes.length

/-- The class for a layout. -/
def classFor (r : Registry) (layout : Layout) : Option LinkedClass × Registry :=
  match r.classes.lookup layout with
  | some known => (known, r)
  | none =>
    let (result, generator) := r.generator.assemble layout
    (result.toOption, ⟨generator, (layout, result.toOption) :: r.classes⟩)

/-- A new comparator for a layout. -/
def comparator {ρ : Type} [Record ρ] (r : Registry) (layout : Layout) :
    Comparator ρ × Registry :=
  match r.classFor layout with
  | (none, r) => (.direct (.new layout), r)
  | (some cls, r) =>
    match (cls.newInstance : Except CallFailure (Instance ρ)) with
    | .ok i => (.generated i, r)
    | .error _ => (.direct (.new layout), r)

end Registry

end Collation
