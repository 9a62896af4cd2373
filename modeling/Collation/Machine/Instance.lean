/-
  File:      Collation/Machine/Instance.lean
  Subject:   Instances of classes, and calls on them.

  A call finds its method by name and descriptor, checks the arguments against the type, and
  runs the body.  Fields that the body wrote before it stopped keep what was written.
-/
import Collation.Machine.Step

namespace Collation

/-- An instance: its class, and a value per field. -/
structure Instance (ρ : Type) where
  cls : LinkedClass
  fields : Array (Value ρ)
  deriving DecidableEq, Repr

/-- Why a call gave no answer. -/
inductive CallFailure where
  /-- The call was refused, or its code trapped. -/
  | fault (cause : RunFault)
  /-- A record was asked for a column that it does not have. -/
  | unreadable
  deriving DecidableEq, Repr

namespace Instance

variable {ρ : Type}

/-- The value of the first field with this name. -/
def field? (i : Instance ρ) (name : String) : Option (Value ρ) :=
  match i.cls.fields.findIdx? fun f => f.name == name with
  | some slot => i.fields[slot]?
  | none => none

/-- The arguments fit the parameters, one to one. -/
def accepts : List (Value ρ) → List FieldType → Bool
  | [], [] => true
  | v :: vs, t :: ts => v.hasType t && accepts vs ts
  | _, _ => false

/-- Runs the body of a method on an instance. -/
def execute [Record ρ] (i : Instance ρ) (method : LinkedMethod) (body : LinkedBody)
    (arguments : List (Value ρ)) : Except CallFailure (Option (Value ρ)) × Instance ρ :=
  let (halt, stopped) :=
    Machine.run body.code Machine.stepLimit
      (Machine.entry body method.isStatic i.fields arguments)
  let after := if method.isStatic then i else { i with fields := stopped.fields }
  match halt with
  | .returned result => (.ok result, after)
  | .trapped cause =>
    (.error (.fault (.trap method.signature (Machine.offsetOf body stopped.next) cause)), after)
  | .unreadable => (.error .unreadable, after)

/-- Calls a method by name and descriptor. -/
def invoke [Record ρ] (i : Instance ρ) (name descriptor : String) (arguments : List (Value ρ)) :
    Except CallFailure (Option (Value ρ)) × Instance ρ :=
  match i.cls.findMethod? name descriptor with
  | none => (.error (.fault (.noSuchMethod name descriptor)), i)
  | some method =>
    match method.body with
    | none => (.error (.fault (.noSuchMethod name descriptor)), i)
    | some body =>
      if accepts arguments method.type.parameters then i.execute method body arguments
      else (.error (.fault (.badArguments name descriptor)), i)

end Instance

/-- A new instance: every field has the zero of its type, and then the constructor runs. -/
def LinkedClass.newInstance {ρ : Type} [Record ρ] (c : LinkedClass) :
    Except CallFailure (Instance ρ) :=
  let blank : Instance ρ := ⟨c, (c.fields.map fun f => Value.zero f.type).toArray⟩
  match blank.invoke initName initDescriptor [] with
  | (.ok _, i) => .ok i
  | (.error e, _) => .error e

end Collation
