/-
  File:      Collation/Proofs/Typing/Conformance.lean
  Subject:   What it means that a value is of a slot type, and a state of a frame.

  A slot type fixes the kind of a value.  For references it also names a class, and how much
  the name says about the reference is left open: a `Discipline` says which references may
  stand under which name, in keeping with the assignability rule.

  * `Discipline.Holds` -- the value is of the slot type;
  * `Discipline.holds_of_assignable` -- a value of a type is of every type that it may stand for;
  * `Discipline.Describes` -- stack and locals of a state are of the types in a frame;
  * `Discipline.FieldsFit` -- the fields of the instance are of their declared types, and none of
    them holds a record that is only lent.
-/
import Collation.Machine.Step
import Collation.Proofs.Matching

namespace Collation

/-! ## 1. Values -/

/-- Which references may stand under which class name: null everywhere, and whatever may stand
    under a name also under every name that it is assignable to. -/
structure Discipline (ρ : Type) (file : ClassFile) where
  allows : String → Reference ρ → Prop
  allows_null : ∀ name, allows name .null
  allows_of_assignable : ∀ {a b : String} {r : Reference ρ},
    file.assignable (.object a) (.object b) = true → allows a r → allows b r

namespace Discipline

variable {ρ : Type} {file : ClassFile} (D : Discipline ρ file)

/-- The value is of the slot type. -/
def Holds : SlotType → Value ρ → Prop
  | .top, _ => True
  | .int, .int _ => True
  | .float, .float _ => True
  | .long, .long _ => True
  | .double, .double _ => True
  | .null, .ref .null => True
  | .object name, .ref r => D.allows name r
  | _, _ => False

variable {D} {v : Value ρ}

theorem holds_top : D.Holds .top v := trivial

theorem holds_int : D.Holds .int v ↔ ∃ n, v = .int n := by
  cases v <;> simp [Holds]

theorem holds_long : D.Holds .long v ↔ ∃ n, v = .long n := by
  cases v <;> simp [Holds]

theorem holds_double : D.Holds .double v ↔ ∃ x, v = .double x := by
  cases v <;> simp [Holds]

theorem holds_null : D.Holds .null v ↔ v = .ref .null := by
  cases v with
  | ref r => cases r <;> simp [Holds]
  | _ => simp [Holds]

theorem holds_object {name : String} :
    D.Holds (.object name) v ↔ ∃ r, v = .ref r ∧ D.allows name r := by
  cases v <;> simp [Holds]

/-- **A value of a type is of every type that it may stand for.** -/
theorem holds_of_assignable {a b : SlotType} (h : file.assignable a b = true) (hv : D.Holds a v) :
    D.Holds b v := by
  cases b with
  | top => exact holds_top
  | object name =>
    cases a with
    | null =>
      rw [holds_null.mp hv]
      exact D.allows_null name
    | object name' =>
      obtain ⟨r, rfl, hr⟩ := holds_object.mp hv
      exact D.allows_of_assignable h hr
    | _ => simp [ClassFile.assignable] at h
  | _ =>
    -- only a type itself may stand for a type that is neither `top` nor a class
    simp only [ClassFile.assignable, beq_iff_eq] at h
    exact h ▸ hv

/-- An argument that was accepted is of the type of its parameter, if its reference may stand
    under the name. -/
theorem holds_of_hasType {t : FieldType} (h : v.hasType t = true)
    (hr : ∀ name r, SlotType.ofField t = .object name → v = .ref r → D.allows name r) :
    D.Holds (.ofField t) v := by
  cases t with
  | base b => cases b <;> cases v <;> simp [Value.hasType] at h <;> trivial
  | object name =>
    cases v with
    | ref r => exact hr name r rfl rfl
    | _ => simp [Value.hasType] at h
  | array n element =>
    cases v with
    | ref r => exact hr _ r rfl rfl
    | _ => simp [Value.hasType] at h

/-- A value of a field type passes where the type is expected. -/
theorem hasType_of_holds {t : FieldType} (h : D.Holds (.ofField t) v) : v.hasType t = true := by
  cases t with
  | base b => cases b <;> cases v <;> first | rfl | exact h.elim
  | object name => cases v <;> first | rfl | exact h.elim
  | array n element => cases v <;> first | rfl | exact h.elim

/-- A reference of a field type stands under the name of a class. -/
theorem allows_of_holds {t : FieldType} {r : Reference ρ} (h : D.Holds (.ofField t) (.ref r)) :
    ∃ name, D.allows name r := by
  cases t with
  | base b => cases b <;> exact h.elim
  | object name => exact ⟨name, h⟩
  | array n element => exact ⟨_, h⟩

theorem holds_zero (t : FieldType) : D.Holds (.ofField t) (Value.zero t) := by
  cases t with
  | base b => cases b <;> trivial
  | object name => exact D.allows_null name
  | array n element => exact D.allows_null _

theorem width_of_hasType {t : FieldType} (h : v.hasType t = true) : v.width = t.width := by
  cases t with
  | base b => cases b <;> cases v <;> first | rfl | cases h
  | object name => cases v <;> first | rfl | cases h
  | array n element => cases v <;> first | rfl | cases h

end Discipline

/-! ## 2. Stacks, locals and fields -/

namespace Discipline

variable {ρ : Type} {file : ClassFile} (D : Discipline ρ file)

/-- Stack and locals of the state are of the types in the frame. -/
structure Describes (f : Frame) (s : State ρ) : Prop where
  stack : List.Forall₂ D.Holds f.stack s.stack
  locals : List.Forall₂ D.Holds f.locals.toList s.locals.toList

/-- A field holds the value: it is of the declared type, and no record that is only lent. -/
def Keeps (t : FieldType) (v : Value ρ) : Prop :=
  D.Holds (.ofField t) v ∧ ∀ record, v ≠ .ref (.borrowed record)

/-- The fields of the instance, if it can be reached at all, hold values of their types. -/
def FieldsFit (fields : Array (Value ρ)) : Prop :=
  ∀ name, D.allows name .this →
    List.Forall₂ (fun d v => D.Keeps (FieldDecl.type d) v) file.fields fields.toList

variable {D} {f g : Frame} {s : State ρ}

theorem forall₂_holds_of_assignable {ts us : List SlotType} {vs : List (Value ρ)}
    (h : List.Forall₂ (fun a b => file.assignable a b = true) ts us)
    (hv : List.Forall₂ D.Holds ts vs) : List.Forall₂ D.Holds us vs := by
  induction h generalizing vs with
  | nil => exact hv
  | cons ha _ ih =>
    cases hv with
    | cons h1 h2 => exact .cons (holds_of_assignable ha h1) (ih h2)

/-- **A state of a frame is one of every frame that it may stand for.** -/
theorem Describes.of_frameAssignable (h : file.frameAssignable f g = true) (hs : D.Describes f s) :
    D.Describes g s := by
  rw [ClassFile.frameAssignable, Bool.and_eq_true, ← Array.isEqv_toList] at h
  exact ⟨forall₂_holds_of_assignable (forall₂_of_isEqv h.1) hs.stack,
    forall₂_holds_of_assignable (forall₂_of_isEqv h.2) hs.locals⟩

/-- A local that a frame knows is there, and of its type. -/
theorem Describes.local (hs : D.Describes f s) {n : Nat} {t : SlotType} (h : f.local? n = .ok t) :
    ∃ v, s.locals[n]? = some v ∧ D.Holds t v := by
  unfold Frame.local? at h
  split at h
  · rename_i t' ht
    cases h
    rw [← Array.getElem?_toList] at ht
    obtain ⟨v, hv, hh⟩ := forall₂_getElem? hs.locals ht
    exact ⟨v, by rw [← Array.getElem?_toList]; exact hv, hh⟩
  · cases h

theorem breakWide_holds {ts : Array SlotType} {vs : List (Value ρ)}
    (h : List.Forall₂ D.Holds ts.toList vs) (slot : Nat) :
    List.Forall₂ D.Holds (Frame.breakWide ts slot).toList vs := by
  unfold Frame.breakWide
  split
  · exact h
  · split
    · split
      · rw [Array.toList_setIfInBounds]
        exact forall₂_set_left h _ fun _ => holds_top
      · exact h
    · exact h

/-- Storing a value of the type in the machine is storing the type in the frame. -/
theorem Describes.setLocal (hs : D.Describes f s) {n : Nat} {t : SlotType} {v : Value ρ}
    (h : f.setLocal n t = .ok g) (hv : D.Holds t v) :
    n < s.locals.size ∧ g.stack = f.stack ∧
      List.Forall₂ D.Holds g.locals.toList (s.locals.setIfInBounds n v).toList := by
  unfold Frame.setLocal at h
  split at h
  · cases h
  · rename_i hn
    cases h
    have hsize : f.locals.size = s.locals.size := by
      simpa using hs.locals.length_eq
    have hw : 0 < t.width := by cases t <;> exact Nat.succ_pos _
    refine ⟨by omega, rfl, ?_⟩
    rw [Array.toList_setIfInBounds, Array.toList_setIfInBounds]
    refine forall₂_set ?_ n hv
    split
    · rw [Array.toList_setIfInBounds]
      exact forall₂_set_left (breakWide_holds hs.locals n) _ fun _ => holds_top
    · exact breakWide_holds hs.locals n

end Discipline

end Collation
