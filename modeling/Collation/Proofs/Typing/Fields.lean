/-
  File:      Collation/Proofs/Typing/Fields.lean
  Subject:   The fields of an instance keep their declared types.

  A field is written by code that was checked against the type in the pool, into a slot that was
  found by name and by the text of the type.  So a field never holds anything but a value of the
  type it was declared with, and never a record that was only lent; neither after a call, however
  the call came to its end, nor at any step on the way.

  * `LinkedClass.FieldsTyped` -- what is said about the fields;
  * `Discipline.fieldsTyped_of_keeps` -- fields that match their declarations are of this sort;
  * `ClassFile.Accepted.fieldsTyped_run` -- any number of steps of a call leaves them so;
  * **`Instance.fields_wellTyped`** -- every instance that a run leads to has such fields.
-/
import Collation.Proofs.Typing.Calls

namespace Collation

variable {ρ : Type}

/-! ## 1. Fields of their types -/

/-- The fields of an instance of the class: one value for each declared field, of its type, and
    none of them a record that is only lent. -/
structure LinkedClass.FieldsTyped (c : LinkedClass) (fields : Array (Value ρ)) : Prop where
  size_eq : fields.size = c.fields.length
  typed : ∀ (slot : Nat) (field : LinkedField) (value : Value ρ), c.fields[slot]? = some field →
    fields[slot]? = some value → value.hasType field.type = true
  not_lent : ∀ record, Value.ref (.borrowed record) ∉ fields

namespace Discipline

variable {file : ClassFile} {c : LinkedClass} {D : Discipline ρ file} {fields : Array (Value ρ)}

/-- Values that match the declarations of the class file match those of the class made from it. -/
theorem fieldsTyped_of_keeps (h : file.Accepted c)
    (hk : List.Forall₂ (fun d v => D.Keeps (FieldDecl.type d) v) file.fields fields.toList) :
    c.FieldsTyped fields where
  size_eq := by
    rw [h.fields_eq, List.length_map, hk.length_eq, Array.length_toList]
  typed slot field value hfield hvalue := by
    rw [h.fields_eq, List.getElem?_map, Option.map_eq_some_iff] at hfield
    obtain ⟨d, hd, rfl⟩ := hfield
    obtain ⟨v, hv, hkeeps⟩ := forall₂_getElem? hk hd
    rw [Array.getElem?_toList, hvalue] at hv
    cases hv
    exact hasType_of_holds hkeeps.1
  not_lent record hmem := by
    obtain ⟨slot, hslot⟩ := List.mem_iff_getElem?.mp hmem.val
    obtain ⟨_, _, hkeeps⟩ := forall₂_getElem?_right hk hslot
    exact hkeeps.2 record rfl

end Discipline

/-! ## 2. On the way through a call -/

/-- **However many steps a call has made, its fields are of their types.** -/
theorem ClassFile.Accepted.fieldsTyped_run [Record ρ] {file : ClassFile} {c : LinkedClass}
    (h : file.Accepted c) {name descriptor : String} {m : LinkedMethod} {body : LinkedBody}
    (hm : c.findMethod? name descriptor = some m) (hb : m.body = some body)
    (hinstance : m.isStatic = false) {fields : Array (Value ρ)}
    (hfields : List.Forall₂ (fun d v => (Discipline.kindOnly ρ file).Keeps (FieldDecl.type d) v)
      file.fields fields.toList)
    {arguments : List (Value ρ)}
    (hargs : List.Forall₂ (fun t v => v.hasType t = true) m.type.parameters arguments)
    (steps : Nat) :
    c.FieldsTyped
      (Machine.run body.code steps (Machine.entry body m.isStatic fields arguments)).2.fields := by
  obtain ⟨d, code, htype, hstatic, ⟨cert⟩⟩ := h.certificate hm hb
  have hholds : List.Forall₂ (fun t v => (Discipline.kindOnly ρ file).Holds (.ofField t) v)
      d.type.parameters arguments := by
    rw [← htype]
    exact hargs.imp fun t v hv => Discipline.holds_of_hasType hv fun _ _ _ _ => trivial
  have hdecl : d.flags.isStatic = false := hstatic ▸ hinstance
  have hfit : (Discipline.kindOnly ρ file).FieldsFit (if d.flags.isStatic then #[] else fields) := by
    rw [hdecl]
    exact fun _ _ => hfields
  have hentry := cert.fits_entry hholds (fun _ => trivial) hfit
  have hsound := Subject.Certificate.run_sound h.types steps hentry
  rw [hstatic]
  exact Discipline.fieldsTyped_of_keeps h (hsound.2.fields file.thisClass trivial)

/-! ## 3. From call to call -/

namespace Instance

variable {c : LinkedClass} {i : Instance ρ}

/-- **The fields of an instance keep their types.**  Every instance that a run leads to, whatever was
    passed to its calls and however they ended, has one value for each declared field, of its type,
    and none that is only lent; and so it is at every step of a further call. -/
theorem fields_wellTyped [Record ρ] {input : List UInt8} (hload : LinkedClass.load input = .ok c)
    (hi : Reached c (fun _ _ => True) i) :
    i.cls = c ∧ c.FieldsTyped i.fields ∧
    ∀ (name descriptor : String) (m : LinkedMethod) (body : LinkedBody) (arguments : List (Value ρ)),
      c.findMethod? name descriptor = some m → m.body = some body → m.isStatic = false →
      accepts arguments m.type.parameters = true → ∀ steps, c.FieldsTyped
        (Machine.run body.code steps (Machine.entry body m.isStatic i.fields arguments)).2.fields := by
  obtain ⟨file, h⟩ := LinkedClass.accepted_of_load hload
  have hk : Kept (Discipline.kindOnly ρ file) c i :=
    kept_of_reached h trivial (fun _ _ _ _ _ _ _ _ => trivial) hi
  refine ⟨hk.cls_eq, Discipline.fieldsTyped_of_keeps h hk.fields, ?_⟩
  intro name descriptor m body arguments hm hb hinstance haccepts steps
  exact h.fieldsTyped_run hm hb hinstance hk.fields (forall₂_of_accepts haccepts) steps

/-! ### A class with three fields

Its method writes a number and then the record it is given.  A record that is only lent cannot be
kept: the call stops half way, with the number written. -/

/-- The bytes of the class. -/
def keeperBytes : List UInt8 := [
  -- magic number, version, size of the pool
  202, 254, 186, 190, 0, 0, 0, 52, 0, 22,
  -- the pool
  1, 0, 1, 75, 7, 0, 1, 1, 0, 16, 106, 97, 118, 97, 47, 108, 97, 110, 103, 47, 79, 98, 106, 101, 99,
  116, 7, 0, 3, 1, 0, 6, 60, 105, 110, 105, 116, 62, 1, 0, 3, 40, 41, 86, 12, 0, 5, 0, 6, 10, 0, 4,
  0, 7, 1, 0, 4, 67, 111, 100, 101, 1, 0, 1, 110, 1, 0, 1, 73, 1, 0, 1, 116, 1, 0, 1, 74, 1, 0, 1,
  107, 1, 0, 20, 76, 105, 111, 47, 99, 108, 97, 115, 115, 97, 115, 109, 47, 82, 101, 99, 111, 114,
  100, 59, 12, 0, 10, 0, 11, 9, 0, 2, 0, 16, 12, 0, 14, 0, 15, 9, 0, 2, 0, 18, 1, 0, 4, 107, 101,
  101, 112, 1, 0, 23, 40, 76, 105, 111, 47, 99, 108, 97, 115, 115, 97, 115, 109, 47, 82, 101, 99,
  111, 114, 100, 59, 41, 86,
  -- flags, names, no interfaces, three fields
  0, 33, 0, 2, 0, 4, 0, 0, 0, 3,
  0, 2, 0, 10, 0, 11, 0, 0, 0, 2, 0, 12, 0, 13, 0, 0, 0, 2, 0, 14, 0, 15, 0, 0,
  -- two methods, the constructor first
  0, 2, 0, 1, 0, 5, 0, 6, 0, 1, 0, 9, 0, 0, 0, 17, 0, 1, 0, 1, 0, 0, 0, 5, 42, 183, 0, 8, 177, 0, 0,
  0, 0,
  -- the method that keeps
  0, 1, 0, 20, 0, 21, 0, 1, 0, 9, 0, 0, 0, 23, 0, 2, 0, 2, 0, 0, 0, 11, 42, 8, 181, 0, 17, 42, 43,
  181, 0, 19, 177, 0, 0, 0, 0,
  0, 0]

def keepDescriptor : String := "(Lio/classasm/Record;)V"

def keeper : LinkedClass :=
  ⟨"K", objectClass, [], ⟨0, 52⟩,
    [⟨"n", .base .int⟩, ⟨"t", .base .long⟩, ⟨"k", .object recordClass⟩],
    [⟨initName, initDescriptor, ⟨[], none⟩, false,
      some ⟨1, 1, #[(0, .aload 0), (1, .invokespecial .objectInit), (4, .vreturn)]⟩⟩,
      ⟨"keep", keepDescriptor, ⟨[.object recordClass], none⟩, false,
      some ⟨2, 2, #[(0, .aload 0), (1, .push 5), (2, .putfield 0), (5, .aload 0), (6, .aload 1),
        (7, .putfield 2), (10, .vreturn)]⟩⟩]⟩

theorem load_keeper : LinkedClass.load keeperBytes = .ok keeper := by decide +kernel

theorem newInstance_keeper :
    keeper.newInstance = .ok (⟨keeper, #[.int 0, .long 0, .ref .null]⟩ : Instance Row) := by
  decide

/-- The call of the method with a record that is only lent. -/
theorem invoke_keeper :
    (⟨keeper, #[.int 0, .long 0, .ref .null]⟩ : Instance Row).invoke "keep" keepDescriptor
      [.ref (.borrowed ⟨#[]⟩)] =
    (.error (.fault (.trap ("keep" ++ keepDescriptor) 7 .escapingReference)),
      ⟨keeper, #[.int 5, .long 0, .ref .null]⟩) := by
  decide

theorem fields_wellTyped_keeper :
    LinkedClass.load keeperBytes = .ok keeper ∧
    Reached keeper (fun _ _ => True) (⟨keeper, #[.int 5, .long 0, .ref .null]⟩ : Instance Row) ∧
    keeper.FieldsTyped (#[.int 5, .long 0, .ref .null] : Array (Value Row)) := by
  have hreached : Reached keeper (fun _ _ => True)
      (⟨keeper, #[.int 5, .long 0, .ref .null]⟩ : Instance Row) := by
    have hnew : Reached keeper (fun _ _ => True) (⟨keeper, #[.int 0, .long 0, .ref .null]⟩ : Instance Row) :=
      .new newInstance_keeper
    have hcall := hnew.call "keep" keepDescriptor [.ref (.borrowed ⟨#[]⟩)] fun _ _ => trivial
    rwa [invoke_keeper] at hcall
  exact ⟨load_keeper, hreached, (fields_wellTyped load_keeper hreached).2.1⟩

end Instance

end Collation
