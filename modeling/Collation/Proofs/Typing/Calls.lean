/-
  File:      Collation/Proofs/Typing/Calls.lean
  Subject:   Calls on instances of loaded classes, one after another.

  A run makes a new instance and then calls its methods, whatever each call comes to.  The fields
  stay in order from call to call, and so every call starts where the check of its method started.

  * `Instance.Reached` -- the instances that runs lead to;
  * `Instance.Kept`, `Instance.kept_of_reached` -- the fields of such an instance;
  * **`Instance.invoke_never_stuck`** -- no call of checked code finds operands of a wrong kind, and
    what it returns is what its type says;
  * **`Instance.traps_classified`** -- the traps that are left once references are passed as their
    types say: null, the limit, and keeping a record that was only lent.
-/
import Collation.Proofs.Machine.Execution
import Collation.Proofs.Typing.Entry

namespace Collation

variable {ρ : Type}

/-! ## 1. Three disciplines -/

/-- The class can be told from records and from the root class by name alone. -/
structure ClassFile.Distinct (file : ClassFile) : Prop where
  ne_record : file.thisClass ≠ recordClass
  ne_object : file.thisClass ≠ objectClass
  superClass_eq : file.superClass = objectClass
  not_record : recordClass ∉ file.interfaces

namespace Discipline

variable {file : ClassFile}

/-- Any reference under any name: only kinds of values are told apart. -/
def kindOnly (ρ : Type) (file : ClassFile) : Discipline ρ file where
  allows _ _ := True
  allows_null _ := trivial
  allows_of_assignable _ _ := trivial

/-- Any reference but the instance, which code without an instance never sees. -/
def withoutThis (ρ : Type) (file : ClassFile) : Discipline ρ file where
  allows _ r := r ≠ .this
  allows_null _ := nofun
  allows_of_assignable _ h := h

/-- What the names of records and of the class promise: under the first never the instance, under
    the second only the instance or null. -/
def Promised (file : ClassFile) (name : String) (r : Reference ρ) : Prop :=
  (name = recordClass → r ≠ .this) ∧ (name = file.thisClass → r = .null ∨ r = .this)

/-- What may stand for a name keeps the promises of that name. -/
theorem Promised.of_assignable (hfile : file.Distinct) {a b : String} {r : Reference ρ}
    (h : file.assignable (.object a) (.object b) = true) (hr : Promised file a r) :
    Promised file b r := by
  have hobject : Promised file objectClass r :=
    ⟨fun he => absurd he (by decide), fun he => absurd he.symm hfile.ne_object⟩
  simp only [ClassFile.assignable, Bool.or_eq_true, Bool.and_eq_true, beq_iff_eq,
    List.contains_iff_mem] at h
  rcases h with (rfl | rfl) | ⟨rfl, rfl | hb⟩
  · exact hr
  · exact hobject
  · rw [hfile.superClass_eq]
    exact hobject
  · exact ⟨fun he => absurd (he ▸ hb) hfile.not_record, fun _ => hr.2 rfl⟩

/-- References keep the promises of names, and one is lent only if `lent`. -/
def byName (ρ : Type) {file : ClassFile} (hfile : file.Distinct) (lent : Prop) :
    Discipline ρ file where
  allows name r := Promised file name r ∧ ∀ record, r = .borrowed record → lent
  allows_null _ := ⟨⟨fun _ => nofun, fun _ => Or.inl rfl⟩, fun _ => nofun⟩
  allows_of_assignable h hr := ⟨hr.1.of_assignable hfile h, hr.2⟩

end Discipline

/-! ## 2. One call -/

namespace Instance

theorem forall₂_of_accepts : ∀ {arguments : List (Value ρ)} {types : List FieldType},
    accepts arguments types = true → List.Forall₂ (fun t v => v.hasType t = true) types arguments
  | [], [], _ => .nil
  | _ :: _, _ :: _, h => by
    rw [accepts, Bool.and_eq_true] at h
    exact .cons h.1 (forall₂_of_accepts h.2)
  | [], _ :: _, h => by cases h
  | _ :: _, [], h => by cases h

/-- Arguments that are accepted are of the right kinds, and more is not asked of them. -/
theorem kindOnly_of_accepts {file : ClassFile} {arguments : List (Value ρ)} {types : List FieldType}
    (h : accepts arguments types = true) :
    List.Forall₂ (fun t v => (Discipline.kindOnly ρ file).Holds (.ofField t) v) types arguments :=
  (forall₂_of_accepts h).imp fun _ _ hv => Discipline.holds_of_hasType hv fun _ _ _ _ => trivial

/-- **A call is refused, and nothing happens, or a body runs on arguments of the right kinds.** -/
theorem invoke_cases [Record ρ] (i : Instance ρ) (name descriptor : String)
    (arguments : List (Value ρ)) :
    (∃ cause, i.invoke name descriptor arguments = (.error (.fault cause), i) ∧
      (cause = .noSuchMethod name descriptor ∨ cause = .badArguments name descriptor)) ∨
    ∃ m body, i.cls.findMethod? name descriptor = some m ∧ m.body = some body ∧
      List.Forall₂ (fun t v => v.hasType t = true) m.type.parameters arguments ∧
      i.invoke name descriptor arguments = i.execute m body arguments := by
  unfold invoke
  cases hm : i.cls.findMethod? name descriptor with
  | none => exact .inl ⟨_, rfl, .inl rfl⟩
  | some m =>
    cases hb : m.body with
    | none => exact .inl ⟨_, by simp only [hb], .inl rfl⟩
    | some body =>
      cases ha : accepts arguments m.type.parameters with
      | false => exact .inl ⟨_, by simp only [hb, ha]; rfl, .inr rfl⟩
      | true => exact .inr ⟨m, body, rfl, hb, forall₂_of_accepts ha, by simp only [hb, ha]; rfl⟩

theorem invoke_of_accepts [Record ρ] {i : Instance ρ} {name descriptor : String} {m : LinkedMethod}
    {body : LinkedBody} {arguments : List (Value ρ)}
    (hm : i.cls.findMethod? name descriptor = some m) (hb : m.body = some body)
    (ha : accepts arguments m.type.parameters = true) :
    i.invoke name descriptor arguments = i.execute m body arguments := by
  unfold invoke
  rw [hm]
  dsimp only
  rw [hb]
  exact if_pos ha

end Instance

/-! ## 3. The fields from call to call -/

/-- The references among the arguments may stand under the names in the parameter types. -/
def Discipline.Permits {file : ClassFile} (D : Discipline ρ file) (m : LinkedMethod)
    (arguments : List (Value ρ)) : Prop :=
  ∀ t r, (t, Value.ref r) ∈ m.type.parameters.zip arguments →
    ∀ name, SlotType.ofField t = .object name → D.allows name r

theorem Discipline.Permits.holds {file : ClassFile} {D : Discipline ρ file} {m : LinkedMethod}
    {arguments : List (Value ρ)} (hp : D.Permits m arguments)
    (h : List.Forall₂ (fun t v => v.hasType t = true) m.type.parameters arguments) :
    List.Forall₂ (fun t v => D.Holds (.ofField t) v) m.type.parameters arguments := by
  rw [List.forall₂_iff_zip] at h ⊢
  refine ⟨h.1, fun {t v} hmem => Discipline.holds_of_hasType (h.2 hmem) ?_⟩
  rintro name r hname rfl
  exact hp t r hmem name hname

theorem Value.zero_ne_borrowed (t : FieldType) (record : ρ) :
    Value.zero t ≠ .ref (.borrowed record) := by
  cases t with
  | base b => cases b <;> simp [Value.zero]
  | object name => simp [Value.zero]
  | array n element => simp [Value.zero]

namespace Instance

variable {file : ClassFile} {c : LinkedClass} {D : Discipline ρ file} {i : Instance ρ}
  {name descriptor : String} {arguments : List (Value ρ)}

/-- An instance of the class, with values of their declared types in its fields. -/
structure Kept (D : Discipline ρ file) (c : LinkedClass) (i : Instance ρ) : Prop where
  cls_eq : i.cls = c
  fields : List.Forall₂ (fun d v => D.Keeps (FieldDecl.type d) v) file.fields i.fields.toList

/-- A call keeps the fields in order, however it ends. -/
theorem Kept.invoke [Record ρ] (h : file.Accepted c) (hthis : D.allows file.thisClass .this)
    (hi : Kept D c i)
    (hp : ∀ m, c.findMethod? name descriptor = some m → D.Permits m arguments) :
    Kept D c (i.invoke name descriptor arguments).2 := by
  rcases i.invoke_cases name descriptor arguments with ⟨_, he, _⟩ | ⟨m, body, hm, hb, ht, he⟩
  · rw [he]
    exact hi
  · obtain ⟨halt, stopped, hrun, hexecute⟩ := i.exists_run m body arguments
    rw [he, hexecute]
    rw [hi.cls_eq] at hm
    cases hs : m.isStatic with
    | true => exact hi
    | false =>
      rw [hs] at hrun
      have hfields : D.FieldsFit (if m.isStatic then #[] else i.fields) := by
        rw [hs]
        exact fun _ _ => hi.fields
      have hsound := h.execute_sound hm hb ((hp m hm).holds ht) (fun _ => hthis) hfields
        (hs.symm ▸ hrun)
      exact ⟨hi.cls_eq, hsound.2.1 _ hthis⟩

/-- The instances that a run leads to: a new one, and after any permitted call the one that it
    leaves behind, whatever the call answered. -/
inductive Reached [Record ρ] (c : LinkedClass)
    (permitted : LinkedMethod → List (Value ρ) → Prop) : Instance ρ → Prop where
  | new {i : Instance ρ} (h : c.newInstance = .ok i) : Reached c permitted i
  | call {i : Instance ρ} (name descriptor : String) (arguments : List (Value ρ))
      (hi : Reached c permitted i)
      (hp : ∀ m, c.findMethod? name descriptor = some m → permitted m arguments) :
      Reached c permitted (i.invoke name descriptor arguments).2

theorem kept_blank (h : file.Accepted c) :
    Kept D c ⟨c, (c.fields.map fun f => Value.zero f.type).toArray⟩ := by
  refine ⟨rfl, ?_⟩
  rw [h.fields_eq, List.map_map, List.forall₂_map_right_iff, List.forall₂_same]
  exact fun d _ => ⟨Discipline.holds_zero d.type, Value.zero_ne_borrowed d.type⟩

theorem kept_of_newInstance [Record ρ] (h : file.Accepted c)
    (hthis : D.allows file.thisClass .this) (hn : c.newInstance = .ok i) : Kept D c i := by
  unfold LinkedClass.newInstance at hn
  dsimp only at hn
  split at hn
  · rename_i result j hj
    cases hn
    have hnone : ∀ m, c.findMethod? initName initDescriptor = some m → D.Permits m [] := by
      intro m _ t r hmem
      simp at hmem
    have hk := (kept_blank h).invoke h hthis hnone
    rw [hj] at hk
    exact hk
  · cases hn

/-- **Every instance that a run leads to has its fields in order.** -/
theorem kept_of_reached [Record ρ] (h : file.Accepted c)
    (hthis : D.allows file.thisClass .this) {permitted : LinkedMethod → List (Value ρ) → Prop}
    (hp : ∀ m arguments, permitted m arguments → D.Permits m arguments)
    (hi : Reached c permitted i) : Kept D c i := by
  induction hi with
  | new hn => exact kept_of_newInstance h hthis hn
  | call name descriptor arguments _ hc ih =>
    exact ih.invoke h hthis fun m hm => hp m arguments (hc m hm)

/-- Whatever was passed, the fields hold values of the right kinds. -/
theorem kept_of_reached_any [Record ρ] (h : file.Accepted c) (hi : Reached c (fun _ _ => True) i) :
    Kept (Discipline.kindOnly ρ file) c i :=
  kept_of_reached h trivial (fun _ _ _ _ _ _ _ _ => trivial) hi

/-- **How a call on an instance with its fields in order ends**: it is refused, or it stops at an
    instruction of the method, for a reason that the discipline explains. -/
theorem invoke_explained [Record ρ] (h : file.Accepted c) (hcls : i.cls = c) {m : LinkedMethod}
    (hm : c.findMethod? name descriptor = some m) (hp : D.Permits m arguments)
    (hthis : m.isStatic = false → D.allows file.thisClass .this)
    (hfields : D.FieldsFit (if m.isStatic then #[] else i.fields)) :
    (∃ cause, (i.invoke name descriptor arguments).1 = .error (.fault cause) ∧
      (cause = .noSuchMethod name descriptor ∨ cause = .badArguments name descriptor)) ∨
    ∃ body halt offset, m.body = some body ∧ D.Explains m.type halt ∧
      (∃ instr, (offset, instr) ∈ body.code) ∧
      (i.invoke name descriptor arguments).1 = halt.answer m.signature offset := by
  rcases i.invoke_cases name descriptor arguments with ⟨cause, he, hc⟩ | ⟨m', body, hm', hb, ht, he⟩
  · exact .inl ⟨cause, by rw [he], hc⟩
  · obtain rfl : m = m' := by
      rw [hcls, hm] at hm'
      exact Option.some.inj hm'
    obtain ⟨halt, stopped, hrun, hexecute⟩ := i.exists_run m body arguments
    have hsound := h.execute_sound hm hb (hp.holds ht) hthis hfields hrun
    refine .inr ⟨body, halt, _, hb, hsound.1, hsound.2.2, ?_⟩
    rw [he, hexecute]

end Instance

/-! ## 4. No call gets stuck -/

/-- The types whose values the machine holds as 32-bit integers. -/
def FieldType.isIntKind : FieldType → Bool
  | .base .int | .base .short | .base .char | .base .byte | .base .boolean => true
  | _ => false

theorem FieldType.isIntKind_iff (t : FieldType) : t.isIntKind = true ↔ SlotType.ofField t = .int := by
  cases t with
  | base b => cases b <;> simp [isIntKind, SlotType.ofField, SlotType.ofBase]
  | object name => simp [isIntKind, SlotType.ofField]
  | array n element => simp [isIntKind, SlotType.ofField]

namespace Instance

variable {c : LinkedClass} {i : Instance ρ} {m : LinkedMethod} {name descriptor : String}
  {arguments : List (Value ρ)}

/-! ### A class with one method

The method reads column 0 of the record it is given.  It is the input of the instances below. -/

/-- The bytes of the class. -/
def readerBytes : List UInt8 := [
  -- magic number, version, size of the pool
  202, 254, 186, 190, 0, 0, 0, 52, 0, 18,
  -- the pool
  1, 0, 1, 84, 7, 0, 1, 1, 0, 16, 106, 97, 118, 97, 47, 108, 97, 110, 103, 47, 79, 98, 106, 101,
  99, 116, 7, 0, 3, 1, 0, 6, 60, 105, 110, 105, 116, 62, 1, 0, 3, 40, 41, 86, 12, 0, 5, 0, 6,
  10, 0, 4, 0, 7, 1, 0, 4, 67, 111, 100, 101, 1, 0, 18, 105, 111, 47, 99, 108, 97, 115, 115, 97,
  115, 109, 47, 82, 101, 99, 111, 114, 100, 7, 0, 10, 1, 0, 6, 103, 101, 116, 73, 110, 116, 1,
  0, 4, 40, 73, 41, 73, 12, 0, 12, 0, 13, 11, 0, 11, 0, 14, 1, 0, 4, 114, 101, 97, 100, 1, 0,
  23, 40, 76, 105, 111, 47, 99, 108, 97, 115, 115, 97, 115, 109, 47, 82, 101, 99, 111, 114, 100,
  59, 41, 73,
  -- flags, names, no interfaces, no fields, two methods
  0, 33, 0, 2, 0, 4, 0, 0, 0, 0, 0, 2,
  -- the constructor
  0, 1, 0, 5, 0, 6, 0, 1, 0, 9, 0, 0, 0, 17, 0, 1, 0, 1, 0, 0, 0, 5, 42, 183, 0, 8, 177, 0, 0,
  0, 0,
  -- the method
  0, 1, 0, 16, 0, 17, 0, 1, 0, 9, 0, 0, 0, 20, 0, 2, 0, 2, 0, 0, 0, 8, 43, 3, 185, 0, 15, 2, 0,
  172, 0, 0, 0, 0,
  0, 0]

def readDescriptor : String := "(Lio/classasm/Record;)I"

def readMethod : LinkedMethod :=
  ⟨"read", readDescriptor, ⟨[.object recordClass], some (.base .int)⟩, false,
    some ⟨2, 2, #[(0, .aload 1), (1, .push 0), (2, .invokeinterface (.accessor .int)),
      (7, .ireturn)]⟩⟩

def reader : LinkedClass :=
  ⟨"T", objectClass, [], ⟨0, 52⟩, [],
    [⟨initName, initDescriptor, ⟨[], none⟩, false,
      some ⟨1, 1, #[(0, .aload 0), (1, .invokespecial .objectInit), (4, .vreturn)]⟩⟩, readMethod]⟩

theorem load_reader : LinkedClass.load readerBytes = .ok reader := by decide +kernel

theorem reached_reader {permitted : LinkedMethod → List (Value Row) → Prop} :
    Reached reader permitted ⟨reader, #[]⟩ := .new (by decide)

theorem findMethod?_reader : reader.findMethod? "read" readDescriptor = some readMethod := by
  decide

/-- The discipline under which a call without a promise about its references is explained. -/
theorem exists_explained_of_reached [Record ρ] {input : List UInt8}
    (hload : LinkedClass.load input = .ok c) (hi : Reached c (fun _ _ => True) i)
    (hm : c.findMethod? name descriptor = some m)
    (hstatic : m.isStatic = true → Value.ref .this ∉ arguments) :
    (∃ cause, (i.invoke name descriptor arguments).1 = .error (.fault cause) ∧
      (cause = .noSuchMethod name descriptor ∨ cause = .badArguments name descriptor)) ∨
    ∃ (file : ClassFile) (D : Discipline ρ file) (halt : Halt ρ) (offset : Nat),
      D.Explains m.type halt ∧
      (i.invoke name descriptor arguments).1 = halt.answer m.signature offset := by
  obtain ⟨file, h⟩ := LinkedClass.accepted_of_load hload
  have hk := kept_of_reached_any h hi
  cases hs : m.isStatic with
  | false =>
    have hpermits : (Discipline.kindOnly ρ file).Permits m arguments := fun _ _ _ _ _ => trivial
    have he := invoke_explained h hk.cls_eq hm hpermits (fun _ => trivial)
      (by rw [hs]; exact fun _ _ => hk.fields)
    exact he.imp_right fun ⟨_, halt, offset, _, hx, _, ha⟩ => ⟨file, _, halt, offset, hx, ha⟩
  | true =>
    -- code without an instance is not handed one, so it never comes to fields
    have hpermits : (Discipline.withoutThis ρ file).Permits m arguments := by
      rintro t r hmem _ _ rfl
      exact hstatic hs (List.of_mem_zip hmem).2
    have he := invoke_explained h hk.cls_eq hm hpermits (fun hf => absurd hs (by simp [hf]))
      (fun _ hthis => absurd rfl hthis)
    exact he.imp_right fun ⟨_, halt, offset, _, hx, _, ha⟩ => ⟨file, _, halt, offset, hx, ha⟩

/-- **Checked code never gets stuck.**  On every instance that a run leads to, a call of a method
    finds no operands of a wrong kind; it answers an integer exactly if its type says one, nothing
    exactly if its type says so, and if its type says something else it never returns. -/
theorem invoke_never_stuck [Record ρ] {input : List UInt8}
    (hload : LinkedClass.load input = .ok c) (hi : Reached c (fun _ _ => True) i)
    (hm : c.findMethod? name descriptor = some m)
    (hstatic : m.isStatic = true → Value.ref .this ∉ arguments) :
    (∀ signature offset, (i.invoke name descriptor arguments).1 ≠
      .error (.fault (.trap signature offset .badOperands))) ∧
    ∀ answer, (i.invoke name descriptor arguments).1 = .ok answer →
      ((∃ n, answer = some (.int n)) ↔ ∃ t, m.type.result = some t ∧ t.isIntKind = true) ∧
      (answer = none ↔ m.type.result = none) ∧
      (m.type.result = none ∨ ∃ t, m.type.result = some t ∧ t.isIntKind = true) := by
  rcases exists_explained_of_reached hload hi hm hstatic with
    ⟨cause, he, hc⟩ | ⟨file, D, halt, offset, hx, he⟩
  · rw [he]
    refine ⟨fun _ _ h => ?_, nofun⟩
    rcases hc with rfl | rfl <;> cases h
  · rw [he]
    cases halt with
    | trapped cause =>
      refine ⟨fun _ _ h => ?_, nofun⟩
      cases h
      exact hx
    | unreadable => exact ⟨nofun, nofun⟩
    | returned result =>
      refine ⟨nofun, ?_⟩
      rintro answer ⟨⟩
      cases result with
      | none =>
        have hvoid : m.type.result = none := hx
        simp [hvoid]
      | some v =>
        obtain ⟨hint, n, rfl⟩ := hx
        obtain ⟨t, ht, hk⟩ := Option.map_eq_some_iff.mp hint
        simp [ht, t.isIntKind_iff.mpr hk]

theorem invoke_never_stuck_reader :
    let call := ((⟨reader, #[]⟩ : Instance Row).invoke "read" readDescriptor
      [.ref (.borrowed ⟨#[.int 3]⟩)]).1
    call = .ok (some (.int 3)) ∧
    (∀ signature offset, call ≠ .error (.fault (.trap signature offset .badOperands))) ∧
    ∃ t, readMethod.type.result = some t ∧ t.isIntKind = true := by
  intro call
  have hcall : call = .ok (some (.int 3)) := by decide +kernel
  have hstatic : readMethod.isStatic = true →
      Value.ref .this ∉ [Value.ref (.borrowed (⟨#[.int 3]⟩ : Row))] := nofun
  have h := invoke_never_stuck load_reader reached_reader findMethod?_reader hstatic
  exact ⟨hcall, h.1, (h.2 _ hcall).1.mp ⟨3, rfl⟩⟩

end Instance

/-! ## 5. The traps that are left -/

namespace Instance

variable {c : LinkedClass} {i : Instance ρ} {m : LinkedMethod} {name descriptor : String}
  {arguments : List (Value ρ)}

/-- What is passed as a record is not the instance, and what is passed as an instance of the class
    is the instance or null. -/
def Lawful (c : LinkedClass) (m : LinkedMethod) (arguments : List (Value ρ)) : Prop :=
  ∀ t v, (t, v) ∈ m.type.parameters.zip arguments →
    (SlotType.ofField t = .object recordClass → v ≠ .ref .this) ∧
    (SlotType.ofField t = .object c.name → v = .ref .null ∨ v = .ref .this)

theorem Lawful.permits {file : ClassFile} (hfile : file.Distinct) (hname : c.name = file.thisClass)
    {lent : Prop} (h : Lawful c m arguments)
    (hlent : ∀ record, Value.ref (.borrowed record) ∈ arguments → lent) :
    (Discipline.byName ρ hfile lent).Permits m arguments := by
  intro t r hmem name ht
  obtain ⟨hrecord, hthis⟩ := h t (.ref r) hmem
  refine ⟨⟨?_, ?_⟩, ?_⟩
  · rintro rfl rfl
    exact hrecord ht rfl
  · rintro rfl
    rw [hname] at hthis
    simpa using hthis ht
  · rintro record rfl
    exact hlent record (List.of_mem_zip hmem).2

/-- The fields hold no lent record, so they are in order whether or not one is lent now. -/
theorem Kept.byName {file : ClassFile} {hfile : file.Distinct} {lent lent' : Prop}
    (h : Kept (Discipline.byName ρ hfile lent) c i) : Kept (Discipline.byName ρ hfile lent') c i := by
  refine ⟨h.cls_eq, h.fields.imp fun d v hv => ⟨?_, hv.2⟩⟩
  refine Discipline.holds_of_hasType (Discipline.hasType_of_holds hv.1) ?_
  rintro name r hname rfl
  have hr := hv.1
  rw [hname] at hr
  exact ⟨hr.1, fun record he => absurd (congrArg Value.ref he) (hv.2 record)⟩

/-- The trap is on null, at the limit, or for a record that one of the arguments lends and that
    would be kept; and it is at an instruction of the method. -/
def TrapsAt (m : LinkedMethod) (arguments : List (Value ρ)) (signature : String) (offset : Nat)
    (cause : TrapCause) : Prop :=
  (cause = .nullReference ∨ cause = .stepLimit ∨
    (cause = .escapingReference ∧ ∃ record, Value.ref (.borrowed record) ∈ arguments)) ∧
  signature = m.signature ∧ ∃ body, m.body = some body ∧ ∃ instr, (offset, instr) ∈ body.code

theorem allows_this_byName {file : ClassFile} (hfile : file.Distinct) (lent : Prop) :
    (Discipline.byName ρ hfile lent).allows file.thisClass .this :=
  ⟨⟨fun he => absurd he hfile.ne_record, fun _ => .inr rfl⟩, fun _ => nofun⟩

theorem trapsAt_of_kept [Record ρ] {file : ClassFile} (hfile : file.Distinct)
    (h : file.Accepted c) (hkept : Kept (Discipline.byName ρ hfile True) c i)
    (hm : c.findMethod? name descriptor = some m) (hstatic : m.isStatic = false)
    (hlawful : Lawful c m arguments) {signature : String} {offset : Nat} {cause : TrapCause}
    (htrap : (i.invoke name descriptor arguments).1 =
      .error (.fault (.trap signature offset cause))) :
    TrapsAt m arguments signature offset cause := by
  -- what is lent in this call is among its own arguments, since no field holds such a record
  have hnow : Kept (Discipline.byName ρ hfile (∃ record, Value.ref (.borrowed record) ∈ arguments))
      c i := hkept.byName
  have hpermits := hlawful.permits hfile h.name_eq fun record hr => Exists.intro record hr
  rcases invoke_explained h hnow.cls_eq hm hpermits (fun _ => allows_this_byName hfile _)
      (by rw [hstatic]; exact fun _ _ => hnow.fields) with
    ⟨fault, he, hc⟩ | ⟨body, halt, offset', hb, hx, hoffset, he⟩
  · rw [he] at htrap
    rcases hc with rfl | rfl <;> cases htrap
  · rw [he] at htrap
    cases halt with
    | returned result => cases htrap
    | unreadable => cases htrap
    | trapped cause' =>
      cases htrap
      refine ⟨?_, rfl, body, hb, hoffset⟩
      cases cause with
      | nullReference => exact .inl rfl
      | stepLimit => exact .inr (.inl rfl)
      | escapingReference =>
        obtain ⟨_, record, hr⟩ := hx
        exact .inr (.inr ⟨rfl, hr.2 record rfl⟩)
      | badOperands => exact hx.elim
      | wrongReceiver =>
        rcases hx with hr | ⟨record, hr | hr⟩
        · exact absurd rfl (hr.1.1 rfl)
        · exact absurd (hr.1.2 rfl) (by simp)
        · exact absurd (hr.1.2 rfl) (by simp)

/-- **The traps of checked code.**  If references are passed as their types say, a call of a method
    of an instance, that of the constructor included, traps only on null, at the limit, or when it
    would keep a record that one of its own arguments lends; and always at an instruction of the
    method. -/
theorem traps_classified [Record ρ] {input : List UInt8} (hload : LinkedClass.load input = .ok c)
    (hrecord : c.name ≠ recordClass) (hobject : c.name ≠ objectClass)
    (hinterfaces : recordClass ∉ c.interfaces) :
    (∀ m signature offset cause, c.findMethod? initName initDescriptor = some m →
      m.isStatic = false →
      (c.newInstance : Except CallFailure (Instance ρ)) =
        .error (.fault (.trap signature offset cause)) →
      TrapsAt m ([] : List (Value ρ)) signature offset cause) ∧
    ∀ (i : Instance ρ) name descriptor m arguments signature offset cause,
      Reached c (Lawful c) i → c.findMethod? name descriptor = some m → m.isStatic = false →
      Lawful c m arguments →
      (i.invoke name descriptor arguments).1 = .error (.fault (.trap signature offset cause)) →
      TrapsAt m arguments signature offset cause := by
  obtain ⟨file, h⟩ := LinkedClass.accepted_of_load hload
  have hfile : file.Distinct :=
    ⟨h.name_eq ▸ hrecord, h.name_eq ▸ hobject, h.superClass_eq, h.interfaces_eq ▸ hinterfaces⟩
  have hthis := allows_this_byName (ρ := ρ) hfile True
  constructor
  · intro m signature offset cause hm hstatic hnew
    refine trapsAt_of_kept hfile h (kept_blank h) hm hstatic (fun t v hmem => by simp at hmem) ?_
    unfold LinkedClass.newInstance at hnew
    dsimp only at hnew
    split at hnew
    · cases hnew
    · rename_i e _ he
      cases hnew
      rw [he]
  · intro i name descriptor m arguments signature offset cause hi hm hstatic hlawful htrap
    have hkept : Kept (Discipline.byName ρ hfile True) c i :=
      kept_of_reached h hthis (fun _ _ hl => hl.permits hfile h.name_eq fun _ _ => trivial) hi
    exact trapsAt_of_kept hfile h hkept hm hstatic hlawful htrap

theorem traps_classified_reader :
    let call := ((⟨reader, #[]⟩ : Instance Row).invoke "read" readDescriptor [.ref .null]).1
    call = .error (.fault (.trap readMethod.signature 2 .nullReference)) ∧
    TrapsAt readMethod ([.ref .null] : List (Value Row)) readMethod.signature 2 .nullReference := by
  intro call
  have hcall : call = .error (.fault (.trap readMethod.signature 2 .nullReference)) := by
    decide +kernel
  have hlawful : Lawful reader readMethod ([.ref .null] : List (Value Row)) := by
    intro t v hmem
    obtain ⟨rfl, rfl⟩ : t = .object recordClass ∧ v = .ref .null := by
      simpa [readMethod] using hmem
    exact ⟨fun _ => by simp, fun _ => .inl rfl⟩
  have h := traps_classified (ρ := Row) load_reader (by decide) (by decide) (by decide)
  exact ⟨hcall, h.2 _ _ _ _ _ _ _ _ reached_reader findMethod?_reader rfl hlawful hcall⟩

end Instance

end Collation
