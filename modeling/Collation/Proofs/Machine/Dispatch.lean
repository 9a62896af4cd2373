/-
  File:      Collation/Proofs/Machine/Dispatch.lean
  Subject:   The methods that a class must have, and the methods that calls find.

  Loading asks whether some method of the class has a wanted name and descriptor, a body, and
  belongs to instances.  A call takes the first method with its name and descriptor, whatever else
  that method is.  A file may declare several methods alike, and then the two can part ways.

  * `ClassFile.first?` -- the method that a file declares first with a name and descriptor;
  * `ClassFile.Accepted.findMethod?_rel` -- what a call finds is made from that one;
  * `Instance.RunsOwn` -- a call that runs a body on the instance;
  * **`LinkedClass.capability_served_iff`** -- when new instances are made and comparators answer as
    the check of the class promises: exactly when the methods declared first are the right ones, and
    always when no method is declared twice;
  * `LinkedClass.capability_unserved` -- a class that passes the check and does not answer.
-/
import Mathlib.Data.List.Nodup
import Collation.Proofs.Typing.Calls

namespace Collation

/-! ## 1. What a call finds -/

namespace ClassFile

variable {file : ClassFile} {c : LinkedClass} {name descriptor : String} {d : MethodDecl}
  {m : LinkedMethod}

/-- The first method that the file declares with this name and descriptor. -/
def first? (file : ClassFile) (name descriptor : String) : Option MethodDecl :=
  file.methods.find? fun d => d.name == name && d.descriptor == descriptor

theorem named_of_first? (h : file.first? name descriptor = some d) :
    d ∈ file.methods ∧ d.name = name ∧ d.descriptor = descriptor := by
  have hnamed := List.find?_some h
  simp only [Bool.and_eq_true, beq_iff_eq] at hnamed
  exact ⟨List.mem_of_find?_eq_some h, hnamed⟩

/-- A method has a body once it is linked exactly if it was declared with code. -/
theorem isSome_body_of_linkMethod (h : file.linkMethod d = .ok m) :
    m.body.isSome = d.code.isSome := by
  unfold linkMethod at h
  split at h
  · rename_i hcode
    cases h
    rw [hcode]
    rfl
  · rename_i code hcode
    dsimp only at h
    split at h
    · cases h
    · split at h
      · cases h
      · cases h
        rw [hcode]
        rfl

/-- **What a call finds is made from the method that the file declares first.** -/
theorem Accepted.findMethod?_rel (h : file.Accepted c) (name descriptor : String) :
    Option.Rel (fun d m => file.linkMethod d = .ok m) (file.first? name descriptor)
      (c.findMethod? name descriptor) := by
  refine forall₂_find? h.methods fun d m hlink => ?_
  obtain ⟨_, _, hname, hdescriptor, _⟩ := certificate_of_linkMethod hlink
  rw [hname, hdescriptor]

theorem Accepted.linked_of_first? (h : file.Accepted c)
    (hd : file.first? name descriptor = some d) :
    ∃ m, c.findMethod? name descriptor = some m ∧ file.linkMethod d = .ok m := by
  have hrel := h.findMethod?_rel name descriptor
  rw [hd] at hrel
  cases hm : c.findMethod? name descriptor with
  | none =>
    rw [hm] at hrel
    cases hrel
  | some m =>
    rw [hm] at hrel
    cases hrel with
    | some hlink => exact ⟨m, rfl, hlink⟩

/-- The type of what is declared first is the one that its descriptor spells. -/
theorem Accepted.parse_of_first? (h : file.Accepted c)
    (hd : file.first? name descriptor = some d) : MethodType.parse descriptor = .ok d.type := by
  obtain ⟨hmem, _, rfl⟩ := named_of_first? hd
  exact h.methodTypes d hmem

/-! ## 2. What the check asks -/

theorem exists_of_hasInstanceMethod (h : file.hasInstanceMethod name descriptor = true) :
    ∃ e ∈ file.methods, e.name = name ∧ e.descriptor = descriptor ∧ e.code.isSome = true ∧
      e.flags.isStatic = false := by
  obtain ⟨e, hmem, he⟩ := List.any_eq_true.mp h
  simp only [Bool.and_eq_true, beq_iff_eq, Bool.not_eq_true'] at he
  obtain ⟨⟨⟨hname, hdescriptor⟩, hcode⟩, hstatic⟩ := he
  exact ⟨e, hmem, hname, hdescriptor, hcode, hstatic⟩

/-- Where the check finds a method, a call finds one too. -/
theorem exists_first?_of_hasInstanceMethod (h : file.hasInstanceMethod name descriptor = true) :
    ∃ d, file.first? name descriptor = some d := by
  obtain ⟨e, hmem, hname, hdescriptor, _⟩ := exists_of_hasInstanceMethod h
  refine Option.isSome_iff_exists.mp (List.find?_isSome.mpr ⟨e, hmem, ?_⟩)
  rw [hname, hdescriptor, beq_self_eq_true, beq_self_eq_true]
  rfl

theorem Accepted.hasConstructor (h : file.Accepted c) :
    file.hasInstanceMethod initName initDescriptor = true := by
  have hshape := h.shape
  unfold checkShape at hshape
  split at hshape
  · cases hshape
  · split at hshape
    · cases hshape
    · rename_i hinit
      simpa using hinit

theorem Accepted.hasCapability (h : file.Accepted c) (hi : comparatorClass ∈ file.interfaces)
    {p : String × String} (hp : p ∈ capability) : file.hasInstanceMethod p.1 p.2 = true := by
  have hshape := h.shape
  unfold checkShape at hshape
  split at hshape
  · cases hshape
  · split at hshape
    · cases hshape
    · rw [if_pos (List.contains_iff_mem.mpr hi)] at hshape
      split at hshape
      · cases hshape
      · rename_i hnone
        simpa using List.find?_eq_none.mp hnone p hp

/-- No two methods of the file have the same name and the same descriptor. -/
def Unambiguous (file : ClassFile) : Prop :=
  (file.methods.map fun d => (d.name, d.descriptor)).Nodup

/-- If no method is declared twice, the one that the check has in mind is declared first. -/
theorem Unambiguous.first? (hfile : file.Unambiguous)
    (h : file.hasInstanceMethod name descriptor = true) :
    ∃ d, file.first? name descriptor = some d ∧ d.code.isSome = true ∧
      d.flags.isStatic = false := by
  obtain ⟨e, hmem, hname, hdescriptor, hcode, hstatic⟩ := exists_of_hasInstanceMethod h
  obtain ⟨d, hd⟩ := exists_first?_of_hasInstanceMethod h
  obtain ⟨hmem', hname', hdescriptor'⟩ := named_of_first? hd
  have hkey : (d.name, d.descriptor) = (e.name, e.descriptor) := by
    rw [hname, hdescriptor, hname', hdescriptor']
  obtain rfl : d = e := List.inj_on_of_nodup_map hfile hmem' hmem hkey
  exact ⟨d, hd, hcode, hstatic⟩

/-- The methods of comparators take one record. -/
theorem parse_capability {p : String × String} (hp : p ∈ capability) :
    ∃ result, MethodType.parse p.2 = .ok ⟨[.object recordClass], result⟩ := by
  simp only [capability, List.mem_cons, List.not_mem_nil, or_false] at hp
  rcases hp with rfl | rfl
  · exact ⟨none, by decide +kernel⟩
  · exact ⟨some (.base .int), by decide +kernel⟩

end ClassFile

/-! ## 3. Calls that run -/

/-- The call was refused before any code ran. -/
def CallFailure.IsRefusal : CallFailure → Prop
  | .fault (.noSuchMethod _ _) | .fault (.badArguments _ _) => True
  | .fault (.trap _ _ _) | .unreadable => False

namespace Instance

variable {ρ : Type} [Record ρ] {file : ClassFile} {c : LinkedClass} {i : Instance ρ}
  {name descriptor : String} {arguments : List (Value ρ)} {d : MethodDecl}

/-- The call runs the body of a method that belongs to instances. -/
def RunsOwn (i : Instance ρ) (name descriptor : String) (arguments : List (Value ρ)) : Prop :=
  ∃ m body, i.cls.findMethod? name descriptor = some m ∧ m.body = some body ∧
    m.isStatic = false ∧ i.invoke name descriptor arguments = i.execute m body arguments

/-- A body that runs comes to an end that is no refusal. -/
theorem execute_not_refused {m : LinkedMethod} {body : LinkedBody} {e : CallFailure}
    (h : (i.execute m body arguments).1 = .error e) : ¬ e.IsRefusal := by
  obtain ⟨halt, stopped, -, hexecute⟩ := i.exists_run m body arguments
  rw [hexecute] at h
  cases halt <;> cases h <;> exact id

/-- **A call goes by the method that the file declares first**: without code it is refused, else
    its body runs. -/
theorem invoke_first? (h : file.Accepted c) (hcls : i.cls = c)
    (hd : file.first? name descriptor = some d)
    (ha : accepts arguments d.type.parameters = true) :
    (d.code = none ∧ i.invoke name descriptor arguments =
      (.error (.fault (.noSuchMethod name descriptor)), i)) ∨
    ∃ m body, d.code.isSome = true ∧ i.cls.findMethod? name descriptor = some m ∧
      m.body = some body ∧ m.isStatic = d.flags.isStatic ∧
      i.invoke name descriptor arguments = i.execute m body arguments := by
  obtain ⟨m, hm, hlink⟩ := h.linked_of_first? hd
  obtain ⟨htype, hstatic, _⟩ := ClassFile.certificate_of_linkMethod hlink
  have hbody := ClassFile.isSome_body_of_linkMethod hlink
  rw [← hcls] at hm
  cases hb : m.body with
  | none =>
    rw [hb] at hbody
    refine .inl ⟨Option.isNone_iff_eq_none.mp (by simpa using hbody.symm), ?_⟩
    unfold invoke
    rw [hm]
    dsimp only
    rw [hb]
  | some body =>
    rw [hb] at hbody
    exact .inr ⟨m, body, hbody.symm, hm, hb, hstatic, invoke_of_accepts hm hb (htype ▸ ha)⟩

variable (h : file.Accepted c) (hcls : i.cls = c) (hd : file.first? name descriptor = some d)
  (ha : accepts arguments d.type.parameters = true)

include h hcls hd ha

theorem not_refused_iff :
    (∀ e, (i.invoke name descriptor arguments).1 = .error e → ¬ e.IsRefusal) ↔
      d.code.isSome = true := by
  rcases invoke_first? h hcls hd ha with ⟨hcode, he⟩ | ⟨m, body, hcode, _, _, _, he⟩
  · rw [he, hcode]
    constructor
    · intro hall
      exact absurd trivial (hall _ rfl)
    · intro hsome
      cases hsome
  · rw [he]
    exact ⟨fun _ => hcode, fun _ e he => execute_not_refused he⟩

theorem runsOwn_iff :
    i.RunsOwn name descriptor arguments ↔ d.code.isSome = true ∧ d.flags.isStatic = false := by
  rcases invoke_first? h hcls hd ha with ⟨hcode, he⟩ | ⟨m, body, hcode, hm, hb, hstatic, he⟩
  · constructor
    · rintro ⟨m', body', hm', hb', _, he'⟩
      rw [he] at he'
      have hrefused : (i.execute m' body' arguments).1 =
          .error (.fault (.noSuchMethod name descriptor)) := by rw [← he']
      exact absurd trivial (execute_not_refused hrefused)
    · rintro ⟨hsome, _⟩
      rw [hcode] at hsome
      cases hsome
  · constructor
    · rintro ⟨m', body', hm', _, hown, _⟩
      rw [hm] at hm'
      cases hm'
      exact ⟨hcode, hstatic ▸ hown⟩
    · rintro ⟨_, hown⟩
      exact ⟨m, body, hm, hb, hstatic.trans hown, he⟩

end Instance

/-! ## 4. The check and the calls -/

namespace LinkedClass

variable {ρ : Type} [Record ρ] {file : ClassFile} {c : LinkedClass}

/-- A new instance is refused if the call of its constructor is. -/
theorem newInstance_eq_error {e : CallFailure} :
    (c.newInstance : Except CallFailure (Instance ρ)) = .error e ↔
      ((⟨c, (c.fields.map fun f => Value.zero f.type).toArray⟩ : Instance ρ).invoke
        initName initDescriptor []).1 = .error e := by
  unfold newInstance
  dsimp only
  split
  · rename_i hj
    rw [hj]
    constructor <;> (intro he; cases he)
  · rename_i hj
    rw [hj]
    constructor <;> (intro he; cases he; rfl)

/-- **When the promise of the check is kept.**  New instances are made without a refusal exactly if
    the constructor that the file declares first has code.  The methods of a comparator, called with
    one reference, are not refused exactly if what the file declares first has code, and they run on
    the instance exactly if that is also a method of instances.  All this is so if the file declares
    no method twice. -/
theorem capability_served_iff {input : List UInt8} (hparse : ClassFile.parse input = .ok file)
    (hload : LinkedClass.load input = .ok c) :
    ((∀ e, (c.newInstance : Except CallFailure (Instance ρ)) = .error e → ¬ e.IsRefusal) ↔
      ∃ d, file.first? initName initDescriptor = some d ∧ d.code.isSome = true) ∧
    (comparatorClass ∈ c.interfaces → ∀ i : Instance ρ, Instance.Reached c (fun _ _ => True) i →
      ∀ p ∈ ClassFile.capability, ∀ r : Reference ρ,
        ((∀ e, (i.invoke p.1 p.2 [.ref r]).1 = .error e → ¬ e.IsRefusal) ↔
          ∃ d, file.first? p.1 p.2 = some d ∧ d.code.isSome = true) ∧
        (i.RunsOwn p.1 p.2 [.ref r] ↔
          ∃ d, file.first? p.1 p.2 = some d ∧ d.code.isSome = true ∧ d.flags.isStatic = false)) ∧
    (file.Unambiguous →
      (∃ d, file.first? initName initDescriptor = some d ∧ d.code.isSome = true) ∧
      (comparatorClass ∈ c.interfaces → ∀ p ∈ ClassFile.capability,
        ∃ d, file.first? p.1 p.2 = some d ∧ d.code.isSome = true ∧ d.flags.isStatic = false)) := by
  have h := accepted_of_parse hparse hload
  refine ⟨?_, fun hinterface i hi p hp r => ?_, fun hfile => ⟨?_, fun hinterface p hp => ?_⟩⟩
  · obtain ⟨d, hd⟩ := ClassFile.exists_first?_of_hasInstanceMethod h.hasConstructor
    have htype : d.type = ⟨[], none⟩ :=
      Except.ok.inj ((h.parse_of_first? hd).symm.trans parse_initDescriptor)
    have haccepts : Instance.accepts ([] : List (Value ρ)) d.type.parameters = true := by
      rw [htype]
      rfl
    simp only [newInstance_eq_error, hd, Option.some.injEq, exists_eq_left']
    exact Instance.not_refused_iff h rfl hd haccepts
  · have hcls : i.cls = c := (Instance.kept_of_reached_any h hi).cls_eq
    rw [h.interfaces_eq] at hinterface
    obtain ⟨d, hd⟩ := ClassFile.exists_first?_of_hasInstanceMethod (h.hasCapability hinterface hp)
    obtain ⟨result, hparsed⟩ := ClassFile.parse_capability hp
    have htype : d.type = ⟨[.object recordClass], result⟩ :=
      Except.ok.inj ((h.parse_of_first? hd).symm.trans hparsed)
    have haccepts : Instance.accepts [Value.ref r] d.type.parameters = true := by
      rw [htype]
      rfl
    simp only [hd, Option.some.injEq, exists_eq_left']
    exact ⟨Instance.not_refused_iff h hcls hd haccepts, Instance.runsOwn_iff h hcls hd haccepts⟩
  · obtain ⟨d, hd, hcode, _⟩ := hfile.first? h.hasConstructor
    exact ⟨d, hd, hcode⟩
  · rw [h.interfaces_eq] at hinterface
    exact hfile.first? (h.hasCapability hinterface hp)

/-! ### A comparator that is declared twice

The class declares its comparing method first without code and then with code.  The check finds the
second declaration, calls find the first. -/

/-- The bytes of the class. -/
def twiceBytes : List UInt8 := [
  -- magic number, version, size of the pool
  202, 254, 186, 190, 0, 0, 0, 52, 0, 16,
  -- the pool
  1, 0, 1, 68, 7, 0, 1, 1, 0, 16, 106, 97, 118, 97, 47, 108, 97, 110, 103, 47, 79, 98, 106, 101, 99,
  116, 7, 0, 3, 1, 0, 6, 60, 105, 110, 105, 116, 62, 1, 0, 3, 40, 41, 86, 12, 0, 5, 0, 6, 10, 0, 4,
  0, 7, 1, 0, 4, 67, 111, 100, 101, 1, 0, 28, 105, 111, 47, 99, 108, 97, 115, 115, 97, 115, 109, 47,
  82, 101, 99, 111, 114, 100, 67, 111, 109, 112, 97, 114, 97, 116, 111, 114, 7, 0, 10, 1, 0, 7, 115,
  101, 116, 76, 101, 102, 116, 1, 0, 23, 40, 76, 105, 111, 47, 99, 108, 97, 115, 115, 97, 115, 109,
  47, 82, 101, 99, 111, 114, 100, 59, 41, 86, 1, 0, 7, 99, 111, 109, 112, 97, 114, 101, 1, 0, 23, 40,
  76, 105, 111, 47, 99, 108, 97, 115, 115, 97, 115, 109, 47, 82, 101, 99, 111, 114, 100, 59, 41, 73,
  -- flags, names, one interface, no fields, four methods
  0, 33, 0, 2, 0, 4, 0, 1, 0, 11, 0, 0, 0, 4,
  -- the constructor
  0, 1, 0, 5, 0, 6, 0, 1, 0, 9, 0, 0, 0, 17, 0, 1, 0, 1, 0, 0, 0, 5, 42, 183, 0, 8, 177, 0, 0, 0, 0,
  -- the method that takes the left record
  0, 1, 0, 12, 0, 13, 0, 1, 0, 9, 0, 0, 0, 13, 0, 0, 0, 2, 0, 0, 0, 1, 177, 0, 0, 0, 0,
  -- the comparing method, without code
  4, 1, 0, 14, 0, 15, 0, 0,
  -- the comparing method, with code
  0, 1, 0, 14, 0, 15, 0, 1, 0, 9, 0, 0, 0, 14, 0, 1, 0, 2, 0, 0, 0, 2, 3, 172, 0, 0, 0, 0,
  0, 0]

/-- The first declaration of the comparing method. -/
def twiceFirst : MethodDecl :=
  ⟨⟨1025⟩, compareName, ⟨[.object recordClass], some (.base .int)⟩, compareDescriptor, none⟩

/-- What the bytes are read as. -/
def twiceFile : ClassFile where
  version := ⟨0, 52⟩
  pool := ⟨#[.text "D", .cls 1, .text objectClass, .cls 3, .text initName, .text initDescriptor,
    .nameAndType 5 6, .member .method 4 7, .text codeAttributeName, .text comparatorClass, .cls 10,
    .text setLeftName, .text setLeftDescriptor, .text compareName, .text compareDescriptor]⟩
  flags := ⟨33⟩
  thisClass := "D"
  superClass := objectClass
  interfaces := [comparatorClass]
  fields := []
  methods := [
    ⟨⟨1⟩, initName, ⟨[], none⟩, initDescriptor, some ⟨1, 1, [42, 183, 0, 8, 177], 213, []⟩⟩,
    ⟨⟨1⟩, setLeftName, ⟨[.object recordClass], none⟩, setLeftDescriptor,
      some ⟨0, 2, [177], 244, []⟩⟩,
    twiceFirst,
    ⟨⟨1⟩, compareName, ⟨[.object recordClass], some (.base .int)⟩, compareDescriptor,
      some ⟨1, 2, [3, 172], 279, []⟩⟩]

/-- The class that is made from them. -/
def twice : LinkedClass :=
  ⟨"D", objectClass, [comparatorClass], ⟨0, 52⟩, [],
    [⟨initName, initDescriptor, ⟨[], none⟩, false,
      some ⟨1, 1, #[(0, .aload 0), (1, .invokespecial .objectInit), (4, .vreturn)]⟩⟩,
      ⟨setLeftName, setLeftDescriptor, ⟨[.object recordClass], none⟩, false,
        some ⟨0, 2, #[(0, .vreturn)]⟩⟩,
      ⟨compareName, compareDescriptor, ⟨[.object recordClass], some (.base .int)⟩, false, none⟩,
      ⟨compareName, compareDescriptor, ⟨[.object recordClass], some (.base .int)⟩, false,
        some ⟨1, 2, #[(0, .push 0), (1, .ireturn)]⟩⟩]⟩

theorem parse_twice : ClassFile.parse twiceBytes = .ok twiceFile := by decide +kernel

theorem load_twice : LinkedClass.load twiceBytes = .ok twice := by decide +kernel

theorem newInstance_twice : twice.newInstance = .ok (⟨twice, #[]⟩ : Instance Row) := by
  decide

/-- **The check does not keep its promise**: the class is loaded as a comparator and has an instance,
    and yet there is no comparing method for a call to run. -/
theorem capability_unserved :
    LinkedClass.load twiceBytes = .ok twice ∧ comparatorClass ∈ twice.interfaces ∧
    Instance.Reached twice (fun _ _ => True) (⟨twice, #[]⟩ : Instance Row) ∧
    ((⟨twice, #[]⟩ : Instance Row).invoke compareName compareDescriptor [.ref .null]).1 =
      .error (.fault (.noSuchMethod compareName compareDescriptor)) := by
  refine ⟨load_twice, List.mem_singleton_self _, .new newInstance_twice, ?_⟩
  decide

theorem capability_served_iff_twice :
    twiceFile.first? compareName compareDescriptor = some twiceFirst ∧
    (∀ e, (twice.newInstance : Except CallFailure (Instance Row)) = .error e → ¬ e.IsRefusal) ∧
    ¬ (⟨twice, #[]⟩ : Instance Row).RunsOwn compareName compareDescriptor [.ref .null] := by
  have hfirst : twiceFile.first? compareName compareDescriptor = some twiceFirst := by
    decide
  obtain ⟨hnew, hcalls, _⟩ := capability_served_iff (ρ := Row) parse_twice load_twice
  have hcompare := hcalls (List.mem_singleton_self _) _ (.new newInstance_twice)
    (compareName, compareDescriptor) (by decide) .null
  refine ⟨hfirst, hnew.mpr ⟨_, rfl, rfl⟩, fun hruns => ?_⟩
  obtain ⟨d, hd, hcode, _⟩ := hcompare.2.mp hruns
  rw [hfirst] at hd
  cases hd
  cases hcode

end LinkedClass

end Collation
