/-
  File:      Collation/Proofs/Typing/FrameSteps.lean
  Subject:   The operations on frames, followed on the states that the frames describe.

  Each operation that a frame admits can be done on every state that the frame describes, and
  leads to a state that the new frame describes.  The second part says what the members are that
  checked instructions refer to, once they are bound.

  * `Describes.push`, `Describes.pop`, `Describes.popExpecting`, `Describes.popAll` -- the stack;
  * `Subject.HasSlot`, `Subject.Calls` -- what a field access and a call are bound to, told without
    the binding;
  * `ClassFile.hasSlot_of_bindField`, `ClassFile.calls_of_bindMethod` -- they are bound to that;
  * `ClassFile.field_of_bindField` -- the slot of a field access holds the type that was checked;
  * `ClassFile.special_of_bindMethod`, `ClassFile.accessor_of_bindMethod` -- a call reaches the
    constructor of the root class or an accessor of records, with the types that were checked.
-/
import Collation.Proofs.Descriptor
import Collation.Proofs.Typing.Conformance

namespace Collation

/-! ## 1. Chains of checks -/

theorem except_bind_eq_ok {ε α β : Type} {x : Except ε α} {k : α → Except ε β} {b : β} :
    (x >>= k) = .ok b ↔ ∃ a, x = .ok a ∧ k a = .ok b := by
  cases x with
  | error e => simp [bind, Except.bind]
  | ok a => simp [bind, Except.bind]

theorem except_map_eq_ok {ε α β : Type} {x : Except ε α} {k : α → β} {b : β} :
    x.map k = .ok b ↔ ∃ a, x = .ok a ∧ k a = b := by
  cases x <;> simp [Except.map]

theorem except_map_eq_error {ε α β : Type} {x : Except ε α} {k : α → β} {e : ε} :
    x.map k = .error e ↔ x = .error e := by
  cases x <;> simp [Except.map]

theorem codeDefect_eq_ok {α : Type} {x : Except CodeDefect α} {a : α} :
    Subject.codeDefect x = .ok a ↔ x = .ok a := by
  cases x <;> simp [Subject.codeDefect]

/-! ## 2. The stack -/

namespace Discipline

variable {ρ : Type} {file : ClassFile} {D : Discipline ρ file} {f g : Frame} {s : State ρ}

theorem Describes.push (hs : D.Describes f s) {t : SlotType} {room : UInt16} {v : Value ρ}
    (h : f.push t room = .ok g) (hv : D.Holds t v) :
    D.Describes g { s with stack := v :: s.stack } := by
  unfold Frame.push at h
  split at h
  · cases h
  · cases h
    exact ⟨.cons hv hs.stack, hs.locals⟩

theorem Describes.pop (hs : D.Describes f s) {t : SlotType} (h : f.pop = .ok (t, g)) :
    ∃ v rest, s.stack = v :: rest ∧ D.Holds t v ∧ D.Describes g { s with stack := rest } := by
  have hst := hs.stack
  unfold Frame.pop at h
  split at h
  · rename_i t' ts hf
    cases h
    rw [hf] at hst
    cases hv : s.stack with
    | nil =>
      rw [hv] at hst
      cases hst
    | cons v rest =>
      rw [hv] at hst
      cases hst with
      | cons h1 h2 => exact ⟨v, rest, rfl, h1, h2, hs.locals⟩
  · cases h

theorem Describes.popNarrow (hs : D.Describes f s) {t : SlotType} (h : f.popNarrow = .ok (t, g)) :
    ∃ v rest, s.stack = v :: rest ∧ D.Holds t v ∧ D.Describes g { s with stack := rest } := by
  unfold Frame.popNarrow at h
  split at h
  · rename_i t' g' hp
    split at h
    · cases h
      exact hs.pop hp
    · cases h
  · cases h

/-- **A checked value is on the stack, and of the expected type.** -/
theorem Describes.popExpecting (hs : D.Describes f s) {t : SlotType}
    (h : file.popExpecting f t = .ok g) :
    ∃ v rest, s.stack = v :: rest ∧ D.Holds t v ∧ D.Describes g { s with stack := rest } := by
  unfold ClassFile.popExpecting at h
  split at h
  · rename_i a g' hp
    split at h
    · rename_i ha
      cases h
      obtain ⟨v, rest, he, hv, hg⟩ := hs.pop hp
      exact ⟨v, rest, he, holds_of_assignable ha hv, hg⟩
    · cases h
  · cases h

/-- Several checked values are on the stack, the first of the list on top. -/
theorem Describes.popAll {ts : List SlotType} (hs : D.Describes f s)
    (h : file.popAll f ts = .ok g) :
    ∃ vs rest, s.stack = vs ++ rest ∧ List.Forall₂ D.Holds ts vs ∧
      D.Describes g { s with stack := rest } := by
  induction ts generalizing f s with
  | nil =>
    unfold ClassFile.popAll at h
    cases h
    exact ⟨[], s.stack, rfl, .nil, hs⟩
  | cons t ts ih =>
    unfold ClassFile.popAll at h
    split at h
    · rename_i f' hp
      obtain ⟨v, rest, he, hv, hf'⟩ := hs.popExpecting hp
      obtain ⟨vs, rest', he', hvs, hg⟩ := ih hf' h
      refine ⟨v :: vs, rest', ?_, .cons hv hvs, hg⟩
      rw [he]
      exact congrArg (v :: ·) he'
    · cases h

/-- Two integers, long integers or other values on top, as one list of types says. -/
theorem Describes.popTwo {t u : SlotType} (hs : D.Describes f s)
    (h : file.popAll f [t, u] = .ok g) :
    ∃ v w rest, s.stack = v :: w :: rest ∧ D.Holds t v ∧ D.Holds u w ∧
      D.Describes g { s with stack := rest } := by
  obtain ⟨vs, rest, he, hvs, hg⟩ := hs.popAll h
  cases hvs with
  | cons h1 h2 =>
    cases h2 with
    | cons h2 h3 =>
      cases h3
      exact ⟨_, _, rest, he, h1, h2, hg⟩

end Discipline

/-! ## 3. Members -/

theorem parse_initDescriptor : MethodType.parse initDescriptor = .ok ⟨[], none⟩ := by
  decide +kernel

namespace ColumnKind

/-- The base type of the columns of a kind. -/
def base : ColumnKind → BaseType
  | .int => .int
  | .long => .long
  | .double => .double

/-- The type of the method that reads a column of a kind. -/
def accessorType (kind : ColumnKind) : MethodType := ⟨[.base .int], some (.base kind.base)⟩

theorem parse_accessorDescriptor (kind : ColumnKind) :
    MethodType.parse kind.accessorDescriptor = .ok kind.accessorType := by
  cases kind <;> decide +kernel

end ColumnKind

/-- The field belongs to instances, and has this name and this type. -/
def FieldDecl.Answers (name : String) (type : FieldType) (f : FieldDecl) : Prop :=
  f.name = name ∧ f.type = type ∧ f.flags.isStatic = false

/-- The member is the method that the callee stands for. -/
def Callee.StandsFor (kind : MemberKind) (m : MemberRef) : Callee → Prop
  | .objectInit => kind = .method ∧ m.owner = objectClass ∧ m.name = initName ∧
      m.descriptor = initDescriptor
  | .accessor k => kind = .interfaceMethod ∧ m.owner = recordClass ∧ m.name = k.accessorName ∧
      m.descriptor = k.accessorDescriptor

/-- The member of the class itself that the instruction at `pc` accesses is the field in the slot:
    the first one that has its name and the type with which the access was checked. -/
def Subject.HasSlot (s : Subject) (pc : Nat) (index : UInt16) (slot : Nat) : Prop :=
  ∃ m t, s.file.pool.member index .field (s.operandPosition pc) = .ok m ∧
    s.fieldAt index pc = .ok (s.file.thisClass, t) ∧
    (∃ f, s.file.fields[slot]? = some f ∧ f.Answers m.name t) ∧
    ∀ i f, i < slot → s.file.fields[i]? = some f → ¬ f.Answers m.name t

/-- The callee stands for the member that the instruction at `pc` calls. -/
def Subject.Calls (s : Subject) (pc : Nat) (kind : MemberKind) (index : UInt16) (c : Callee) : Prop :=
  ∃ m, s.file.pool.member index kind (s.operandPosition pc) = .ok m ∧ c.StandsFor kind m

namespace ClassFile

variable {s : Subject} {pc : Nat}

theorem fieldAt_eq_ok {index : UInt16} {owner : String} {t : FieldType}
    (h : s.fieldAt index pc = .ok (owner, t)) :
    ∃ m, s.file.pool.member index .field (s.operandPosition pc) = .ok m ∧ m.owner = owner ∧
      FieldType.parse m.descriptor = .ok t := by
  unfold Subject.fieldAt at h
  split at h
  · cases h
  · rename_i m hm
    split at h
    · rename_i t' ht
      cases h
      exact ⟨m, hm, rfl, ht⟩
    · cases h

theorem methodAt_eq_ok {index : UInt16} {kind : MemberKind} {owner : String}
    {t : MethodType} (h : s.methodAt index kind pc = .ok (owner, t)) :
    ∃ m, s.file.pool.member index kind (s.operandPosition pc) = .ok m ∧ m.owner = owner ∧
      MethodType.parse m.descriptor = .ok t := by
  unfold Subject.methodAt at h
  split at h
  · cases h
  · rename_i m hm
    split at h
    · rename_i t' ht
      cases h
      exact ⟨m, hm, rfl, ht⟩
    · cases h

/-- A field answers exactly if it is found by the text of its type, for the text is that from which the
    type was read. -/
theorem answers_iff (htypes : ∀ d ∈ s.file.fields, ∃ text, FieldType.parse text = .ok d.type)
    {m : MemberRef} {t : FieldType} (ht : FieldType.parse m.descriptor = .ok t) {f : FieldDecl}
    (hf : f ∈ s.file.fields) :
    (f.name == m.name && f.type.render == m.descriptor && !f.flags.isStatic) = true ↔
      f.Answers m.name t := by
  have htype : f.type.render = m.descriptor ↔ f.type = t := by
    constructor
    · intro hrender
      obtain ⟨text, htext⟩ := htypes f hf
      have hread := FieldType.parse_of_render_eq htext hrender
      rw [ht] at hread
      cases hread
      rfl
    · rintro rfl
      exact FieldType.render_of_parse ht
  simp [FieldDecl.Answers, htype, and_assoc]

/-- **A checked field access is bound to the field that answers first.** -/
theorem hasSlot_of_bindField
    (htypes : ∀ d ∈ s.file.fields, ∃ text, FieldType.parse text = .ok d.type) {index : UInt16}
    {owner : String} {t : FieldType} {slot : Nat} (hc : s.fieldAt index pc = .ok (owner, t))
    (hb : s.file.bindField index (s.operandPosition pc) = .ok slot) : s.HasSlot pc index slot := by
  obtain ⟨m, hm, rfl, ht⟩ := fieldAt_eq_ok hc
  unfold bindField at hb
  rw [hm] at hb
  dsimp only at hb
  split at hb
  · rename_i slot' hslot
    cases hb
    split at hslot
    · rename_i howner
      obtain ⟨hlt, hfound, hfirst⟩ := List.findIdx?_eq_some_iff_getElem.mp hslot
      refine ⟨m, t, hm, howner ▸ hc, ⟨_, List.getElem?_eq_getElem hlt, ?_⟩, fun i f hi hf => ?_⟩
      · exact (answers_iff htypes ht (List.getElem_mem hlt)).mp hfound
      · obtain ⟨hlt', rfl⟩ := List.getElem?_eq_some_iff.mp hf
        exact fun ha => hfirst i hi ((answers_iff htypes ht (List.getElem_mem hlt')).mpr ha)
    · cases hslot
  · cases hb

/-- **The slot of a checked field access belongs to a field of the class itself that has the
    type that was checked.** -/
theorem field_of_bindField (htypes : ∀ d ∈ s.file.fields, ∃ text, FieldType.parse text = .ok d.type)
    {index : UInt16} {pc slot : Nat} {owner : String} {t : FieldType}
    (hc : s.fieldAt index pc = .ok (owner, t))
    (hb : s.file.bindField index (s.operandPosition pc) = .ok slot) :
    owner = s.file.thisClass ∧ ∃ d, s.file.fields[slot]? = some d ∧ d.type = t := by
  obtain ⟨m, t', -, hc', ⟨d, hd, -, htype, -⟩, -⟩ := hasSlot_of_bindField htypes hc hb
  rw [hc] at hc'
  cases hc'
  exact ⟨rfl, d, hd, htype⟩

/-- The accessor is found by its name and its descriptor. -/
theorem ofAccessor?_eq_some_iff {name descriptor : String} {k : ColumnKind} :
    ColumnKind.ofAccessor? name descriptor = some k ↔
      name = k.accessorName ∧ descriptor = k.accessorDescriptor := by
  constructor
  · intro h
    have hnames := List.find?_some h
    simp only [Bool.and_eq_true, beq_iff_eq] at hnames
    exact ⟨hnames.1.symm, hnames.2.symm⟩
  · rintro ⟨rfl, rfl⟩
    cases k <;> decide

/-- **What a member is bound to stands for it**, and whatever stands for it would be found. -/
theorem callee?_eq_some_iff {kind : MemberKind} {m : MemberRef} {c : Callee} :
    callee? kind m = some c ↔ c.StandsFor kind m := by
  cases kind with
  | field =>
    cases c <;> simp [callee?, Callee.StandsFor]
  | method =>
    cases c <;> simp [callee?, Callee.StandsFor]
  | interfaceMethod =>
    cases c <;> simp [callee?, Callee.StandsFor, ofAccessor?_eq_some_iff]

/-- **A checked call is bound to what stands for the method.** -/
theorem calls_of_bindMethod {kind : MemberKind} {index : UInt16} {c : Callee}
    (hb : s.file.bindMethod kind index (s.operandPosition pc) = .ok c) : s.Calls pc kind index c := by
  unfold bindMethod at hb
  split at hb
  · cases hb
  · rename_i m hm
    split at hb
    · rename_i c' hcallee
      cases hb
      exact ⟨m, hm, callee?_eq_some_iff.mp hcallee⟩
    · cases hb

/-- **A call of a plain method is one of the constructor of the root class.** -/
theorem special_of_bindMethod {index : UInt16} {pc : Nat} {owner : String} {t : MethodType}
    {callee : Callee} (hc : s.methodAt index .method pc = .ok (owner, t))
    (hb : s.file.bindMethod .method index (s.operandPosition pc) = .ok callee) :
    callee = .objectInit ∧ owner = objectClass ∧ t = ⟨[], none⟩ := by
  obtain ⟨m, hm, rfl, ht⟩ := methodAt_eq_ok hc
  obtain ⟨m', hm', hstands⟩ := calls_of_bindMethod hb
  rw [hm] at hm'
  cases hm'
  cases callee with
  | objectInit =>
    obtain ⟨-, howner, -, hdescriptor⟩ := hstands
    rw [hdescriptor, parse_initDescriptor] at ht
    cases ht
    exact ⟨rfl, howner, rfl⟩
  | accessor kind => exact absurd hstands.1 (by decide)

/-- **A call through an interface is one of an accessor of records.** -/
theorem accessor_of_bindMethod {index : UInt16} {pc : Nat} {owner : String} {t : MethodType}
    {callee : Callee} (hc : s.methodAt index .interfaceMethod pc = .ok (owner, t))
    (hb : s.file.bindMethod .interfaceMethod index (s.operandPosition pc) = .ok callee) :
    ∃ kind, callee = .accessor kind ∧ owner = recordClass ∧ t = kind.accessorType := by
  obtain ⟨m, hm, rfl, ht⟩ := methodAt_eq_ok hc
  obtain ⟨m', hm', hstands⟩ := calls_of_bindMethod hb
  rw [hm] at hm'
  cases hm'
  cases callee with
  | objectInit => exact absurd hstands.1 (by decide)
  | accessor kind =>
    obtain ⟨-, howner, -, hdescriptor⟩ := hstands
    rw [hdescriptor, kind.parse_accessorDescriptor] at ht
    cases ht
    exact ⟨kind, rfl, howner, rfl⟩

end ClassFile

end Collation
