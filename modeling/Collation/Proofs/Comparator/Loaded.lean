/-
  File:      Collation/Proofs/Comparator/Loaded.lean
  Subject:   Generated classes are accepted.

  The class of a layout is read back, each of its methods passes the check, and everything in it
  is bound.

  * `Generator.resolves_classText` -- the indices of the class lead where they should;
  * `Generator.linkedClass` -- the class as it runs;
  * `Generator.load_classText` -- reading, checking and binding the class gives it;
  * **`Generator.generated_accepted`** -- what is generated can be loaded, and its instances begin
    without a left record.
-/
import Collation.Machine.Instance
import Collation.Proofs.Comparator.Checked

namespace Collation.Generator

/-! ## 1. The indices of the class -/

/-- What the indices of the class lead to. -/
def classNames (className : String) : ClassNames where
  this := className
  super := objectClass
  interfaces := [comparatorClass]
  fields := [("left", recordDescriptor, .object recordClass)]
  methods := [(initName, initDescriptor, ⟨[], none⟩),
    (setLeftName, setLeftDescriptor, ⟨[.object recordClass], none⟩),
    (compareName, compareDescriptor, ⟨[.object recordClass], some (.base .int)⟩)]

section Pool

variable {p : Pool}

/-- The constants of one accessor: its member is this accessor, and all of them are closed. -/
theorem accessor_resolves {cs ds : List Constant} {kind : ColumnKind}
    (hrecord : p.IsClass 13 recordClass)
    (hp : p.entries.toList = cs ++ (accessorConstants (cs.length + 1) kind ++ ds))
    (hroom : cs.length + 4 < 65536) :
    p.IsMember (UInt16.ofNat (cs.length + 1 + 3)) (accessorRef kind) ∧
      ∀ c ∈ accessorConstants (cs.length + 1) kind, p.Closed c := by
  have hname : p.get? (UInt16.ofNat (cs.length + 1)) = some (.text kind.accessorName) :=
    Pool.get?_of_getElem? (by simp [hp, accessorConstants]) (by omega)
  have hdescriptor : p.get? (UInt16.ofNat (cs.length + 1 + 1)) =
      some (.text kind.accessorDescriptor) :=
    Pool.get?_of_getElem? (by simp [hp, accessorConstants]) (by omega)
  have hpair : p.IsPair (UInt16.ofNat (cs.length + 1 + 2)) kind.accessorName
      kind.accessorDescriptor :=
    ⟨_, _, Pool.get?_of_getElem? (by simp [hp, accessorConstants]) (by omega), hname, hdescriptor⟩
  have hmember : p.get? (UInt16.ofNat (cs.length + 1 + 3)) =
      some (.member .interfaceMethod 13 (UInt16.ofNat (cs.length + 1 + 2))) :=
    Pool.get?_of_getElem? (by simp [hp, accessorConstants]) (by omega)
  refine ⟨⟨_, _, hmember, hrecord, hpair⟩, ?_⟩
  simp only [accessorConstants, List.forall_mem_cons]
  exact ⟨trivial, trivial, ⟨⟨_, hname⟩, _, hdescriptor⟩, ⟨⟨_, hrecord⟩, _, _, hpair⟩,
    fun _ h => absurd h List.not_mem_nil⟩

/-- The indices of accessors lead to them, and their constants are closed. -/
theorem accessors_resolve (hrecord : p.IsClass 13 recordClass) (kinds : List ColumnKind)
    (cs : List Constant) (hp : p.entries.toList = cs ++ accessorsFrom (cs.length + 1) kinds)
    (hroom : cs.length + 4 * kinds.length < 65536) :
    (∀ kind index, (indexedFrom (cs.length + 1) kinds).lookup kind = some index →
      p.IsMember index (accessorRef kind)) ∧
      ∀ c ∈ accessorsFrom (cs.length + 1) kinds, p.Closed c := by
  induction kinds generalizing cs with
  | nil =>
    exact ⟨fun _ _ h => absurd h (Option.some_ne_none _).symm,
      fun _ h => absurd h List.not_mem_nil⟩
  | cons first kinds ih =>
    rw [List.length_cons] at hroom
    obtain ⟨hfirst, hclosed⟩ := accessor_resolves hrecord hp (by omega)
    have hlength : (cs ++ accessorConstants (cs.length + 1) first).length = cs.length + 4 := by
      simp [accessorConstants]
    have hrest := ih (cs ++ accessorConstants (cs.length + 1) first)
    rw [hlength, Nat.add_right_comm] at hrest
    obtain ⟨hindices, hothers⟩ := hrest (by rw [hp, accessorsFrom, List.append_assoc]) (by omega)
    refine ⟨fun kind index hindex => ?_, ?_⟩
    · rw [indexedFrom, List.lookup_cons] at hindex
      cases heq : kind == first with
      | true =>
        rw [heq] at hindex
        cases hindex
        rw [eq_of_beq heq]
        exact hfirst
      | false =>
        rw [heq] at hindex
        exact hindices kind index hindex
    · intro c hc
      exact (List.mem_append.mp hc).elim (hclosed c) (hothers c)

theorem writable_accessorsFrom (start : Nat) (kinds : List ColumnKind) :
    ∀ c ∈ accessorsFrom start kinds, c.Writable := by
  induction kinds generalizing start with
  | nil => exact fun _ h => absurd h List.not_mem_nil
  | cons kind kinds ih =>
    obtain ⟨hname, hdescriptor⟩ := writable_accessorName kind
    intro c hc
    rcases List.mem_append.mp hc with hc | hc
    · simp only [accessorConstants, List.mem_cons, List.not_mem_nil, or_false] at hc
      rcases hc with rfl | rfl | rfl | rfl
      · exact hname
      · exact hdescriptor
      · exact Constant.writable_nameAndType _ _
      · exact Constant.writable_member _ _ _
    · exact ih _ c hc

end Pool

section Resolves

variable {className : String} {layout : Layout}

theorem isClass_record : (classText className layout).pool.IsClass 13 recordClass := ⟨12, rfl, rfl⟩

theorem isMember_left : (classText className layout).pool.IsMember 17
    ⟨.field, className, "left", recordDescriptor⟩ :=
  ⟨9, 16, rfl, ⟨8, rfl, rfl⟩, 14, 15, rfl, rfl, rfl⟩

theorem isMember_objectInit : (classText className layout).pool.IsMember 6
    ⟨.method, objectClass, initName, initDescriptor⟩ :=
  ⟨2, 5, rfl, ⟨1, rfl, rfl⟩, 3, 4, rfl, rfl, rfl⟩

theorem closed_baseConstants : ∀ c ∈ baseConstants className,
    (classText className layout).pool.Closed c := by
  simp only [baseConstants, List.forall_mem_cons]
  exact ⟨trivial, ⟨_, rfl⟩, trivial, trivial, ⟨⟨_, rfl⟩, _, rfl⟩,
    ⟨⟨_, 1, rfl, rfl⟩, _, _, 3, 4, rfl, rfl, rfl⟩, trivial, trivial, ⟨_, rfl⟩, trivial, ⟨_, rfl⟩,
    trivial, ⟨_, rfl⟩, trivial, trivial, ⟨⟨_, rfl⟩, _, rfl⟩,
    ⟨⟨_, 8, rfl, rfl⟩, _, _, 14, 15, rfl, rfl, rfl⟩, trivial, trivial, trivial, trivial, trivial,
    fun _ h => absurd h List.not_mem_nil⟩

theorem writable_baseConstants (hname : NameFits className) :
    ∀ c ∈ baseConstants className, c.Writable := by
  simp only [baseConstants, List.forall_mem_cons]
  refine ⟨?_, ?_, ?_, ?_, ?_, ?_, ?_, writable_text hname, ?_, ?_, ?_, ?_, ?_, ?_, ?_, ?_, ?_, ?_,
    ?_, ?_, ?_, ?_, fun _ h => absurd h List.not_mem_nil⟩ <;> decide

theorem pool_accessors (layout : Layout) :
    (∀ kind ∈ layout.kinds,
      (classText className layout).pool.IsMember ((indices layout).method kind)
        (accessorRef kind)) ∧
      ∀ c ∈ accessorsFrom 23 layout.kinds, (classText className layout).pool.Closed c := by
  have hkinds := length_kinds_le layout
  obtain ⟨hindices, hclosed⟩ := accessors_resolve (p := (classText className layout).pool)
    isClass_record layout.kinds (baseConstants className) rfl (by simp [baseConstants]; omega)
  exact ⟨fun kind hkind => hindices kind _ (Indices.accessor?_eq (isSome_accessor? hkind)), hclosed⟩

theorem resolves_method {m : MethodText} {name descriptor : String} {type : MethodType}
    (hname : (classText className layout).pool.get? m.name = some (.text name))
    (hdescriptor : (classText className layout).pool.get? m.descriptor = some (.text descriptor))
    (htype : MethodType.parse descriptor = .ok type)
    (hframe : ∀ f, m.frame = some f → f.name = 22) (hne : m.code.length ≠ 0)
    (hlt : m.code.length < 65536) :
    m.Resolves (classText className layout).pool 7 name descriptor type where
  name_eq := hname
  descriptor_eq := hdescriptor
  type_eq := htype
  attribute_eq := rfl
  frame_eq f hf := by
    rw [hframe f hf]
    rfl
  code_ne := hne
  code_lt := hlt

theorem length_compareText {pool : Indices} {keys : List SortKey} (h : Reaches pool keys) :
    (CodeText.bytes (compareText pool keys)).length ≠ 0 ∧
      (CodeText.bytes (compareText pool keys)).length < 65536 := by
  cases hne : keys.isEmpty with
  | true =>
    obtain rfl : keys = [] := List.isEmpty_iff.mp hne
    have htwo : (CodeText.bytes (compareText pool [])).length = 2 := rfl
    omega
  | false =>
    have hlength := length_keysBytes_lt h
    have hi : (Encode.iload resultLocal).length = 1 := rfl
    rw [bytes_compareText hne]
    simp only [List.length_append, List.length_cons, List.length_nil, hi]
    omega

/-- **The indices of the class lead where they should.** -/
theorem resolves_classText (hname : NameFits className)
    (hreach : Reaches (indices layout) layout.keys) :
    (classText className layout).Resolves (classNames className) where
  version := rfl
  size := by
    have hkinds := length_kinds_le layout
    show (baseConstants className ++ accessorsFrom 23 layout.kinds).length < 65535
    rw [List.length_append, length_accessorsFrom]
    have hbase : (baseConstants className).length = 22 := rfl
    omega
  writable c hc := (List.mem_append.mp hc).elim (writable_baseConstants hname c)
    (writable_accessorsFrom _ _ c)
  closed c hc := (List.mem_append.mp hc).elim (closed_baseConstants c)
    ((pool_accessors layout).2 c)
  this := ⟨8, rfl, rfl⟩
  super := ⟨1, rfl, rfl⟩
  interfaces := .cons ⟨10, rfl, rfl⟩ .nil
  interfaceCount := by simp [classText]
  fields := .cons ⟨rfl, rfl, by decide⟩ .nil
  fieldCount := by simp [classText]
  methods := by
    obtain ⟨hne, hlt⟩ := length_compareText hreach
    refine .cons ?_ (.cons ?_ (.cons ?_ .nil))
    · exact resolves_method rfl rfl parse_initDescriptor (fun f hf => by cases hf) (by decide)
        (by decide)
    · exact resolves_method rfl rfl (by decide +kernel) (fun f hf => by cases hf) (by decide)
        (by decide)
    · refine resolves_method rfl rfl (by decide +kernel) (fun f hf => ?_) hne hlt
      obtain ⟨stop, _, rfl⟩ := Option.map_eq_some_iff.mp hf
      rfl
  methodCount := by simp [classText]

end Resolves

/-! ## 2. The class is linked -/

/-- A linked method of instances whose code was read from a text. -/
def linkedMethod (name descriptor : String) (type : MethodType) (maxStack maxLocals : UInt16)
    (t : CodeText) (bound : List Bound) : LinkedMethod :=
  ⟨name, descriptor, type, false,
    some ⟨maxStack, maxLocals, (CodeText.boundAt 0 t bound).toArray⟩⟩

def linkedInit : LinkedMethod :=
  linkedMethod initName initDescriptor ⟨[], none⟩ 1 1 initText
    [.aload 0, .invokespecial .objectInit, .vreturn]

def linkedSetLeft : LinkedMethod :=
  linkedMethod setLeftName setLeftDescriptor ⟨[.object recordClass], none⟩ 2 2 setLeftText
    [.aload 0, .aload 1, .putfield 0, .vreturn]

def linkedCompare (layout : Layout) : LinkedMethod :=
  linkedMethod compareName compareDescriptor ⟨[.object recordClass], some (.base .int)⟩ 4 3
    (compareText (indices layout) layout.keys) (compareBound layout.keys)

/-- The class for a layout, ready to run. -/
def linkedClass (className : String) (layout : Layout) : LinkedClass where
  name := className
  superName := objectClass
  interfaces := [comparatorClass]
  version := .written
  fields := [⟨"left", .object recordClass⟩]
  methods := [linkedInit, linkedSetLeft, linkedCompare layout]

/-- The class for a layout, as it is read. -/
def classFile (className : String) (layout : Layout) : ClassFile :=
  (classText className layout).described (classNames className)

section Linking

variable {className : String} {layout : Layout}

/-- A method as it is read, if it stands at `offset`. -/
def declAt (offset : Nat) (m : MethodText) (name descriptor : String) (type : MethodType) :
    MethodDecl :=
  ⟨.ofWord m.flags.bits, name, type, descriptor, some (m.codeBody offset)⟩

/-- A method of the class under check. -/
def subjectAt (file : ClassFile) (offset : Nat) (m : MethodText) (name descriptor : String)
    (type : MethodType) : Subject :=
  ⟨file, declAt offset m name descriptor type, m.codeBody offset⟩

/-- The constructor under check. -/
def initSubject (className : String) (layout : Layout) (offset : Nat) : Subject :=
  subjectAt (classFile className layout) offset initMethod initName initDescriptor ⟨[], none⟩

/-- The method that sets the left record, under check. -/
def setLeftSubject (className : String) (layout : Layout) (offset : Nat) : Subject :=
  subjectAt (classFile className layout) offset setLeftMethod setLeftName setLeftDescriptor
    ⟨[.object recordClass], none⟩

/-- The comparing method under check. -/
def compareSubject (className : String) (layout : Layout) (offset : Nat) : Subject :=
  subjectAt (classFile className layout) offset (compareMethod (indices layout) layout.keys)
    compareName compareDescriptor ⟨[.object recordClass], some (.base .int)⟩

/-- The three methods, wherever they stand. -/
theorem methods_classFile (className : String) (layout : Layout) : ∃ o p q,
    (classFile className layout).methods =
      [(initSubject className layout o).method, (setLeftSubject className layout p).method,
        (compareSubject className layout q).method] :=
  ⟨_, _, _, rfl⟩

theorem provides_classFile :
    Provides (classFile className layout) (indices layout) layout.kinds where
  left := isMember_left
  accessor := (pool_accessors layout).1
  slot := by
    have hfields : (classFile className layout).fields =
        [⟨.ofWord FieldFlags.private.bits, "left", .object recordClass⟩] := rfl
    rw [hfields]
    decide

theorem isStatic_public : (MethodFlags.ofWord MethodFlags.public.bits).isStatic = false := by decide

theorem checkShape_classFile : (classFile className layout).checkShape = .ok () := by
  obtain ⟨o, p, q, hmethods⟩ := methods_classFile className layout
  have hmethod : ∀ name descriptor, (name, descriptor) ∈ (initName, initDescriptor) ::
      ClassFile.capability →
      (classFile className layout).hasInstanceMethod name descriptor = true := by
    intro name descriptor hmem
    unfold ClassFile.hasInstanceMethod
    rw [hmethods]
    simp only [ClassFile.capability, List.mem_cons, Prod.mk.injEq, List.not_mem_nil, or_false] at hmem
    rcases hmem with ⟨rfl, rfl⟩ | ⟨rfl, rfl⟩ | ⟨rfl, rfl⟩ <;>
      simp [initSubject, setLeftSubject, compareSubject, subjectAt, declAt, initMethod, setLeftMethod,
        compareMethod, isStatic_public]
  have hcapability : ClassFile.capability.find? (fun p =>
      !(classFile className layout).hasInstanceMethod p.1 p.2) = none := by
    rw [List.find?_eq_none]
    rintro ⟨name, descriptor⟩ hmem
    simp [hmethod name descriptor (List.mem_cons_of_mem _ hmem)]
  have hsuper : (classFile className layout).superClass = objectClass := rfl
  have hinterfaces : (classFile className layout).interfaces.contains comparatorClass = true := by
    show [comparatorClass].contains comparatorClass = true
    decide
  unfold ClassFile.checkShape
  rw [hsuper, if_neg (not_not.mpr rfl), hmethod _ _ List.mem_cons_self, if_neg (by decide),
    if_pos hinterfaces, hcapability]

theorem isStatic_declAt {offset : Nat} {m : MethodText} {name descriptor : String}
    {type : MethodType} (hflags : m.flags = .public) :
    (declAt offset m name descriptor type).flags.isStatic = false := by
  show (MethodFlags.ofWord m.flags.bits).isStatic = false
  rw [hflags]
  exact isStatic_public

theorem entryTypes_declAt {file : ClassFile} {offset : Nat} {m : MethodText}
    {name descriptor : String} {type : MethodType} (hflags : m.flags = .public) :
    file.entryTypes (declAt offset m name descriptor type) =
      .object file.thisClass :: type.parameters.map SlotType.ofField := by
  unfold ClassFile.entryTypes
  rw [isStatic_declAt hflags]
  rfl

theorem link_declAt {file : ClassFile} {offset : Nat} {m : MethodText} {name descriptor : String}
    {type : MethodType} {t : CodeText} {bound : List Bound} (hflags : m.flags = .public)
    (hbytes : m.code = CodeText.bytes t)
    (hcheck : (subjectAt file offset m name descriptor type).check = .ok (CodeText.listing 0 t))
    (hbinds : (subjectAt file offset m name descriptor type).Binds
      (Listing.indexTable (CodeText.bytes t).length (CodeText.listing 0 t)) t bound) :
    file.linkMethod (declAt offset m name descriptor type) =
      .ok (linkedMethod name descriptor type m.maxStack m.maxLocals t bound) := by
  have hlink := ClassFile.linkMethod_eq rfl hbytes hcheck hbinds
  rw [isStatic_declAt hflags] at hlink
  exact hlink

theorem check_initSubject (offset : Nat) :
    (initSubject className layout offset).check = .ok (CodeText.listing 0 initText) := by
  have hload : ∀ frames pc, (initSubject className layout offset).checkInstr frames
      ⟨#[.object className], []⟩ pc (.aload 0) =
      .ok ⟨#[.object className], [.object className]⟩ := fun _ _ =>
    Subject.checkInstr_aload rfl rfl (Nat.le_refl 1)
  have hcall : ∀ frames pc, (initSubject className layout offset).checkInstr frames
      ⟨#[.object className], [.object className]⟩ pc (.invokespecial ⟨6, none⟩) =
      .ok ⟨#[.object className], []⟩ := by
    intro frames pc
    have hreceiver : (initSubject className layout offset).file.assignable (.object className)
        (.object objectClass) = true := by
      simp [ClassFile.assignable]
    rw [Subject.checkInstr_invokespecial isMember_objectInit parse_initDescriptor]
    refine congrArg Subject.codeDefect (Subject.checkCall_eq hreceiver rfl fun r hr => ?_)
    cases hr
  have hentry : Frame.layOut (initMethod.codeBody offset)
      ((classFile className layout).entryTypes (initSubject className layout offset).method) [] =
      .ok ⟨#[.object className], []⟩ :=
    congrArg (Frame.layOut (initMethod.codeBody offset) · []) (entryTypes_declAt rfl)
  refine Subject.check_straight (t := [(Encode.aload 0, .aload 0),
    (Encode.invokespecial 6, .invokespecial ⟨6, none⟩)]) rfl rfl ?_ ?_ hentry
    (fun frames => .cons (hload frames) rfl (.cons (hcall frames) rfl Subject.leads_nil))
    (fun _ _ => rfl) rfl
  · exact ⟨Code.spells_aload 0, Code.spells_invokespecial 6, Code.spells_single fun _ => rfl, trivial⟩
  · simp [Instr.target?]

theorem link_init (offset : Nat) :
    (classFile className layout).linkMethod (initSubject className layout offset).method =
      .ok linkedInit := by
  have hbind : ∀ starts pc, ClassFile.bindInstr (initSubject className layout offset) starts pc
      (.invokespecial ⟨6, none⟩) = .ok (.invokespecial .objectInit) := by
    intro starts pc
    have hmember : (classFile className layout).pool.member 6 .method
        ((initSubject className layout offset).operandPosition pc) = .ok _ :=
      isMember_objectInit.member_eq _
    have hmethod : (classFile className layout).bindMethod .method 6
        ((initSubject className layout offset).operandPosition pc) = .ok .objectInit := by
      unfold ClassFile.bindMethod
      rw [hmember]
      rfl
    exact congrArg (Except.map Instr.invokespecial) hmethod
  exact link_declAt rfl rfl (check_initSubject offset)
    (.cons (fun _ => rfl) (.cons (hbind _) (.cons (fun _ => rfl) .nil)))

theorem check_setLeftSubject (offset : Nat) :
    (setLeftSubject className layout offset).check = .ok (CodeText.listing 0 setLeftText) := by
  have hthis : ∀ frames pc, (setLeftSubject className layout offset).checkInstr frames
      ⟨#[.object className, .object recordClass], []⟩ pc (.aload 0) =
      .ok ⟨#[.object className, .object recordClass], [.object className]⟩ := fun _ _ =>
    Subject.checkInstr_aload rfl rfl (Nat.le_succ 1)
  have hrecord : ∀ frames pc, (setLeftSubject className layout offset).checkInstr frames
      ⟨#[.object className, .object recordClass], [.object className]⟩ pc (.aload 1) =
      .ok ⟨#[.object className, .object recordClass], [.object recordClass, .object className]⟩ :=
    fun _ _ => Subject.checkInstr_aload rfl rfl (Nat.le_refl 2)
  have hput : ∀ frames pc, (setLeftSubject className layout offset).checkInstr frames
      ⟨#[.object className, .object recordClass], [.object recordClass, .object className]⟩ pc
      (.putfield 17) = .ok ⟨#[.object className, .object recordClass], []⟩ := fun _ _ =>
    Subject.checkInstr_putfield isMember_left parse_recordDescriptor
  have hentry : Frame.layOut (setLeftMethod.codeBody offset)
      ((classFile className layout).entryTypes (setLeftSubject className layout offset).method) [] =
      .ok ⟨#[.object className, .object recordClass], []⟩ :=
    congrArg (Frame.layOut (setLeftMethod.codeBody offset) · []) (entryTypes_declAt rfl)
  refine Subject.check_straight (t := [(Encode.aload 0, .aload 0), (Encode.aload 1, .aload 1),
    (Encode.putfield 17, .putfield 17)]) rfl rfl ?_ ?_ hentry
    (fun frames => .cons (hthis frames) rfl (.cons (hrecord frames) rfl
      (.cons (hput frames) rfl Subject.leads_nil))) (fun _ _ => rfl) rfl
  · exact ⟨Code.spells_aload 0, Code.spells_aload 1, Code.spells_putfield 17,
      Code.spells_single fun _ => rfl, trivial⟩
  · simp [Instr.target?]

theorem link_setLeft (offset : Nat) :
    (classFile className layout).linkMethod (setLeftSubject className layout offset).method =
      .ok linkedSetLeft := by
  have hbind : ∀ starts pc, ClassFile.bindInstr (setLeftSubject className layout offset) starts pc
      (.putfield 17) = .ok (.putfield 0) := by
    intro starts pc
    have hprovides : Provides (classFile className layout) (indices layout) layout.kinds :=
      provides_classFile
    exact congrArg (Except.map Instr.putfield) (bindField_left hprovides _)
  exact link_declAt rfl rfl (check_setLeftSubject offset) (.cons (fun _ => rfl)
    (.cons (fun _ => rfl) (.cons (hbind _) (.cons (fun _ => rfl) .nil))))

theorem isCompare_compareSubject (offset : Nat) :
    IsCompare (compareSubject className layout offset) (indices layout) layout.keys :=
  ⟨rfl, isStatic_declAt rfl, offset, rfl⟩

section Fitting

variable (hcolumns : ∀ key ∈ layout.keys, key.column.toNat ≤ maxColumn)
  (hreach : Reaches (indices layout) layout.keys)

include hcolumns hreach

theorem check_compareSubject (offset : Nat) :
    (compareSubject className layout offset).check =
      .ok (CodeText.listing 0 (compareText (indices layout) layout.keys)) :=
  check_compare (isCompare_compareSubject offset) provides_classFile (fun _ => kind_mem_kinds)
    hcolumns hreach

theorem link_compare (offset : Nat) :
    (classFile className layout).linkMethod (compareSubject className layout offset).method =
      .ok (linkedCompare layout) :=
  link_declAt rfl rfl (check_compareSubject hcolumns hreach offset)
    (binds_compare provides_classFile (fun _ => kind_mem_kinds) hcolumns hreach)

/-- Each method of the class passes the check, against no frame or against a single one that adds
    an integer to the locals on entry. -/
theorem verify_classFile : ∀ m ∈ (classFile className layout).methods, ∃ code listing,
    m.code = some code ∧ (classFile className layout).verify m = .ok (some listing) ∧
      (code.stackMap = [] ∨ ∃ offset, code.stackMap = [.append offset [.int]]) := by
  obtain ⟨o, p, q, hmethods⟩ := methods_classFile className layout
  have hverify : ∀ {s : Subject} {listing : Listing}, s.method.code = some s.code →
      s.check = .ok listing → s.file.verify s.method = .ok (some listing) := by
    intro s listing hcode hcheck
    unfold ClassFile.verify
    rw [hcode]
    dsimp only
    rw [hcheck]
  rw [hmethods]
  intro m hm
  simp only [List.mem_cons, List.not_mem_nil, or_false] at hm
  rcases hm with rfl | rfl | rfl
  · exact ⟨_, _, rfl, hverify rfl (check_initSubject o), Or.inl rfl⟩
  · exact ⟨_, _, rfl, hverify rfl (check_setLeftSubject p), Or.inl rfl⟩
  · refine ⟨_, _, rfl, hverify rfl (check_compareSubject hcolumns hreach q), ?_⟩
    have hcompare : IsCompare (compareSubject className layout q) _ _ := isCompare_compareSubject q
    show (compareSubject className layout q).code.stackMap = [] ∨
      ∃ offset, (compareSubject className layout q).code.stackMap = [.append offset [.int]]
    rw [hcompare.stackMap_eq]
    cases place (indices layout) 0 none layout.keys with
    | none => exact Or.inl rfl
    | some stop => exact Or.inr ⟨_, rfl⟩

end Fitting

theorem link_classFile (hcolumns : ∀ key ∈ layout.keys, key.column.toNat ≤ maxColumn)
    (hreach : Reaches (indices layout) layout.keys) :
    (classFile className layout).link = .ok (linkedClass className layout) := by
  obtain ⟨o, p, q, hmethods⟩ := methods_classFile className layout
  have hlink : (classFile className layout).linkMethods #[] (classFile className layout).methods =
      .ok [linkedInit, linkedSetLeft, linkedCompare layout] := by
    rw [hmethods]
    simp only [ClassFile.linkMethods, link_init, link_setLeft, link_compare hcolumns hreach]
    simp
  unfold ClassFile.link
  rw [checkShape_classFile]
  dsimp only
  rw [hlink]
  rfl

/-- **The class of a layout is loaded.** -/
theorem load_classText (hcolumns : ∀ key ∈ layout.keys, key.column.toNat ≤ maxColumn)
    (hname : NameFits className) (hreach : Reaches (indices layout) layout.keys) :
    LinkedClass.load (classText className layout).bytes = .ok (linkedClass className layout) := by
  have hparse : ClassFile.parse (classText className layout).bytes =
      .ok (classFile className layout) := ClassText.parse_bytes (resolves_classText hname hreach)
  unfold LinkedClass.load
  rw [hparse]
  exact link_classFile hcolumns hreach

/-- A new instance has no left record. -/
theorem newInstance_linkedClass {ρ : Type} [Record ρ] :
    (linkedClass className layout).newInstance =
      (.ok ⟨linkedClass className layout, #[.ref .null]⟩ : Except CallFailure (Instance ρ)) := by
  rfl

end Linking

/-! ## 3. What is generated is accepted -/

/-- The bytes are those of a comparator class that is accepted: they are read as a class file, each
    of its methods passes the check against no frame or against a single one that adds an integer
    to the locals on entry, the class is linked, it is a comparator, and a new instance has nothing
    but a left record, which is not set. -/
structure Accepts (ρ : Type) [Record ρ] (bytes : List UInt8) (file : ClassFile) (cls : LinkedClass) :
    Prop where
  parsed : ClassFile.parse bytes = .ok file
  verified : ∀ m ∈ file.methods, ∃ code listing, m.code = some code ∧
    file.verify m = .ok (some listing) ∧
    (code.stackMap = [] ∨ ∃ offset, code.stackMap = [.append offset [.int]])
  linked : file.link = .ok cls
  loaded : LinkedClass.load bytes = .ok cls
  comparator : cls.implements comparatorClass = true
  fields : cls.fields.map LinkedField.name = ["left"]
  fresh : ∃ i : Instance ρ, cls.newInstance = .ok i ∧ i.cls = cls ∧ i.fields.size = 1 ∧
    i.field? "left" = some (.ref .null)

theorem accepts_classText {ρ : Type} [Record ρ] {className : String} {layout : Layout}
    (hcolumns : ∀ key ∈ layout.keys, key.column.toNat ≤ maxColumn)
    (hname : NameFits className) (hreach : Reaches (indices layout) layout.keys) :
    Accepts ρ (classText className layout).bytes (classFile className layout)
      (linkedClass className layout) where
  parsed := ClassText.parse_bytes (resolves_classText hname hreach)
  verified := verify_classFile hcolumns hreach
  linked := link_classFile hcolumns hreach
  loaded := load_classText hcolumns hname hreach
  comparator := by
    show [comparatorClass].contains comparatorClass = true
    decide
  fields := rfl
  fresh := ⟨_, newInstance_linkedClass, rfl, rfl, rfl⟩

/-- A layout with a key of each kind, in both directions, with columns in one and in two bytes. -/
def mixedLayout : Layout := ⟨[⟨.int, 0, false⟩, ⟨.double, 300, true⟩, ⟨.long, 7, false⟩]⟩

theorem generate_mixed : (Generator.new.generate mixedLayout).1 =
    .ok (classText Generator.new.nextName mixedLayout).bytes := by
  refine generate_ok ?_ ?_ (Or.inr ?_)
  · decide
  · show (ModifiedUtf8.encode Generator.new.nextName).length ≤ 65535
    decide
  · decide

/-- **What a generator generates is accepted**, whatever it generated before. -/
theorem generated_accepted {ρ : Type} [Record ρ] (g : Generator) (layout : Layout)
    {bytes : List UInt8} (h : (g.generate layout).1 = .ok bytes) :
    ∃ file cls, Accepts ρ bytes file cls := by
  obtain ⟨hcolumns, hname, hreach, rfl⟩ := bytes_of_generate h
  exact ⟨_, _, accepts_classText hcolumns hname hreach⟩

theorem generated_accepted_mixed :
    (Generator.new.generate mixedLayout).1 =
        .ok (classText Generator.new.nextName mixedLayout).bytes ∧
      ∃ file cls, Accepts Row (classText Generator.new.nextName mixedLayout).bytes file cls :=
  ⟨generate_mixed, generated_accepted .new mixedLayout generate_mixed⟩

end Collation.Generator
