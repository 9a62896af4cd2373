/-
  File:      Collation/Proofs/Assembler/RoundTrip.lean
  Subject:   A class that is written call by call is read back as it was meant.

  A `ClassSource` is a class as a caller has it in mind: the constants behind those that every class
  needs, and members that refer to constants by index.  Its requests write it from front to back;
  three kinds of length are filled in on the way: the number of constants, the length of each code,
  the length of each code attribute.  What was written is read as the class that was meant.

  * `ClassSource.poolRequests`, `ClassSource.memberRequests` -- the calls that write the class;
  * `ClassSource.Resolves` -- its indices lead to these names, and its tables fit the format;
  * `ClassSource.described` -- the class that is meant;
  * **`ClassSource.parse_assembled`** -- the calls succeed, and reading their bytes gives that class.
-/
import Collation.Proofs.Assembler.Emission
import Collation.Proofs.ClassFile.Attributes

namespace Collation

open Assembly Reader

/-! ## 1. Sequences of requests -/

namespace Assembly

/-- Carries out requests one after the other. -/
def performAll : List Request → Assembly (List Reply)
  | [] => pure []
  | request :: rest => do
    let reply ← perform request
    let replies ← performAll rest
    return reply :: replies

variable {s t u : Session} {request : Request} {requests : List Request} {reply : Reply}
  {replies : List Reply}

theorem runs_performAll_cons (h : Runs (perform request) s reply t)
    (hrest : Runs (performAll requests) t replies u) :
    Runs (performAll (request :: requests)) s (reply :: replies) u :=
  h.bind (hrest.bind (runs_pure _ _))

theorem exists_of_runs_cons (h : Runs (performAll (request :: requests)) s replies u) :
    ∃ reply t rest, replies = reply :: rest ∧ Runs (perform request) s reply t ∧
      Runs (performAll requests) t rest u := by
  obtain ⟨reply, t, hfirst, hnext⟩ := exists_of_runs_bind h
  obtain ⟨rest, v, hrest, hpure⟩ := exists_of_runs_bind hnext
  obtain ⟨rfl, rfl⟩ := Runs.unique (runs_pure _ _) hpure
  exact ⟨reply, t, rest, rfl, hfirst, hrest⟩

/-- The requests succeed, and none has anything to tell. -/
def Does (requests : List Request) (s t : Session) : Prop :=
  Runs (performAll requests) s (requests.map fun _ => .done) t

theorem does_nil (s : Session) : Does [] s s := runs_pure _ _

theorem Does.cons (h : Runs (perform request) s .done t) (hrest : Does requests t u) :
    Does (request :: requests) s u :=
  runs_performAll_cons h hrest

theorem Does.append {later : List Request} (h : Does requests s t) (hlater : Does later t u) :
    Does (requests ++ later) s u := by
  induction requests generalizing s with
  | nil =>
    obtain ⟨-, rfl⟩ := Runs.unique (does_nil s) h
    exact hlater
  | cons request requests ih =>
    obtain ⟨reply, v, rest, heq, hfirst, hrest⟩ := exists_of_runs_cons h
    cases heq
    exact (ih hrest).cons hfirst

/-- Entries that are written one after the other, in a session that is described by what was
    written. -/
theorem does_flatMap {γ : Type} (state : List UInt8 → Session) (requests : γ → List Request)
    (write : γ → List UInt8) {entries : List γ}
    (h : ∀ e ∈ entries, ∀ l, Does (requests e) (state l) (state (l ++ write e))) (l : List UInt8) :
    Does (entries.flatMap requests) (state l) (state (l ++ entries.flatMap write)) := by
  induction entries generalizing l with
  | nil =>
    rw [List.flatMap_nil, List.flatMap_nil, List.append_nil]
    exact does_nil _
  | cons e entries ih =>
    rw [List.flatMap_cons, List.flatMap_cons, ← List.append_assoc]
    exact (h e List.mem_cons_self l).append (ih (fun e he => h e (List.mem_cons_of_mem _ he)) _)

/-- Entries of one request each. -/
theorem does_map {γ : Type} (state : List UInt8 → Session) (request : γ → Request)
    (write : γ → List UInt8) {entries : List γ}
    (h : ∀ e ∈ entries, ∀ l, Runs (perform (request e)) (state l) .done (state (l ++ write e)))
    (l : List UInt8) :
    Does (entries.map request) (state l) (state (l ++ entries.flatMap write)) := by
  rw [List.map_eq_flatMap]
  exact does_flatMap state _ write (fun e he l => (does_nil _).cons (h e he l)) l

end Assembly

/-! ## 2. Classes as they are meant -/

/-- The request appends bytes to the code. -/
def Request.isCode : Request → Bool
  | .op _ | .pushInt _ | .iload _ | .istore _ | .aload _ | .getField _ | .putField _
  | .invokeInterface _ _ | .putU8 _ | .putU16 _ | .putI16 _ | .putU32 _ => true
  | _ => false

/-- A method as it is meant. -/
structure MethodSource where
  flags : MethodFlags
  name : UInt16
  descriptor : UInt16
  maxStack : UInt16
  maxLocals : UInt16
  /-- The calls that write its code. -/
  code : List Request
  /-- The attributes of its code. -/
  attributes : List CodeAttribute
  deriving DecidableEq, Repr

/-- The request that writes an attribute of a code. -/
def CodeAttribute.request : CodeAttribute → Request
  | .frame f => .appendIntFrame f.name f.target
  | .other a => .defineAttribute a.name a.info

namespace MethodSource

/-- The calls that write the method. -/
def requests (m : MethodSource) : List Request :=
  .beginMethod m.flags m.name m.descriptor m.maxStack m.maxLocals :: (m.code ++
    (.endCode :: .codeAttributes (UInt16.ofNat m.attributes.length) ::
      (m.attributes.map CodeAttribute.request ++ [.endMethod])))

/-- The method with this code, before its bytes. -/
def textWith (m : MethodSource) (code : List UInt8) : MethodText :=
  ⟨m.flags, m.name, m.descriptor, m.maxStack, m.maxLocals, code, none⟩

/-- The bytes of its code. -/
def codeBytes (m : MethodSource) : List UInt8 := m.code.flatMap Request.bytes

/-- What follows the code: no handlers, and the attributes. -/
def after (m : MethodSource) : List UInt8 :=
  Word.bytes16 0 ++ AttributeText.table (m.attributes.map CodeAttribute.text)

/-- The body of its code attribute. -/
def body (m : MethodSource) : List UInt8 := (m.textWith m.codeBytes).bodyWith m.after

def bytes (codeAttribute : UInt16) (m : MethodSource) : List UInt8 :=
  (m.textWith m.codeBytes).bytesWith codeAttribute m.after

/-- The method is well formed, and its indices lead to this name and this type. -/
structure Resolves (p : Pool) (m : MethodSource) (name descriptor : String) (type : MethodType) :
    Prop where
  flags_known : MethodFlags.ofWord m.flags.bits = m.flags
  name_eq : p.get? m.name = some (.text name)
  descriptor_eq : p.get? m.descriptor = some (.text descriptor)
  type_eq : MethodType.parse descriptor = .ok type
  isCode : ∀ request ∈ m.code, request.isCode = true
  code_ne : m.codeBytes.length ≠ 0
  code_lt : m.codeBytes.length < 65536
  proper : ∀ a ∈ m.attributes, a.Proper p
  once : (m.attributes.filter CodeAttribute.isFrame).length ≤ 1
  count : m.attributes.length < 65536

/-- The method that is meant, if it stands at `offset`; the code begins 22 bytes later. -/
def described (offset : Nat) (m : MethodSource) (x : String × String × MethodType) : MethodDecl :=
  ⟨m.flags, x.1, x.2.2, x.2.1, some ⟨m.maxStack, m.maxLocals, m.codeBytes, offset + 22,
    m.attributes.flatMap CodeAttribute.frames⟩⟩

end MethodSource

/-- A class as it is meant. -/
structure ClassSource where
  /-- The constants behind those that every class needs. -/
  constants : List Constant
  flags : ClassFlags
  this : UInt16
  /-- The superclass, if it is not the root class. -/
  super : Option UInt16
  interfaces : List UInt16
  fields : List FieldText
  methods : List MethodSource
  attributes : List AttributeText
  deriving DecidableEq, Repr

namespace ClassSource

/-- The calls that write its constants. -/
def poolRequests (c : ClassSource) : List Request :=
  .setupPool :: c.constants.map .addConstant

/-- The call that writes its place among classes. -/
def placeRequest (c : ClassSource) : Request :=
  match c.super with
  | none => .defineClass c.flags c.this
  | some super => .defineClassWithSuper c.flags c.this super

/-- The calls that write the rest of it. -/
def memberRequests (c : ClassSource) : List Request :=
  .finishPool :: c.placeRequest :: .declareInterfaces c.interfaces ::
    .declareCount (UInt16.ofNat c.fields.length) ::
    (c.fields.map (fun f => .defineField f.flags f.name f.descriptor) ++
      (.declareCount (UInt16.ofNat c.methods.length) ::
        (c.methods.flatMap MethodSource.requests ++
          (.declareCount (UInt16.ofNat c.attributes.length) ::
            c.attributes.map fun a => .defineAttribute a.name a.info))))

/-- The class up to its methods. -/
def front (c : ClassSource) : ClassFront :=
  ⟨.written, setupConstants ++ c.constants, c.flags, c.this, c.super.getD standard.objectClass,
    c.interfaces, c.fields⟩

def pool (c : ClassSource) : Pool := c.front.pool

def bytes (c : ClassSource) : List UInt8 :=
  c.front.bytes c.methods.length ++
    (c.methods.flatMap (MethodSource.bytes standard.codeAttribute) ++ AttributeText.table c.attributes)

/-- The class is well formed, and its indices lead to these names. -/
structure Resolves (c : ClassSource) (n : ClassNames) : Prop where
  /-- What a constant refers to is there, and of the right kind. -/
  closed : ∀ k ∈ c.constants, c.pool.Closed k
  flags_known : ClassFlags.ofWord c.flags.bits = c.flags
  this : c.pool.IsClass c.this n.this
  super : c.pool.IsClass (c.super.getD standard.objectClass) n.super
  interfaces : List.Forall₂ (fun i s => c.pool.IsClass i s) c.interfaces n.interfaces
  interfaceCount : c.interfaces.length < 65536
  field_known : ∀ f ∈ c.fields, FieldFlags.ofWord f.flags.bits = f.flags
  fields : List.Forall₂ (fun f x => c.pool.get? f.name = some (.text x.1) ∧
    c.pool.get? f.descriptor = some (.text x.2.1) ∧ FieldType.parse x.2.1 = .ok x.2.2)
    c.fields n.fields
  fieldCount : c.fields.length < 65536
  methods : List.Forall₂ (fun m x => m.Resolves c.pool x.1 x.2.1 x.2.2) c.methods n.methods
  methodCount : c.methods.length < 65536
  attributes : ∀ a ∈ c.attributes, ∃ name, a.Named c.pool name
  attributeCount : c.attributes.length < 65536

/-- The class that is meant. -/
def described (c : ClassSource) (n : ClassNames) : ClassFile where
  version := .written
  pool := c.pool
  flags := c.flags
  thisClass := n.this
  superClass := n.super
  interfaces := n.interfaces
  fields := (c.fields.zip n.fields).map fun e => ⟨e.1.flags, e.2.1, e.2.2.2⟩
  methods := placed (MethodSource.bytes standard.codeAttribute) MethodSource.described
    (c.front.bytes c.methods.length).length c.methods n.methods

end ClassSource

/-! ## 3. The constants -/

/-- Constants that are added one after the other get the indices that follow. -/
theorem runs_addConstants {base added : List Constant} {std : Option StandardPool}
    (hroom : base.length + added.length < poolLimit) (hadded : ∀ c ∈ added, c.Writable) :
    Runs (performAll (added.map .addConstant)) (.pooling base std)
      ((List.range' (base.length + 1) added.length).map fun i => .index (UInt16.ofNat i))
      (.pooling (base ++ added) std) := by
  induction added generalizing base with
  | nil =>
    rw [List.append_nil]
    exact runs_pure _ _
  | cons c added ih =>
    rw [List.length_cons] at hroom
    have hfirst : Runs (addConstant c) (.pooling base std) _ _ :=
      runs_addConstant (by omega) (hadded c List.mem_cons_self)
    have hrest : Runs (performAll (added.map .addConstant)) (.pooling (base ++ [c]) std) _ _ :=
      ih (by rw [List.length_append, List.length_singleton]; omega)
        fun c hc => hadded c (List.mem_cons_of_mem _ hc)
    rw [List.append_assoc, List.length_append] at hrest
    exact runs_performAll_cons (hfirst.map Reply.index) hrest

/-- In the pool, the constants have these indices. -/
theorem get?_added {base added : List Constant} (hroom : base.length + added.length < poolLimit) :
    List.Forall₂ (fun reply k => ∃ index, reply = .index index ∧
        Pool.get? ⟨(base ++ added).toArray⟩ index = some k)
      ((List.range' (base.length + 1) added.length).map fun i => Reply.index (UInt16.ofNat i)) added := by
  have hlimit : poolLimit = 65535 := rfl
  induction added generalizing base with
  | nil => exact .nil
  | cons c added ih =>
    rw [List.length_cons] at hroom
    have hfirst : Pool.get? ⟨(base ++ c :: added).toArray⟩ (UInt16.ofNat (base.length + 1)) = some c :=
      Pool.get?_of_getElem? (by simp) (by omega)
    have hrest := @ih (base ++ [c]) (by rw [List.length_append, List.length_singleton]; omega)
    rw [List.append_assoc, List.length_append] at hrest
    exact .cons ⟨_, rfl, hfirst⟩ hrest

/-- Constants that were added could be written, and there was room for them. -/
theorem added_of_runs {base added : List Constant} {std : Option StandardPool}
    {replies : List Reply} {s : Session} (hbase : base.length < poolLimit)
    (h : Runs (performAll (added.map .addConstant)) (.pooling base std) replies s) :
    base.length + added.length < poolLimit ∧ ∀ c ∈ added, c.Writable := by
  induction added generalizing base replies with
  | nil => exact ⟨hbase, List.forall_mem_nil _⟩
  | cons c added ih =>
    obtain ⟨reply, t, rest, -, hfirst, hrest⟩ := exists_of_runs_cons h
    obtain ⟨index, hadd, -⟩ := exists_of_runs_map hfirst
    by_cases hfull : base.length + 1 = poolLimit
    · have hrefused : addConstant c (.pooling base std) = .error _ _ := if_pos hfull
      cases hrefused.symm.trans hadd
    · cases hbytes : c.bytes with
      | error fault =>
        have hfails : Fails (addConstant c) (.pooling base std) _ :=
          fails_addConstant (by omega) hbytes
        obtain ⟨v, hfails⟩ := hfails
        cases hfails.symm.trans hadd
      | ok bytes =>
        have hwritable : c.Writable := by
          unfold Constant.Writable Constant.written
          rw [hbytes]
        obtain ⟨-, rfl⟩ := Runs.unique hadd (runs_addConstant (by omega) hwritable)
        obtain ⟨hroom, hadded⟩ := ih (by rw [List.length_append, List.length_singleton]; omega) hrest
        rw [List.length_append, List.length_singleton] at hroom
        rw [List.length_cons]
        exact ⟨by omega, List.forall_mem_cons.mpr ⟨hwritable, hadded⟩⟩

/-- The constants that every class needs are where their indices say. -/
structure StandardPool.Leads (std : StandardPool) (p : Pool) : Prop where
  objectClass : p.IsClass std.objectClass Collation.objectClass
  initName : p.get? std.initName = some (.text Collation.initName)
  initDescriptor : p.get? std.initDescriptor = some (.text Collation.initDescriptor)
  objectInit : p.IsMember std.objectInit
    ⟨.method, Collation.objectClass, Collation.initName, Collation.initDescriptor⟩
  codeAttribute : p.get? std.codeAttribute = some (.text codeAttributeName)

namespace ClassSource

variable {c : ClassSource} {n : ClassNames}

theorem standard_leads (c : ClassSource) : standard.Leads c.pool where
  objectClass := ⟨1, rfl, rfl⟩
  initName := rfl
  initDescriptor := rfl
  objectInit := ⟨2, 5, rfl, ⟨1, rfl, rfl⟩, 3, 4, rfl, rfl, rfl⟩
  codeAttribute := rfl

theorem closed_setup (c : ClassSource) : ∀ k ∈ setupConstants, c.pool.Closed k := by
  simp only [setupConstants, List.forall_mem_cons]
  exact ⟨trivial, ⟨_, rfl⟩, trivial, trivial, ⟨⟨_, rfl⟩, _, rfl⟩,
    ⟨⟨_, 1, rfl, rfl⟩, _, _, 3, 4, rfl, rfl, rfl⟩, trivial, List.forall_mem_nil _⟩

theorem writable_setup : ∀ k ∈ setupConstants, k.Writable := by decide

end ClassSource

/-! ## 4. The members -/

section Members

variable {l : List UInt8} {count : Nat} {std : StandardPool}

/-- A call that appends to the code. -/
theorem Request.runs_code {request : Request} {m : MethodText} (h : request.isCode = true) :
    Runs (perform request) (.coding l count std m) .done
      (.coding l count std { m with code := m.code ++ request.bytes }) := by
  cases request with
  | op _ | pushInt _ | iload _ | istore _ | aload _ | getField _ | putField _ => exact runs_emit.done
  | invokeInterface _ _ => exact runs_emit.done
  | putU8 _ | putU16 _ | putI16 _ | putU32 _ => exact runs_writeCode.done
  | _ => cases h

/-- An attribute that is not too long is written between members or behind a code. -/
theorem runs_defineAttribute {a : AttributeText} (h : a.info.length < 4294967296) {s t : Session}
    (hwrite : Runs (write a.bytes) s () t) : Runs (defineAttribute a.name a.info) s () t := by
  have hfits : a.info.length ≤ 4294967295 := by omega
  refine (if_pos hfits).trans ?_
  rw [List.append_assoc]
  exact hwrite

theorem CodeAttribute.runs_request {a : CodeAttribute} {p : Pool} {m : MethodText}
    {after : List UInt8} (h : a.Proper p) :
    Runs (perform a.request) (.coded l count std m after) .done
      (.coded l count std m (after ++ a.text.bytes)) := by
  cases h with
  | frame _ => exact runs_appendIntFrame.done
  | other hname _ => exact (runs_defineAttribute hname.fits runs_writeAfter).done

/-- **The calls of a method write the method.** -/
theorem MethodSource.does_requests {p : Pool} {m : MethodSource} {name descriptor : String}
    {type : MethodType} (h : m.Resolves p name descriptor type) (l : List UInt8) :
    Does m.requests (.between l count std) (.between (l ++ m.bytes std.codeAttribute) count std) := by
  have hcode : Does m.code (.coding l count std (m.textWith []))
      (.coding l count std (m.textWith m.codeBytes)) := by
    have hmap := does_map (fun x => .coding l count std (m.textWith x)) id Request.bytes
      (fun request hrequest _ => Request.runs_code (h.isCode request hrequest)) []
    rwa [List.map_id] at hmap
  have hattributes : Does (m.attributes.map CodeAttribute.request)
      (.coded l count std (m.textWith m.codeBytes)
        (Word.bytes16 0 ++ Word.bytes16 (UInt16.ofNat m.attributes.length)))
      (.coded l count std (m.textWith m.codeBytes) m.after) := by
    have hmap := does_map (fun x => .coded l count std (m.textWith m.codeBytes) x)
      CodeAttribute.request (fun a => a.text.bytes)
      (fun a ha _ => CodeAttribute.runs_request (h.proper a ha))
      (Word.bytes16 0 ++ Word.bytes16 (UInt16.ofNat m.attributes.length))
    have hafter : m.after = Word.bytes16 0 ++ Word.bytes16 (UInt16.ofNat m.attributes.length) ++
        m.attributes.flatMap (fun a => a.text.bytes) := by
      rw [after, AttributeText.table, List.length_map, List.flatMap_map, List.append_assoc]
    rw [hafter]
    exact hmap
  refine Does.cons runs_beginMethod.done (hcode.append ?_)
  refine Does.cons (runs_endCode h.code_ne h.code_lt).done (Does.cons runs_writeAfter.done ?_)
  refine hattributes.append ((does_nil _).cons ?_)
  exact runs_endMethodWith.done

theorem FieldText.runs_request {f : FieldText} :
    Runs (defineField f.flags f.name f.descriptor) (.between l count std) ()
      (.between (l ++ f.bytes) count std) := by
  refine runs_writeBetween.trans ?_
  simp only [FieldText.bytes, List.append_assoc]

namespace ClassSource

variable {c : ClassSource} {n : ClassNames}

/-- The call that writes the place of the class. -/
theorem runs_placeRequest (c : ClassSource) :
    Runs (perform c.placeRequest) (.between l count standard) .done
      (.between (l ++ (Word.bytes16 c.flags.bits ++ Word.bytes16 c.this ++
        Word.bytes16 c.front.super)) count standard) := by
  unfold placeRequest front
  cases c.super with
  | none => exact runs_defineClass.done
  | some super => exact runs_writeBetween.done

theorem does_fields (c : ClassSource) (l : List UInt8) :
    Does (c.fields.map fun f => .defineField f.flags f.name f.descriptor) (.between l count std)
      (.between (l ++ c.fields.flatMap FieldText.bytes) count std) := by
  refine does_map (fun l => .between l count std) _ _ (fun f _ l => ?_) l
  exact FieldText.runs_request.done

theorem does_methods (h : c.Resolves n) (l : List UInt8) :
    Does (c.methods.flatMap MethodSource.requests) (.between l count std)
      (.between (l ++ c.methods.flatMap (MethodSource.bytes std.codeAttribute)) count std) := by
  refine does_flatMap (fun l => .between l count std) _ _ (fun m hm l => ?_) l
  obtain ⟨i, hi⟩ := List.mem_iff_getElem?.mp hm
  obtain ⟨x, -, hx⟩ := forall₂_getElem? h.methods hi
  exact MethodSource.does_requests hx l

theorem does_attributes (h : c.Resolves n) (l : List UInt8) :
    Does (c.attributes.map fun a => .defineAttribute a.name a.info) (.between l count std)
      (.between (l ++ c.attributes.flatMap AttributeText.bytes) count std) := by
  refine does_map (fun l => .between l count std) _ _ (fun a ha l => ?_) l
  obtain ⟨name, hname⟩ := h.attributes a ha
  exact (runs_defineAttribute hname.fits runs_writeBetween).done

/-- **The calls behind the constants write the class.** -/
theorem does_memberRequests (h : c.Resolves n) :
    Does c.memberRequests (.pooling (setupConstants ++ c.constants) (some standard))
      (.between c.bytes ((setupConstants ++ c.constants).length + 1) standard) := by
  have hinterfaces : c.interfaces.length ≤ 65535 := Nat.le_of_lt_succ h.interfaceCount
  have hlast : ∀ l, l ++ c.attributes.flatMap AttributeText.bytes = c.bytes →
      Does (c.attributes.map fun a => .defineAttribute a.name a.info)
        (.between l ((setupConstants ++ c.constants).length + 1) standard)
        (.between c.bytes ((setupConstants ++ c.constants).length + 1) standard) :=
    fun l hl => hl ▸ does_attributes h l
  refine Does.cons runs_finishPool.done (Does.cons (runs_placeRequest c) ?_)
  refine Does.cons (runs_declareInterfaces hinterfaces).done (Does.cons runs_writeBetween.done ?_)
  refine (does_fields c _).append (Does.cons runs_writeBetween.done ((does_methods h _).append ?_))
  refine Does.cons runs_writeBetween.done (hlast _ ?_)
  simp only [bytes, front, ClassFront.bytes, headerBytes, AttributeText.table, List.append_assoc]

end ClassSource

end Members

/-! ## 5. Reading it back -/

/-- **A method is read back as it was meant.** -/
theorem MethodSource.reads_method {p : Pool} {m : MethodSource} {codeAttribute : UInt16}
    {x : String × String × MethodType} (h : m.Resolves p x.1 x.2.1 x.2.2)
    (hattribute : p.get? codeAttribute = some (.text codeAttributeName)) (offset : Nat) :
    Reads (ClassFile.readMethod p) offset (m.bytes codeAttribute) (m.described offset x) := by
  obtain ⟨found, hfound, hattributes⟩ :=
    reads_codeAttributes h.proper h.once h.count (x.1 ++ x.2.1)
  have hcode : Reads (ClassFile.readCode p (x.1 ++ x.2.1)) (offset + 10)
      (Word.bytes32 (UInt32.ofNat m.body.length) ++ m.body)
      ⟨m.maxStack, m.maxLocals, m.codeBytes, offset + 22, found.getD []⟩ :=
    reads_codeWith h.code_ne h.code_lt hattributes offset
  have hmethod := reads_methodWith h.name_eq h.descriptor_eq h.type_eq hattribute hcode
  rw [hfound] at hmethod
  have hflags : MethodFlags.ofWord (m.textWith m.codeBytes).flags.bits = m.flags := h.flags_known
  rw [hflags] at hmethod
  exact hmethod

namespace ClassSource

variable {c : ClassSource} {n : ClassNames}

theorem described_front (h : c.Resolves n) (methods : List MethodDecl) :
    c.front.described n methods = { c.described n with methods := methods } := by
  have hflags : ClassFlags.ofWord c.front.flags.bits = c.flags := h.flags_known
  have hfields : ((c.front.fields.zip n.fields).map fun e =>
      (⟨.ofWord e.1.flags.bits, e.2.1, e.2.2.2⟩ : FieldDecl)) =
      (c.fields.zip n.fields).map fun e => ⟨e.1.flags, e.2.1, e.2.2.2⟩ := by
    refine List.map_congr_left fun e he => ?_
    rw [h.field_known e.1 (List.of_mem_zip he).1]
  unfold ClassFront.described described
  rw [hflags, hfields]
  rfl

/-- **What was written is read as the class that was meant.** -/
theorem parse_bytes (h : c.Resolves n) (hroom : (setupConstants ++ c.constants).length < poolLimit)
    (hwritable : ∀ k ∈ c.constants, k.Writable) :
    ClassFile.parse c.bytes = .ok (c.described n) := by
  have hfront : c.front.Resolves n :=
    { version := rfl
      size := hroom
      writable := List.forall_mem_append.mpr ⟨writable_setup, hwritable⟩
      closed := List.forall_mem_append.mpr ⟨closed_setup c, h.closed⟩
      this := h.this
      super := h.super
      interfaces := h.interfaces
      interfaceCount := h.interfaceCount
      fields := h.fields
      fieldCount := h.fieldCount }
  have hmethods := reads_placed (h.methods.imp fun m x hm o =>
    MethodSource.reads_method hm c.standard_leads.codeAttribute o) (c.front.bytes c.methods.length).length
  have hattributes := reads_skipAttributes h.attributes h.attributeCount
  have hparse := ClassFront.parse_append hfront h.methodCount hmethods hattributes
  rw [described_front h] at hparse
  exact hparse

/-- **A class that is written call by call is read back as it was meant.**  If the calls that write
    the constants succeed, so do the calls that write the rest.  What they wrote is read as the
    class: its version, flags, names, fields and methods, with their codes and frames.  In its pool
    each constant has the index that was answered when it was added. -/
theorem parse_assembled (c : ClassSource) (n : ClassNames) (h : c.Resolves n) {replies : List Reply}
    {s : Session} (hpool : Runs (performAll c.poolRequests) .empty replies s) :
    (∃ t, Does c.memberRequests s t ∧ ClassFile.parse t.bytes = .ok (c.described n)) ∧
      ∃ std indices, replies = .standard std :: indices ∧ std.Leads (c.described n).pool ∧
        List.Forall₂ (fun reply constant => ∃ index, reply = .index index ∧
          (c.described n).pool.get? index = some constant) indices c.constants := by
  obtain ⟨reply, t, indices, rfl, hsetup, hadded⟩ := exists_of_runs_cons hpool
  obtain ⟨rfl, rfl⟩ := Runs.unique hsetup (runs_setupPool.map Reply.standard)
  obtain ⟨hroom, hwritable⟩ := added_of_runs (by decide) hadded
  obtain ⟨rfl, rfl⟩ := Runs.unique hadded (runs_addConstants hroom hwritable)
  have hlength : (setupConstants ++ c.constants).length < poolLimit := by
    rwa [List.length_append]
  refine ⟨⟨_, does_memberRequests h, parse_bytes h hlength hwritable⟩, ?_⟩
  exact ⟨standard, _, rfl, c.standard_leads, get?_added hroom⟩

end ClassSource

/-! ## 6. A class with all its parts -/

/-- A method with a jump, a stack map and another attribute in front of it. -/
def pickMethod : MethodSource where
  flags := .public
  name := 16
  descriptor := 17
  maxStack := 1
  maxLocals := 3
  code := [.iload 1, .op (Opcode.ifeq + 1), .putU16 7, .pushInt 300, .istore 2, .iload 2,
    .op Opcode.ireturn]
  attributes := [.other ⟨19, [1, 2, 3]⟩, .frame ⟨18, 8⟩]

/-- A class with a superclass and an interface of its own, a field whose name has characters of one,
    two and six bytes, and an attribute. -/
def pickClass : ClassSource where
  constants := [.text "Pick", .cls 8, .text "Base", .cls 10, .text "Face", .cls 12, .text "né𝄞",
    .text "J", .text "pick", .text "(I)I", .text stackMapAttributeName, .text "Note",
    .nameAndType 14 15, .member .field 9 20]
  flags := .publicFinal
  this := 9
  super := some 11
  interfaces := [13]
  fields := [⟨.private, 14, 15⟩]
  methods := [pickMethod]
  attributes := [⟨19, [255]⟩]

/-- What its indices lead to. -/
def pickNames : ClassNames where
  this := "Pick"
  super := "Base"
  interfaces := ["Face"]
  fields := [("né𝄞", "J", .base .long)]
  methods := [("pick", "(I)I", ⟨[.base .int], some (.base .int)⟩)]

theorem resolves_pickMethod :
    pickMethod.Resolves pickClass.pool "pick" "(I)I" ⟨[.base .int], some (.base .int)⟩ where
  flags_known := rfl
  name_eq := rfl
  descriptor_eq := rfl
  type_eq := by decide +kernel
  isCode := by decide
  code_ne := by decide
  code_lt := by decide
  proper := by
    refine List.forall_mem_cons.mpr ⟨?_, List.forall_mem_singleton.mpr (.frame rfl)⟩
    have hname : AttributeText.Named pickClass.pool ⟨19, [1, 2, 3]⟩ "Note" := ⟨rfl, by decide⟩
    exact .other hname (by decide)
  once := by decide
  count := by decide

theorem resolves_pickClass : pickClass.Resolves pickNames where
  closed := by
    simp only [pickClass, List.forall_mem_cons]
    exact ⟨trivial, ⟨_, rfl⟩, trivial, ⟨_, rfl⟩, trivial, ⟨_, rfl⟩, trivial, trivial, trivial, trivial,
      trivial, trivial, ⟨⟨_, rfl⟩, _, rfl⟩, ⟨⟨_, 8, rfl, rfl⟩, _, _, 14, 15, rfl, rfl, rfl⟩,
      List.forall_mem_nil _⟩
  flags_known := rfl
  this := ⟨8, rfl, rfl⟩
  super := ⟨10, rfl, rfl⟩
  interfaces := .cons ⟨12, rfl, rfl⟩ .nil
  interfaceCount := by decide
  field_known := by decide
  fields := .cons ⟨rfl, rfl, by decide⟩ .nil
  fieldCount := by decide
  methods := .cons resolves_pickMethod .nil
  methodCount := by decide
  attributes := List.forall_mem_singleton.mpr ⟨"Note", rfl, by decide⟩
  attributeCount := by decide

theorem runs_pickPool : Runs (performAll pickClass.poolRequests) .empty
    (.standard standard :: (List.range' 8 14).map fun i => .index (UInt16.ofNat i))
    (.pooling (setupConstants ++ pickClass.constants) (some standard)) :=
  runs_performAll_cons (runs_setupPool.map Reply.standard)
    (runs_addConstants (by decide) (by decide))

theorem ClassSource.parse_assembled_pick : pickClass.Resolves pickNames ∧
    Runs (performAll pickClass.poolRequests) .empty
      (.standard standard :: (List.range' 8 14).map fun i => .index (UInt16.ofNat i))
      (.pooling (setupConstants ++ pickClass.constants) (some standard)) ∧
    ∃ t, Does pickClass.memberRequests
        (.pooling (setupConstants ++ pickClass.constants) (some standard)) t ∧
      ClassFile.parse t.bytes = .ok (pickClass.described pickNames) :=
  ⟨resolves_pickClass, runs_pickPool,
    (parse_assembled pickClass pickNames resolves_pickClass runs_pickPool).1⟩

end Collation
