/-
  File:      Collation/Proofs/Typing/Linking.lean
  Subject:   Binding keeps the code that was checked.

  The check works on code offsets and pool indices, the machine on instruction numbers, slots and
  callees.  Binding goes from the one to the other, and looks up once more what the check has looked
  up already: where jumps land, and what members are called.  The second look cannot find less than
  the first one, so all that can be missing is the thing that a member stands for.

  * `Instr.Corresponds` -- one instruction in two kinds of code;
  * `Listing.Lands` -- what a jump is bound to, told without the binding;
  * `Subject.Unbound` -- why an instruction cannot be bound;
  * `Subject.resolved_of_check` -- what the check has looked up;
  * **`ClassFile.bindCode_carries`** -- what binding makes of code that was checked.
-/
import Collation.Proofs.Machine.Forward
import Collation.Proofs.Typing.Fields

namespace Collation

/-! ## 1. One instruction in two kinds of code -/

namespace Instr

variable {ε τ φ μ τ' φ' μ' : Type}

/-- The field that the instruction gets or puts. -/
def field? : Instr τ φ μ → Option φ
  | .getfield f | .putfield f => some f
  | _ => none

/-- The method that the instruction calls, and as what kind of member. -/
def call? : Instr τ φ μ → Option (MemberKind × μ)
  | .invokespecial m => some (.method, m)
  | .invokeinterface m => some (.interfaceMethod, m)
  | _ => none

/-- The same instruction, up to what jumps, field accesses and calls carry. -/
inductive Corresponds (jump : τ → τ' → Prop) (access : φ → φ' → Prop)
    (call : MemberKind → μ → μ' → Prop) : Instr τ φ μ → Instr τ' φ' μ' → Prop where
  | push (value : Int32) : Corresponds jump access call (.push value) (.push value)
  | iload (slot : Nat) : Corresponds jump access call (.iload slot) (.iload slot)
  | aload (slot : Nat) : Corresponds jump access call (.aload slot) (.aload slot)
  | istore (slot : Nat) : Corresponds jump access call (.istore slot) (.istore slot)
  | astore (slot : Nat) : Corresponds jump access call (.astore slot) (.astore slot)
  | pop : Corresponds jump access call .pop .pop
  | dup : Corresponds jump access call .dup .dup
  | swap : Corresponds jump access call .swap .swap
  | iadd : Corresponds jump access call .iadd .iadd
  | isub : Corresponds jump access call .isub .isub
  | imul : Corresponds jump access call .imul .imul
  | ineg : Corresponds jump access call .ineg .ineg
  | i2l : Corresponds jump access call .i2l .i2l
  | lcmp : Corresponds jump access call .lcmp .lcmp
  | dcmp (unordered : Int32) : Corresponds jump access call (.dcmp unordered) (.dcmp unordered)
  | ifZero (condition : Comparison) {t : τ} {t' : τ'} (h : jump t t') :
      Corresponds jump access call (.ifZero condition t) (.ifZero condition t')
  | ifInts (condition : Comparison) {t : τ} {t' : τ'} (h : jump t t') :
      Corresponds jump access call (.ifInts condition t) (.ifInts condition t')
  | goto {t : τ} {t' : τ'} (h : jump t t') : Corresponds jump access call (.goto t) (.goto t')
  | ireturn : Corresponds jump access call .ireturn .ireturn
  | vreturn : Corresponds jump access call .vreturn .vreturn
  | getfield {f : φ} {f' : φ'} (h : access f f') :
      Corresponds jump access call (.getfield f) (.getfield f')
  | putfield {f : φ} {f' : φ'} (h : access f f') :
      Corresponds jump access call (.putfield f) (.putfield f')
  | invokespecial {m : μ} {m' : μ'} (h : call .method m m') :
      Corresponds jump access call (.invokespecial m) (.invokespecial m')
  | invokeinterface {m : μ} {m' : μ'} (h : call .interfaceMethod m m') :
      Corresponds jump access call (.invokeinterface m) (.invokeinterface m')

section Traverse

variable {jump : τ → Except ε τ'} {access : φ → Except ε φ'} {special interface : μ → Except ε μ'}
  {instr : Instr τ φ μ}

/-- **What replacing gives corresponds**, if each replacement of a part does. -/
theorem corresponds_of_traverse {J : τ → τ' → Prop} {F : φ → φ' → Prop}
    {C : MemberKind → μ → μ' → Prop} {instr' : Instr τ' φ' μ'}
    (h : instr.traverse jump access special interface = .ok instr')
    (hjump : ∀ t t', instr.target? = some t → jump t = .ok t' → J t t')
    (haccess : ∀ f f', instr.field? = some f → access f = .ok f' → F f f')
    (hspecial : ∀ m m', instr.call? = some (.method, m) → special m = .ok m' → C .method m m')
    (hinterface : ∀ m m', instr.call? = some (.interfaceMethod, m) → interface m = .ok m' →
      C .interfaceMethod m m') : instr.Corresponds J F C instr' := by
  cases instr with
  | ifZero c t =>
    obtain ⟨t', ht, rfl⟩ := except_map_eq_ok.mp h
    exact .ifZero c (hjump t t' rfl ht)
  | ifInts c t =>
    obtain ⟨t', ht, rfl⟩ := except_map_eq_ok.mp h
    exact .ifInts c (hjump t t' rfl ht)
  | goto t =>
    obtain ⟨t', ht, rfl⟩ := except_map_eq_ok.mp h
    exact .goto (hjump t t' rfl ht)
  | getfield f =>
    obtain ⟨f', hf, rfl⟩ := except_map_eq_ok.mp h
    exact .getfield (haccess f f' rfl hf)
  | putfield f =>
    obtain ⟨f', hf, rfl⟩ := except_map_eq_ok.mp h
    exact .putfield (haccess f f' rfl hf)
  | invokespecial m =>
    obtain ⟨m', hm, rfl⟩ := except_map_eq_ok.mp h
    exact .invokespecial (hspecial m m' rfl hm)
  | invokeinterface m =>
    obtain ⟨m', hm, rfl⟩ := except_map_eq_ok.mp h
    exact .invokeinterface (hinterface m m' rfl hm)
  -- the others carry nothing that could be replaced
  | _ =>
    cases h
    constructor

/-- **Replacing fails only where the replacement of a part does.** -/
theorem exists_of_traverse_eq_error {e : ε}
    (h : instr.traverse jump access special interface = .error e) :
    (∃ t, instr.target? = some t ∧ jump t = .error e) ∨
    (∃ f, instr.field? = some f ∧ access f = .error e) ∨
    (∃ m, instr.call? = some (.method, m) ∧ special m = .error e) ∨
    (∃ m, instr.call? = some (.interfaceMethod, m) ∧ interface m = .error e) := by
  cases instr with
  | ifZero c t | ifInts c t | goto t => exact .inl ⟨t, rfl, except_map_eq_error.mp h⟩
  | getfield f | putfield f => exact .inr (.inl ⟨f, rfl, except_map_eq_error.mp h⟩)
  | invokespecial m => exact .inr (.inr (.inl ⟨m, rfl, except_map_eq_error.mp h⟩))
  | invokeinterface m => exact .inr (.inr (.inr ⟨m, rfl, except_map_eq_error.mp h⟩))
  | _ => cases h

end Traverse

end Instr

/-! ## 2. What the parts are bound to -/

/-- The only instruction at the offset is the one with the given number. -/
def Listing.Lands (listing : Listing) (offset number : Nat) : Prop :=
  ∀ i, (∃ instr, listing[i]? = some (offset, instr)) ↔ i = number

namespace Subject

/-- The bound instruction stands at the same offset and is the same, with jumps by instruction
    number, fields by slot and calls by callee. -/
def Carries (s : Subject) (listing : Listing) (d : Nat × Decoded) (b : Nat × Bound) : Prop :=
  b.1 = d.1 ∧ d.2.Corresponds listing.Lands (s.HasSlot d.1)
    (fun kind operand => s.Calls d.1 kind operand.index) b.2

/-- The instruction at `pc` cannot be bound: there is no such field in the class itself, or nothing
    that stands for such a method. -/
inductive Unbound (s : Subject) (pc : Nat) (instr : Decoded) : Fault → Prop where
  | field {index : UInt16} {m : MemberRef} {t : FieldType} (hfield : instr.field? = some index)
      (hmember : s.file.pool.member index .field (s.operandPosition pc) = .ok m)
      (htype : s.fieldAt index pc = .ok (m.owner, t))
      (hnone : m.owner = s.file.thisClass → ∀ f ∈ s.file.fields, ¬ f.Answers m.name t) :
      Unbound s pc instr (.link (.unresolvedField m.owner m.name m.descriptor))
  | method {kind : MemberKind} {operand : CallOperand} {m : MemberRef}
      (hcall : instr.call? = some (kind, operand))
      (hmember : s.file.pool.member operand.index kind (s.operandPosition pc) = .ok m)
      (hnone : ∀ c : Callee, ¬ c.StandsFor kind m) :
      Unbound s pc instr (.link (.unresolvedMethod m.owner m.name m.descriptor))

/-- **What becomes of checked code.**  Either all of it is bound, one instruction for each, or the
    first instruction that cannot be bound is named. -/
def BindsAs (s : Subject) (listing : Listing) : Except Fault LinkedBody → Prop
  | .ok body => body.maxStack = s.code.maxStack ∧ body.maxLocals = s.code.maxLocals ∧
      List.Forall₂ (s.Carries listing) listing body.code.toList
  | .error fault => ∃ before pc instr after, listing = before ++ (pc, instr) :: after ∧
      (∀ d ∈ before, ∃ b, s.Carries listing d b) ∧ s.Unbound pc instr fault

end Subject

/-! ## 3. Where instructions begin -/

/-- The offsets ascend. -/
def Listing.Ascending (listing : Listing) : Prop := listing.Pairwise fun d e => d.1 < e.1

namespace Code

theorem ascending_of_decodeAll {size pc : Nat} {acc all : Array (Nat × Decoded)} {code : List UInt8}
    (h : decodeAll size pc acc code = .ok all) (hbefore : ∀ d ∈ acc.toList, d.1 < pc)
    (hacc : Listing.Ascending acc.toList) : Listing.Ascending all.toList := by
  -- what is carried along: all offsets so far lie below the next one
  fun_induction decodeAll size pc acc code with
  | case1 pc acc =>
    cases h
    exact hacc
  | case2 pc acc opcode rest instr operands hone ih =>
    refine ih h (fun d hd => ?_) ?_
    · rw [Array.toList_push, List.mem_append, List.mem_singleton] at hd
      rcases hd with hd | rfl
      · exact Nat.lt_of_lt_of_le (hbefore d hd) (by omega)
      · exact Nat.lt_of_lt_of_le (Nat.lt_succ_self pc) (Nat.le_add_right _ _)
    · rw [Array.toList_push, Listing.Ascending, List.pairwise_append]
      refine ⟨hacc, List.pairwise_singleton _ _, fun d hd e he => ?_⟩
      rw [List.mem_singleton.mp he]
      exact hbefore d hd
  | case3 pc acc opcode rest defect hone => cases h

/-- **The offsets of code that was read ascend, and its jumps land on instructions.** -/
theorem ascending_and_lands_of_decode {code : List UInt8} {listing : Listing} (h : decode code = .ok listing) :
    listing.Ascending ∧ ∀ d ∈ listing, ∀ target, d.2.target? = some target →
      (indexAt (Listing.indexTable code.length listing) target).isSome := by
  unfold decode at h
  dsimp only at h
  split at h
  · cases h
  · rename_i all hall
    split at h
    · cases h
    · rename_i htargets
      cases h
      have hascending := ascending_of_decodeAll hall (by simp) List.Pairwise.nil
      exact ⟨hascending, isSome_of_checkTargets htargets⟩

end Code

/-- **The table gives for an offset the only instruction there.** -/
theorem Listing.Ascending.lands {listing : Listing} (h : listing.Ascending) {size offset number : Nat}
    (hnumber : indexAt (Listing.indexTable size listing) offset = some number) :
    listing.Lands offset number := by
  obtain ⟨instr, hinstr⟩ := getElem?_of_indexAt hnumber
  refine fun i => ⟨fun ⟨instr', hi⟩ => ?_, fun hi => ⟨instr, hi ▸ hinstr⟩⟩
  obtain ⟨hlt, heq⟩ := List.getElem?_eq_some_iff.mp hinstr
  obtain ⟨hlt', heq'⟩ := List.getElem?_eq_some_iff.mp hi
  have hpairs := List.pairwise_iff_getElem.mp h
  -- two numbers with one offset would put the offset below itself
  rcases Nat.lt_trichotomy i number with hless | rfl | hmore
  · have hoffset := hpairs i number hlt' hlt hless
    rw [heq, heq'] at hoffset
    exact absurd hoffset (Nat.lt_irrefl _)
  · rfl
  · have hoffset := hpairs number i hlt hlt' hmore
    rw [heq, heq'] at hoffset
    exact absurd hoffset (Nat.lt_irrefl _)

/-! ## 4. What the check has looked up -/

namespace Subject

/-- All that an instruction refers to is there: the instruction on which it lands, and the member of
    which it speaks. -/
structure Resolved (s : Subject) (listing : Listing) (d : Nat × Decoded) : Prop where
  target : ∀ t, d.2.target? = some t →
    (indexAt (Listing.indexTable s.code.bytes.length listing) t).isSome
  field : ∀ index, d.2.field? = some index → ∃ owner t, s.fieldAt index d.1 = .ok (owner, t)
  method : ∀ kind operand, d.2.call? = some (kind, operand) →
    ∃ owner t, s.methodAt operand.index kind d.1 = .ok (owner, t)

variable {s : Subject} {listing : Listing} {frames : FrameTable} {f f' : Frame} {pc : Nat}
  {instr : Decoded}

theorem fieldAt_of_checkInstr (h : s.checkInstr frames f pc instr = .ok f') {index : UInt16}
    (hfield : instr.field? = some index) : ∃ owner t, s.fieldAt index pc = .ok (owner, t) := by
  cases instr with
  | getfield i | putfield i =>
    cases hfield
    unfold checkInstr at h
    dsimp only at h
    split at h
    · rename_i owner t ht
      exact ⟨owner, t, ht⟩
    · cases h
  | _ => cases hfield

theorem methodAt_of_checkInstr (h : s.checkInstr frames f pc instr = .ok f') {kind : MemberKind}
    {operand : CallOperand} (hcall : instr.call? = some (kind, operand)) :
    ∃ owner t, s.methodAt operand.index kind pc = .ok (owner, t) := by
  cases instr with
  | invokespecial o | invokeinterface o =>
    cases hcall
    unfold checkInstr at h
    dsimp only at h
    split at h
    · rename_i owner t ht
      exact ⟨owner, t, ht⟩
    · cases h
  | _ => cases hcall

/-- **The check has looked up all that the instructions refer to**, and it went through all of them. -/
theorem resolved_of_check (h : s.check = .ok listing) :
    listing.Ascending ∧ ∀ d ∈ listing, s.Resolved listing d := by
  obtain ⟨hdecode, frames, entry, along, -, -, hwalk⟩ := exists_walk_of_check h
  obtain ⟨hascending, htargets⟩ := Code.ascending_and_lands_of_decode hdecode
  refine ⟨hascending, fun d hd => ?_⟩
  obtain ⟨i, hi⟩ := List.mem_iff_getElem?.mp hd
  obtain ⟨before, f, f', -, -, hcheck, -⟩ := hwalk.get hi
  exact ⟨htargets d hd, fun _ => fieldAt_of_checkInstr hcheck, fun _ _ => methodAt_of_checkInstr hcheck⟩

end Subject

/-! ## 5. Members -/

namespace ClassFile

variable {s : Subject} {pc : Nat}

/-- **A checked field access that cannot be bound** has no field that answers. -/
theorem unbound_of_bindField
    (htypes : ∀ d ∈ s.file.fields, ∃ text, FieldType.parse text = .ok d.type) {instr : Decoded}
    {index : UInt16} (hfield : instr.field? = some index) {owner : String} {t : FieldType}
    {fault : Fault} (hc : s.fieldAt index pc = .ok (owner, t))
    (hb : s.file.bindField index (s.operandPosition pc) = .error fault) :
    s.Unbound pc instr fault := by
  obtain ⟨m, hm, rfl, ht⟩ := fieldAt_eq_ok hc
  unfold bindField at hb
  rw [hm] at hb
  dsimp only at hb
  split at hb
  · cases hb
  · rename_i hslot
    cases hb
    refine .field hfield hm hc fun howner f hf ha => ?_
    rw [if_pos howner] at hslot
    have hmissed := List.findIdx?_eq_none_iff.mp hslot f hf
    rw [(answers_iff htypes ht hf).mpr ha] at hmissed
    cases hmissed

/-- **A checked call that cannot be bound** is one of a method that nothing stands for. -/
theorem unbound_of_bindMethod {instr : Decoded} {kind : MemberKind} {operand : CallOperand}
    (hcall : instr.call? = some (kind, operand)) {owner : String} {t : MethodType} {fault : Fault}
    (hc : s.methodAt operand.index kind pc = .ok (owner, t))
    (hb : s.file.bindMethod kind operand.index (s.operandPosition pc) = .error fault) :
    s.Unbound pc instr fault := by
  obtain ⟨m, hm, -, -⟩ := methodAt_eq_ok hc
  unfold bindMethod at hb
  rw [hm] at hb
  dsimp only at hb
  split at hb
  · cases hb
  · rename_i hnone
    cases hb
    refine .method hcall hm fun c hstands => ?_
    rw [callee?_eq_some_iff.mpr hstands] at hnone
    cases hnone

/-! ## 6. Instructions -/

section Listing

variable {listing : Listing} {d : Nat × Decoded}
  (htypes : ∀ f ∈ s.file.fields, ∃ text, FieldType.parse text = .ok f.type)

include htypes

/-- **One instruction**: what it is bound to carries it. -/
theorem carries_of_boundTo (hascending : listing.Ascending) (hd : s.Resolved listing d)
    {b : Nat × Bound} (hb : BoundTo s (Listing.indexTable s.code.bytes.length listing) d b) :
    s.Carries listing d b := by
  obtain ⟨hoffset, hbind⟩ := hb
  refine ⟨hoffset, Instr.corresponds_of_traverse hbind (fun t i _ hi => ?_) (fun index slot hf hslot => ?_)
    (fun _ _ _ hc => calls_of_bindMethod hc) (fun _ _ _ hc => calls_of_bindMethod hc)⟩
  · split at hi
    · rename_i number hnumber
      cases hi
      exact hascending.lands hnumber
    · cases hi
  · obtain ⟨owner, t, hc⟩ := hd.field index hf
    exact hasSlot_of_bindField htypes hc hslot

/-- **One instruction**: if it cannot be bound, it is for want of the member.  That its jump does not
    land was ruled out by the check, and so was a bad pool index. -/
theorem unbound_of_bindInstr (hd : s.Resolved listing d) {fault : Fault}
    (hb : bindInstr s (Listing.indexTable s.code.bytes.length listing) d.1 d.2 = .error fault) :
    s.Unbound d.1 d.2 fault := by
  rcases Instr.exists_of_traverse_eq_error hb with
    ⟨t, ht, hjump⟩ | ⟨index, hf, hslot⟩ | ⟨operand, hcall, hc⟩ | ⟨operand, hcall, hc⟩
  · obtain ⟨number, hnumber⟩ := Option.isSome_iff_exists.mp (hd.target t ht)
    rw [hnumber] at hjump
    cases hjump
  · obtain ⟨owner, t, hfield⟩ := hd.field index hf
    exact unbound_of_bindField htypes hf hfield hslot
  · obtain ⟨owner, t, hmethod⟩ := hd.method _ operand hcall
    exact unbound_of_bindMethod hcall hmethod hc
  · obtain ⟨owner, t, hmethod⟩ := hd.method _ operand hcall
    exact unbound_of_bindMethod hcall hmethod hc

end Listing

/-- Binding in order stops at the first instruction that cannot be bound. -/
theorem exists_of_bindAll_eq_error {starts : Array (Option Nat)} {fault : Fault} {listing : Listing}
    {acc : Array (Nat × Bound)} (h : bindAll s starts acc listing = .error fault) :
    ∃ before pc instr after, listing = before ++ (pc, instr) :: after ∧
      (∀ d ∈ before, ∃ b, BoundTo s starts d b) ∧ bindInstr s starts pc instr = .error fault := by
  induction listing generalizing acc with
  | nil => cases h
  | cons entry rest ih =>
    obtain ⟨pc, instr⟩ := entry
    unfold bindAll at h
    split at h
    · rename_i b hb
      obtain ⟨before, pc', instr', after, rfl, hbefore, hfault⟩ := ih h
      refine ⟨(pc, instr) :: before, pc', instr', after, rfl, fun d hd => ?_, hfault⟩
      rcases List.mem_cons.mp hd with rfl | hd
      · exact ⟨(pc, b), rfl, hb⟩
      · exact hbefore d hd
    · rename_i e hb
      cases h
      exact ⟨[], pc, instr, rest, rfl, fun d hd => absurd hd List.not_mem_nil, hb⟩

/-! ## 7. Methods -/

theorem verify_eq_some_iff {file : ClassFile} {method : MethodDecl} {code : CodeBody}
    {listing : Listing} (hcode : method.code = some code) :
    file.verify method = .ok (some listing) ↔ (Subject.mk file method code).check = .ok listing := by
  unfold verify
  rw [hcode]
  dsimp only
  cases (Subject.mk file method code).check <;> simp

/-- **Binding keeps the code that was checked.**  For every class file that was read and every method
    whose code passes the check, binding either gives one instruction for each one that was checked,
    in order and with the same offsets: a jump leads to the number of the instruction at its target,
    a field access to the first field of instances that has the name and the type with which it was
    checked, and a call to the method of exactly that owner, name and descriptor.  Or it names the
    first instruction whose field or method does not exist.  It never fails otherwise. -/
theorem bindCode_carries {input : List UInt8} {file : ClassFile} {method : MethodDecl}
    {code : CodeBody} {listing : Listing} (hparse : parse input = .ok file)
    (hcode : method.code = some code) (hverify : file.verify method = .ok (some listing)) :
    (Subject.mk file method code).BindsAs listing
      (bindCode (Subject.mk file method code) listing) := by
  have htypes : ∀ f ∈ file.fields, ∃ text, FieldType.parse text = .ok f.type := fun f hf =>
    type_of_mem_fields hparse hf
  obtain ⟨hascending, hresolved⟩ := Subject.resolved_of_check ((verify_eq_some_iff hcode).mp hverify)
  unfold bindCode
  cases hbind : bindAll (Subject.mk file method code)
      (Listing.indexTable (Subject.mk file method code).code.bytes.length listing) #[] listing with
  | ok bound =>
    obtain ⟨bs, hbs, hbound⟩ := bound_of_bindAll hbind
    rw [List.nil_append] at hbs
    refine ⟨rfl, rfl, ?_⟩
    rw [hbs]
    refine ((List.forall₂_and_left _ _).mpr ⟨hresolved, hbound⟩).imp fun d b h => ?_
    exact carries_of_boundTo htypes hascending h.1 h.2
  | error fault =>
    obtain ⟨before, pc, instr, after, rfl, hbefore, hfault⟩ := exists_of_bindAll_eq_error hbind
    have hinstr := hresolved (pc, instr) (List.mem_append_right _ List.mem_cons_self)
    refine ⟨before, pc, instr, after, rfl, fun d hd => ?_, unbound_of_bindInstr htypes hinstr hfault⟩
    obtain ⟨b, hb⟩ := hbefore d hd
    exact ⟨b, carries_of_boundTo htypes hascending (hresolved d (List.mem_append_left _ hd)) hb⟩

/-- The body of a method of a loaded class is what its checked code was bound to. -/
theorem exists_bindCode_of_load {input : List UInt8} {c : LinkedClass} {m : LinkedMethod}
    {body : LinkedBody} (hload : LinkedClass.load input = .ok c) (hm : m ∈ c.methods)
    (hb : m.body = some body) :
    ∃ file method code listing, parse input = .ok file ∧ method.code = some code ∧
      file.verify method = .ok (some listing) ∧
      bindCode (Subject.mk file method code) listing = .ok body := by
  cases hparse : parse input with
  | error e =>
    rw [LinkedClass.load, hparse] at hload
    cases hload
  | ok file =>
    obtain ⟨i, hi⟩ := List.mem_iff_getElem?.mp hm
    obtain ⟨d, -, hlink⟩ :=
      forall₂_getElem?_right (LinkedClass.accepted_of_parse hparse hload).methods hi
    obtain ⟨-, -, -, -, hbody⟩ := bindCode_of_linkMethod hlink
    obtain ⟨code, listing, hcode, hcheck, hbind⟩ := hbody body hb
    exact ⟨file, d, code, listing, rfl, hcode, (verify_eq_some_iff hcode).mpr hcheck, hbind⟩

/-- The class has a method whose code was checked and bound to this body, which it carries over. -/
def CarriesOver (input : List UInt8) (body : LinkedBody) : Prop :=
  ∃ file method code listing, parse input = .ok file ∧ method.code = some code ∧
    file.verify method = .ok (some listing) ∧
    bindCode (Subject.mk file method code) listing = .ok body ∧
    (Subject.mk file method code).BindsAs listing (.ok body)

/-- A call of an accessor, two accesses to fields, and a jump. -/
theorem bindCode_carries_loaded :
    CarriesOver Instance.readerBytes ⟨2, 2, #[(0, .aload 1), (1, .push 0),
      (2, .invokeinterface (.accessor .int)), (7, .ireturn)]⟩ ∧
    CarriesOver Instance.keeperBytes ⟨2, 2, #[(0, .aload 0), (1, .push 5), (2, .putfield 0),
      (5, .aload 0), (6, .aload 1), (7, .putfield 2), (10, .vreturn)]⟩ ∧
    CarriesOver Instance.pickerBytes ⟨1, 2, #[(0, .iload 1), (1, .ifZero .eq 4), (4, .push 1),
      (5, .ireturn), (6, .push 0), (7, .ireturn)]⟩ := by
  have hcarries : ∀ {input : List UInt8} {c : LinkedClass} {m : LinkedMethod} {body : LinkedBody},
      LinkedClass.load input = .ok c → m ∈ c.methods → m.body = some body →
      CarriesOver input body := by
    intro input c m body hload hm hb
    obtain ⟨file, method, code, listing, hparse, hcode, hverify, hbind⟩ :=
      exists_bindCode_of_load hload hm hb
    exact ⟨file, method, code, listing, hparse, hcode, hverify, hbind,
      hbind ▸ bindCode_carries hparse hcode hverify⟩
  have hsecond : ∀ {c : LinkedClass} {m n : LinkedMethod}, c.methods = [m, n] → n ∈ c.methods :=
    fun h => h ▸ List.mem_cons_of_mem _ List.mem_cons_self
  exact ⟨hcarries Instance.load_reader (hsecond rfl) rfl,
    hcarries Instance.load_keeper (hsecond rfl) rfl, hcarries Instance.load_picker (hsecond rfl) rfl⟩

end ClassFile

end Collation
