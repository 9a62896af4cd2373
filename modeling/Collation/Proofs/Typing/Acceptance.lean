/-
  File:      Collation/Proofs/Typing/Acceptance.lean
  Subject:   What is known of a class that was loaded.

  Loading reads, checks and binds.  This file turns each of its answers into a statement:

  * `Subject.Walk` -- the walk through the instructions, with the frame before each of them;
  * `Subject.Certificate` -- a body whose instructions were walked through and bound one by one;
  * `ClassFile.Accepted` -- a class file that was linked: superclass, methods with their
    certificates, fields whose types were read from texts;
  * `LinkedClass.accepted_of_load` -- every loaded class comes from such a file.
-/
import Collation.Linked
import Collation.Proofs.ClassFile.Reading
import Collation.Proofs.Code.Spelling
import Collation.Proofs.Matching

namespace Collation

/-! ## 1. The walk through the instructions -/

namespace Subject

/-- The walk, with the frames before the instructions. -/
inductive Walk (s : Subject) (frames : FrameTable) : Option Frame → Listing → List Frame → Prop where
  | done : Walk s frames none [] []
  | step {current : Option Frame} {pc : Nat} {instr : Decoded} {f f' : Frame} {rest : Listing}
      {along : List Frame} (hf : s.frameAt frames current pc = .ok f)
      (hi : s.checkInstr frames f pc instr = .ok f')
      (ht : Walk s frames (if instr.isUnconditional then none else some f') rest along) :
      Walk s frames current ((pc, instr) :: rest) (f :: along)

theorem walk_of_checkFrom {s : Subject} {frames : FrameTable} :
    ∀ {current : Option Frame} {listing : Listing}, s.checkFrom frames current listing = .ok () →
      ∃ along, s.Walk frames current listing along
  | current, [], h => by
      unfold checkFrom at h
      split at h
      · exact ⟨[], .done⟩
      · cases h
  | current, (pc, instr) :: rest, h => by
      unfold checkFrom at h
      split at h
      · cases h
      · rename_i f hf
        split at h
        · cases h
        · cases h
        · rename_i f' hi
          obtain ⟨along, ht⟩ := walk_of_checkFrom h
          exact ⟨f :: along, .step hf hi ht⟩

/-- **What a check that passes goes through**: the code is read, the declared frames and the one on
    entry are laid out, and the walk comes to its end. -/
theorem exists_walk_of_check {s : Subject} {listing : Listing} (h : s.check = .ok listing) :
    Code.decode s.code.bytes = .ok listing ∧ ∃ frames entry along,
      s.file.declaredFrames s.method s.code listing = .ok frames ∧
      Frame.layOut s.code (s.file.entryTypes s.method) [] = .ok entry ∧
      s.Walk frames (some entry) listing along := by
  unfold check at h
  split at h
  · cases h
  · rename_i listing' hdecode
    split at h
    · cases h
    · rename_i frames hframes
      split at h
      · cases h
      · rename_i entry hentry
        split at h
        · cases h
        · rename_i hfrom
          cases h
          obtain ⟨along, hwalk⟩ := walk_of_checkFrom hfrom
          exact ⟨hdecode, frames, entry, along, hframes, hentry, hwalk⟩

/-- **What the walk says about one instruction**: it has a frame, it was checked with it, and
    unless control never goes on, there is a next instruction that takes over what it left. -/
theorem Walk.get {s : Subject} {frames : FrameTable} {current : Option Frame} {listing : Listing}
    {along : List Frame} (h : s.Walk frames current listing along) {i pc : Nat} {instr : Decoded}
    (hi : listing[i]? = some (pc, instr)) :
    ∃ before f f', along[i]? = some f ∧ s.frameAt frames before pc = .ok f ∧
      s.checkInstr frames f pc instr = .ok f' ∧
      (instr.isUnconditional = false → ∃ pc' instr' g, listing[i + 1]? = some (pc', instr') ∧
        along[i + 1]? = some g ∧ s.frameAt frames (some f') pc' = .ok g) := by
  induction h generalizing i with
  | done => simp at hi
  | @step current pc' instr' f f' rest along hf hc ht ih =>
    cases i with
    | succ i => exact ih hi
    | zero =>
      rw [List.getElem?_cons_zero] at hi
      cases hi
      refine ⟨current, f, f', rfl, hf, hc, fun hu => ?_⟩
      rw [if_neg (by rw [hu]; exact Bool.false_ne_true)] at ht
      cases ht with
      | step hf' _ _ => exact ⟨_, _, _, rfl, rfl, hf'⟩

/-- Where control brings a frame, there is an instruction to take it over. -/
theorem Walk.head {s : Subject} {frames : FrameTable} {entry : Frame} {listing : Listing}
    {along : List Frame} (h : s.Walk frames (some entry) listing along) :
    ∃ pc f, along[0]? = some f ∧ s.frameAt frames (some entry) pc = .ok f := by
  cases h with
  | step hf _ _ => exact ⟨_, _, rfl, hf⟩

theorem Walk.length_eq {s : Subject} {frames : FrameTable} {current : Option Frame}
    {listing : Listing} {along : List Frame} (h : s.Walk frames current listing along) :
    along.length = listing.length := by
  induction h with
  | done => rfl
  | step _ _ _ ih => rw [List.length_cons, List.length_cons, ih]

/-- Where a frame is declared, the instruction is checked with it. -/
theorem frameAt_declared {s : Subject} {frames : FrameTable} {current : Option Frame} {pc : Nat}
    {f declared : Frame} (h : s.frameAt frames current pc = .ok f)
    (hd : frames.at? pc = some declared) : f = declared := by
  unfold frameAt at h
  rw [hd] at h
  cases current with
  | none =>
    cases h
    rfl
  | some g =>
    simp only at h
    split at h
    · cases h
      rfl
    · cases h

/-- The frame with which an instruction is checked is the one that control brings, or one that
    it may stand for. -/
theorem frameAt_some {s : Subject} {frames : FrameTable} {f g : Frame} {pc : Nat}
    (h : s.frameAt frames (some f) pc = .ok g) : g = f ∨ s.file.frameAssignable f g = true := by
  unfold frameAt at h
  split at h
  · rename_i hc
    cases hc
  · rename_i hc
    cases hc
    cases h
    exact Or.inl rfl
  · rename_i hc
    cases hc
  · rename_i hc
    cases hc
    split at h
    · rename_i ha
      cases h
      exact Or.inr ha
    · cases h

end Subject

/-! ## 2. Bound code -/

/-- Each bound instruction stands for the read one at the same place. -/
def BoundTo (s : Subject) (starts : Array (Option Nat)) (d : Nat × Decoded) (b : Nat × Bound) :
    Prop :=
  b.1 = d.1 ∧ ClassFile.bindInstr s starts d.1 d.2 = .ok b.2

theorem bound_of_bindAll {s : Subject} {starts : Array (Option Nat)} :
    ∀ {listing : Listing} {acc code : Array (Nat × Bound)},
      ClassFile.bindAll s starts acc listing = .ok code →
      ∃ bound, code.toList = acc.toList ++ bound ∧ List.Forall₂ (BoundTo s starts) listing bound
  | [], acc, code, h => by
      unfold ClassFile.bindAll at h
      cases h
      exact ⟨[], (List.append_nil _).symm, .nil⟩
  | (pc, instr) :: rest, acc, code, h => by
      unfold ClassFile.bindAll at h
      split at h
      · rename_i b hb
        obtain ⟨bound, he, hf⟩ := bound_of_bindAll h
        refine ⟨(pc, b) :: bound, ?_, .cons ⟨rfl, hb⟩ hf⟩
        rw [he, Array.toList_push, List.append_assoc]
        rfl
      · cases h

/-- A body that was checked and bound. -/
structure Subject.Certificate (s : Subject) (body : LinkedBody) where
  listing : Listing
  decoded : Code.decode s.code.bytes = .ok listing
  frames : FrameTable
  entry : Frame
  along : List Frame
  declared : s.file.declaredFrames s.method s.code listing = .ok frames
  layOut_entry : Frame.layOut s.code (s.file.entryTypes s.method) [] = .ok entry
  walk : s.Walk frames (some entry) listing along
  bound : List.Forall₂ (BoundTo s (Listing.indexTable s.code.bytes.length listing))
    listing body.code.toList
  maxLocals_eq : body.maxLocals = s.code.maxLocals

namespace ClassFile

/-- A method is linked under its own name and type, and its body is what its code, if it passes the
    check, is bound to. -/
theorem bindCode_of_linkMethod {file : ClassFile} {d : MethodDecl} {m : LinkedMethod}
    (h : file.linkMethod d = .ok m) :
    m.type = d.type ∧ m.isStatic = d.flags.isStatic ∧ m.name = d.name ∧
      m.descriptor = d.descriptor ∧ ∀ body, m.body = some body →
        ∃ code listing, d.code = some code ∧ (Subject.mk file d code).check = .ok listing ∧
          bindCode (Subject.mk file d code) listing = .ok body := by
  unfold linkMethod at h
  split at h
  · cases h
    exact ⟨rfl, rfl, rfl, rfl, fun _ hb => by cases hb⟩
  · rename_i code hcode
    simp only at h
    split at h
    · cases h
    · rename_i listing hcheck
      split at h
      · cases h
      · rename_i body hbind
        cases h
        refine ⟨rfl, rfl, rfl, rfl, fun body' hb => ?_⟩
        cases hb
        exact ⟨code, listing, hcode, hcheck, hbind⟩

theorem certificate_of_bindCode {s : Subject} {listing : Listing} {body : LinkedBody}
    (hcheck : s.check = .ok listing) (hbind : bindCode s listing = .ok body) :
    Nonempty (s.Certificate body) := by
  obtain ⟨hdecode, frames, entry, along, hframes, hentry, hwalk⟩ :=
    Subject.exists_walk_of_check hcheck
  unfold bindCode at hbind
  split at hbind
  · rename_i bound hbound
    cases hbind
    obtain ⟨bs, he, hf⟩ := bound_of_bindAll hbound
    rw [List.nil_append] at he
    exact ⟨⟨listing, hdecode, frames, entry, along, hframes, hentry, hwalk, he ▸ hf, rfl⟩⟩
  · cases hbind

theorem certificate_of_linkMethod {file : ClassFile} {d : MethodDecl} {m : LinkedMethod}
    (h : file.linkMethod d = .ok m) :
    m.type = d.type ∧ m.isStatic = d.flags.isStatic ∧ m.name = d.name ∧
      m.descriptor = d.descriptor ∧ ∀ body, m.body = some body →
        ∃ code, d.code = some code ∧ Nonempty ((Subject.mk file d code).Certificate body) := by
  obtain ⟨htype, hstatic, hname, hdescriptor, hbody⟩ := bindCode_of_linkMethod h
  refine ⟨htype, hstatic, hname, hdescriptor, fun body hb => ?_⟩
  obtain ⟨code, listing, hcode, hcheck, hbind⟩ := hbody body hb
  exact ⟨code, hcode, certificate_of_bindCode hcheck hbind⟩

theorem forall₂_of_linkMethods {file : ClassFile} :
    ∀ {ds : List MethodDecl} {acc : Array LinkedMethod} {ms : List LinkedMethod},
      file.linkMethods acc ds = .ok ms →
      ∃ new, ms = acc.toList ++ new ∧ List.Forall₂ (fun d m => file.linkMethod d = .ok m) ds new
  | [], acc, ms, h => by
      unfold linkMethods at h
      cases h
      exact ⟨[], (List.append_nil _).symm, .nil⟩
  | d :: ds, acc, ms, h => by
      unfold linkMethods at h
      split at h
      · rename_i m hm
        obtain ⟨new, he, hf⟩ := forall₂_of_linkMethods h
        refine ⟨m :: new, ?_, .cons hm hf⟩
        rw [he, Array.toList_push, List.append_assoc]
        rfl
      · cases h

/-! ## 3. Loaded classes -/

/-- A class that was made from a class file. -/
structure Accepted (file : ClassFile) (c : LinkedClass) : Prop where
  superClass_eq : file.superClass = objectClass
  name_eq : c.name = file.thisClass
  interfaces_eq : c.interfaces = file.interfaces
  fields_eq : c.fields = file.fields.map fun f => ⟨f.name, f.type⟩
  methods : List.Forall₂ (fun d m => file.linkMethod d = .ok m) file.methods c.methods
  types : ∀ d ∈ file.fields, ∃ text, FieldType.parse text = .ok d.type
  shape : file.checkShape = .ok ()
  methodTypes : ∀ d ∈ file.methods, MethodType.parse d.descriptor = .ok d.type

theorem superClass_of_checkShape {file : ClassFile} (h : file.checkShape = .ok ()) :
    file.superClass = objectClass := by
  unfold checkShape at h
  split at h
  · cases h
  · rename_i hs
    exact Classical.not_not.mp hs

/-- **The method that a call finds, if it has a body, was checked and bound.** -/
theorem Accepted.certificate {file : ClassFile} {c : LinkedClass} (h : file.Accepted c)
    {name descriptor : String} {m : LinkedMethod} {body : LinkedBody}
    (hm : c.findMethod? name descriptor = some m) (hb : m.body = some body) :
    ∃ d code, m.type = d.type ∧ m.isStatic = d.flags.isStatic ∧
      Nonempty ((Subject.mk file d code).Certificate body) := by
  have hmem : m ∈ c.methods := List.mem_of_find?_eq_some hm
  obtain ⟨i, hi⟩ := List.mem_iff_getElem?.mp hmem
  obtain ⟨d, hd, hl⟩ := forall₂_getElem?_right h.methods hi
  obtain ⟨ht, hs, _, _, hc⟩ := certificate_of_linkMethod hl
  obtain ⟨code, _, hcert⟩ := hc body hb
  exact ⟨d, code, ht, hs, hcert⟩

end ClassFile

/-- A loaded class was made from what its bytes were read as. -/
theorem LinkedClass.accepted_of_parse {input : List UInt8} {file : ClassFile} {c : LinkedClass}
    (hp : ClassFile.parse input = .ok file) (h : LinkedClass.load input = .ok c) :
    file.Accepted c := by
  unfold LinkedClass.load at h
  rw [hp] at h
  dsimp only at h
  unfold ClassFile.link at h
  split at h
  · cases h
  · rename_i hshape
    split at h
    · cases h
    · rename_i methods hm
      cases h
      obtain ⟨new, he, hf⟩ := ClassFile.forall₂_of_linkMethods hm
      rw [List.nil_append] at he
      exact ⟨ClassFile.superClass_of_checkShape hshape, rfl, rfl, rfl, he ▸ hf,
        fun _ hd => ClassFile.type_of_mem_fields hp hd, hshape,
        fun _ hd => ClassFile.type_of_mem_methods hp hd⟩

/-- **Every loaded class comes from a class file that was accepted.** -/
theorem LinkedClass.accepted_of_load {input : List UInt8} {c : LinkedClass}
    (h : LinkedClass.load input = .ok c) : ∃ file : ClassFile, file.Accepted c := by
  cases hp : ClassFile.parse input with
  | error e =>
    rw [LinkedClass.load, hp] at h
    cases h
  | ok file => exact ⟨file, accepted_of_parse hp h⟩

end Collation
