/-
  File:      Collation/Proofs/Typing/Passing.lean
  Subject:   Code that passes the check, piece by piece.

  The other direction of the check: what must hold of a text so that it is accepted and bound.
  A piece of code leads from one frame to another, and pieces are put together.

  * `Subject.Passes` -- the check goes through a piece of code;
  * `Subject.Leads` -- straight code, wherever it stands;
  * `Subject.check_bytes` -- a text whose walk goes through is accepted;
  * `ClassFile.linkMethod_eq` -- a method whose code passes and is bound, is linked.
-/
import Collation.Linked
import Collation.Proofs.ClassFile.Written
import Collation.Proofs.Code.Spelling
import Collation.Proofs.Matching

namespace Collation

namespace Subject

variable {s : Subject} {frames : FrameTable} {pc : Nat} {t u : CodeText} {f g h : Frame}

/-! ## 1. Pieces of code -/

/-- The check of code that stands at `pc` leads from the frame `f` to the frame `g`. -/
def Passes (s : Subject) (frames : FrameTable) (pc : Nat) (t : CodeText) (f g : Frame) : Prop :=
  ∀ rest, s.checkFrom frames (some f) (CodeText.listing pc t ++ rest) =
    s.checkFrom frames (some g) rest

theorem passes_nil : s.Passes frames pc [] f f := fun _ => rfl

theorem Passes.append (ht : s.Passes frames pc t f g)
    (hu : s.Passes frames (pc + (CodeText.bytes t).length) u g h) :
    s.Passes frames pc (t ++ u) f h := by
  intro rest
  rw [CodeText.listing_append, List.append_assoc, ht]
  exact hu rest

/-- One instruction after which control goes on. -/
theorem passes_single {bs : List UInt8} {instr : Decoded} (hat : s.frameAt frames (some f) pc = .ok f)
    (hcheck : s.checkInstr frames f pc instr = .ok g) (hnext : instr.isUnconditional = false) :
    s.Passes frames pc [(bs, instr)] f g := by
  intro rest
  show s.checkFrom frames (some f) ((pc, instr) :: rest) = _
  rw [checkFrom, hat]
  dsimp only
  rw [hcheck, hnext]
  rfl

/-- The instructions lead from one frame to another wherever they stand, as long as no frame is
    declared between them. -/
def Leads (s : Subject) (frames : FrameTable) : CodeText → Frame → Frame → Prop
  | [], f, g => f = g
  | (_, instr) :: t, f, h => ∃ g, (∀ pc, s.checkInstr frames f pc instr = .ok g) ∧
    instr.isUnconditional = false ∧ s.Leads frames t g h

theorem leads_nil : s.Leads frames [] f f := rfl

theorem Leads.cons {bs : List UInt8} {instr : Decoded}
    (hcheck : ∀ pc, s.checkInstr frames f pc instr = .ok g) (hnext : instr.isUnconditional = false)
    (ht : s.Leads frames t g h) : s.Leads frames ((bs, instr) :: t) f h :=
  ⟨g, hcheck, hnext, ht⟩

theorem Leads.append (ht : s.Leads frames t f g) (hu : s.Leads frames u g h) :
    s.Leads frames (t ++ u) f h := by
  induction t generalizing f with
  | nil => rwa [show f = g from ht]
  | cons e t ih =>
    obtain ⟨f', hcheck, hnext, hrest⟩ := ht
    exact ⟨f', hcheck, hnext, ih hrest⟩

theorem Leads.passes (ht : s.Leads frames t f g) (hspaced : CodeText.Spaced t)
    (hnone : ∀ o, pc ≤ o → o < pc + (CodeText.bytes t).length → frames.at? o = none) :
    s.Passes frames pc t f g := by
  induction t generalizing pc f with
  | nil =>
    rw [show f = g from ht]
    exact passes_nil
  | cons e t ih =>
    obtain ⟨bs, instr⟩ := e
    obtain ⟨f', hcheck, hnext, hrest⟩ := ht
    have hpos : 0 < bs.length := hspaced (bs, instr) List.mem_cons_self
    have hlength : (CodeText.bytes ((bs, instr) :: t)).length =
        bs.length + (CodeText.bytes t).length := by
      simp [CodeText.bytes]
    have hat : s.frameAt frames (some f) pc = .ok f := by
      unfold frameAt
      rw [hnone pc (Nat.le_refl _) (by omega)]
    have hsingle : s.Passes frames pc [(bs, instr)] f f' := passes_single hat (hcheck pc) hnext
    refine Passes.append hsingle ?_
    rw [CodeText.bytes, List.flatMap_singleton]
    refine ih hrest (fun d hd => hspaced d (List.mem_cons_of_mem _ hd)) fun o hle hlt => ?_
    dsimp only at hle hlt
    exact hnone o (by omega) (by omega)

/-- The last instruction of a code, which does not let control go on. -/
theorem checkFrom_last {instr : Decoded} {current : Option Frame}
    (hat : s.frameAt frames current pc = .ok f)
    (hcheck : s.checkInstr frames f pc instr = .ok g) (hlast : instr.isUnconditional = true) :
    s.checkFrom frames current [(pc, instr)] = .ok () := by
  rw [checkFrom, hat]
  dsimp only
  rw [hcheck, hlast]
  rfl

/-! ## 2. Single instructions

Each lemma names the frame that an instruction finds and the one that it leaves, where the types
that it takes are exactly those that it expects. -/

section Instructions

variable {file : ClassFile} {locals : Array SlotType} {stack : List SlotType} {t u : SlotType}

theorem assignable_refl (t : SlotType) : file.assignable t t = true := by
  cases t <;> simp [ClassFile.assignable]

theorem frameAssignable_refl (f : Frame) : file.frameAssignable f f = true := by
  have hlist : ∀ l : List SlotType, l.isEqv l file.assignable = true := by
    intro l
    induction l with
    | nil => rfl
    | cons t l ih => rw [List.isEqv, assignable_refl, ih]; rfl
  rw [ClassFile.frameAssignable, hlist, ← Array.isEqv_toList, hlist]
  rfl

theorem popExpecting_eq (h : file.assignable t u = true) :
    file.popExpecting ⟨locals, t :: stack⟩ u = .ok ⟨locals, stack⟩ :=
  if_pos h

theorem popExpecting_self : file.popExpecting ⟨locals, t :: stack⟩ t = .ok ⟨locals, stack⟩ :=
  popExpecting_eq (assignable_refl t)

theorem popAll_self (ts : List SlotType) :
    file.popAll ⟨locals, ts ++ stack⟩ ts = .ok ⟨locals, stack⟩ := by
  induction ts with
  | nil => rfl
  | cons t ts ih =>
    rw [List.cons_append, ClassFile.popAll, popExpecting_self]
    exact ih

theorem depth_cons : Frame.depth ⟨locals, t :: stack⟩ = t.width + Frame.depth ⟨locals, stack⟩ := by
  have hfold : ∀ (l : List SlotType) (n : Nat),
      l.foldl (fun n t => n + t.width) n = n + l.foldl (fun n t => n + t.width) 0 := by
    intro l
    induction l with
    | nil => exact fun _ => rfl
    | cons t l ih =>
      intro n
      rw [List.foldl_cons, List.foldl_cons, ih, ih (0 + t.width)]
      omega
  rw [Frame.depth, List.foldl_cons, hfold, Nat.zero_add]
  rfl

theorem push_eq {room : UInt16} (h : t.width + Frame.depth ⟨locals, stack⟩ ≤ room.toNat) :
    Frame.push ⟨locals, stack⟩ t room = .ok ⟨locals, t :: stack⟩ :=
  if_neg (by omega)

/-- Values taken off the stack and one put on it instead. -/
theorem popPush_eq {room : UInt16} (ts : List SlotType)
    (hroom : t.width + Frame.depth ⟨locals, stack⟩ ≤ room.toNat) :
    (do
      let f ← file.popAll ⟨locals, ts ++ stack⟩ ts
      f.push t room) = .ok ⟨locals, t :: stack⟩ := by
  rw [popAll_self]
  exact push_eq hroom

theorem checkInstr_push {v : Int32}
    (hroom : SlotType.int.width + Frame.depth ⟨locals, stack⟩ ≤ s.code.maxStack.toNat) :
    s.checkInstr frames ⟨locals, stack⟩ pc (.push v) = .ok ⟨locals, .int :: stack⟩ := by
  unfold checkInstr
  dsimp only
  rw [push_eq hroom]
  rfl

theorem checkInstr_aload {n : Nat} (hlocal : locals[n]? = some t) (href : t.isReference = true)
    (hroom : t.width + Frame.depth ⟨locals, stack⟩ ≤ s.code.maxStack.toNat) :
    s.checkInstr frames ⟨locals, stack⟩ pc (.aload n) = .ok ⟨locals, t :: stack⟩ := by
  have hstep : s.checkInstr frames ⟨locals, stack⟩ pc (.aload n) = codeDefect
      (if t.isReference then Frame.push ⟨locals, stack⟩ t s.code.maxStack
        else .error .invalidType) := by
    unfold checkInstr Frame.local?
    dsimp only
    rw [hlocal]
    rfl
  rw [hstep, if_pos href, push_eq hroom]
  rfl

theorem checkInstr_iload {n : Nat} (hlocal : locals[n]? = some .int)
    (hroom : SlotType.int.width + Frame.depth ⟨locals, stack⟩ ≤ s.code.maxStack.toNat) :
    s.checkInstr frames ⟨locals, stack⟩ pc (.iload n) = .ok ⟨locals, .int :: stack⟩ := by
  have hstep : s.checkInstr frames ⟨locals, stack⟩ pc (.iload n) =
      codeDefect (Frame.push ⟨locals, stack⟩ .int s.code.maxStack) := by
    unfold checkInstr Frame.local?
    dsimp only
    rw [hlocal]
    rfl
  rw [hstep, push_eq hroom]
  rfl

/-- The value before the local must not be a wide one, which the new value would cut. -/
theorem checkInstr_istore {n : Nat} (hsize : n < locals.size)
    (hbefore : Frame.breakWide locals n = locals) :
    s.checkInstr frames ⟨locals, .int :: stack⟩ pc (.istore n) =
      .ok ⟨locals.setIfInBounds n .int, stack⟩ := by
  have hset : Frame.setLocal ⟨locals, stack⟩ n .int =
      .ok ⟨(Frame.breakWide locals n).setIfInBounds n .int, stack⟩ :=
    if_neg (Nat.not_lt.mpr hsize)
  unfold checkInstr
  dsimp only
  rw [popExpecting_self]
  show codeDefect (Frame.setLocal ⟨locals, stack⟩ n .int) = _
  rw [hset, hbefore]
  rfl

theorem checkInstr_i2l
    (hroom : SlotType.long.width + Frame.depth ⟨locals, stack⟩ ≤ s.code.maxStack.toNat) :
    s.checkInstr frames ⟨locals, .int :: stack⟩ pc .i2l = .ok ⟨locals, .long :: stack⟩ := by
  unfold checkInstr
  dsimp only
  rw [popExpecting_self]
  exact congrArg codeDefect (push_eq hroom)

theorem checkInstr_lcmp
    (hroom : SlotType.int.width + Frame.depth ⟨locals, stack⟩ ≤ s.code.maxStack.toNat) :
    s.checkInstr frames ⟨locals, .long :: .long :: stack⟩ pc .lcmp = .ok ⟨locals, .int :: stack⟩ :=
  congrArg codeDefect (popPush_eq [.long, .long] hroom)

theorem checkInstr_dcmp {unordered : Int32}
    (hroom : SlotType.int.width + Frame.depth ⟨locals, stack⟩ ≤ s.code.maxStack.toNat) :
    s.checkInstr frames ⟨locals, .double :: .double :: stack⟩ pc (.dcmp unordered) =
      .ok ⟨locals, .int :: stack⟩ :=
  congrArg codeDefect (popPush_eq [.double, .double] hroom)

/-- A jump to where the frame that it brings is declared. -/
theorem checkInstr_ifZero {c : Comparison} {target : Nat}
    (hframe : frames.at? target = some ⟨locals, stack⟩) :
    s.checkInstr frames ⟨locals, .int :: stack⟩ pc (.ifZero c target) = .ok ⟨locals, stack⟩ := by
  have hjump : s.checkJump frames ⟨locals, stack⟩ target = .ok () := by
    unfold checkJump
    rw [hframe]
    exact if_pos (frameAssignable_refl _)
  unfold checkInstr
  dsimp only
  rw [popExpecting_self]
  show codeDefect (s.checkJump frames ⟨locals, stack⟩ target >>= fun _ => .ok _) = _
  rw [hjump]
  rfl

theorem fieldAt_eq {index : UInt16} {owner name descriptor : String} {type : FieldType}
    (hm : s.file.pool.IsMember index ⟨.field, owner, name, descriptor⟩)
    (hparse : FieldType.parse descriptor = .ok type) : s.fieldAt index pc = .ok (owner, type) := by
  have hmember := hm.member_eq (s.operandPosition pc)
  rw [fieldAt, hmember]
  dsimp only
  rw [hparse]

theorem methodAt_eq {index : UInt16} {kind : MemberKind} {owner name descriptor : String}
    {type : MethodType} (hm : s.file.pool.IsMember index ⟨kind, owner, name, descriptor⟩)
    (hparse : MethodType.parse descriptor = .ok type) :
    s.methodAt index kind pc = .ok (owner, type) := by
  have hmember := hm.member_eq (s.operandPosition pc)
  rw [methodAt, hmember]
  dsimp only
  rw [hparse]

theorem checkInstr_getfield {index : UInt16} {owner name descriptor : String} {type : FieldType}
    (hm : s.file.pool.IsMember index ⟨.field, owner, name, descriptor⟩)
    (hparse : FieldType.parse descriptor = .ok type)
    (hroom : (SlotType.ofField type).width + Frame.depth ⟨locals, stack⟩ ≤ s.code.maxStack.toNat) :
    s.checkInstr frames ⟨locals, .object owner :: stack⟩ pc (.getfield index) =
      .ok ⟨locals, .ofField type :: stack⟩ := by
  unfold checkInstr
  dsimp only
  rw [fieldAt_eq hm hparse]
  dsimp only
  unfold checkGet
  rw [popExpecting_self]
  exact congrArg codeDefect (push_eq hroom)

theorem checkInstr_putfield {index : UInt16} {owner name descriptor : String} {type : FieldType}
    (hm : s.file.pool.IsMember index ⟨.field, owner, name, descriptor⟩)
    (hparse : FieldType.parse descriptor = .ok type) :
    s.checkInstr frames ⟨locals, .ofField type :: .object owner :: stack⟩ pc (.putfield index) =
      .ok ⟨locals, stack⟩ := by
  unfold checkInstr
  dsimp only
  rw [fieldAt_eq hm hparse]
  exact congrArg codeDefect (popAll_self [.ofField type, .object owner])

/-- A call takes its arguments and the receiver, and leaves the result if there is one. -/
theorem checkCall_eq {owner : String} {type : MethodType} {slots : Option UInt8}
    (hreceiver : s.file.assignable t (.object owner) = true)
    (hslots : slots.any (fun n => n.toNat ≠ type.slotsWithReceiver) = false)
    (hroom : ∀ r, type.result = some r →
      (SlotType.ofField r).width + Frame.depth ⟨locals, stack⟩ ≤ s.code.maxStack.toNat) :
    s.checkCall ⟨locals, type.parameters.reverse.map SlotType.ofField ++ t :: stack⟩ slots owner
      type = .ok ⟨locals, (type.result.map SlotType.ofField).toList ++ stack⟩ := by
  unfold checkCall
  rw [hslots, if_neg Bool.false_ne_true, popAll_self]
  show (s.file.popExpecting ⟨locals, t :: stack⟩ (.object owner) >>= _) = _
  rw [popExpecting_eq hreceiver]
  cases hresult : type.result with
  | none => rfl
  | some r => exact push_eq (hroom r hresult)

theorem checkInstr_invokespecial {operand : CallOperand} {owner name descriptor : String}
    {type : MethodType} (hm : s.file.pool.IsMember operand.index ⟨.method, owner, name, descriptor⟩)
    (hparse : MethodType.parse descriptor = .ok type) :
    s.checkInstr frames f pc (.invokespecial operand) =
      codeDefect (s.checkCall f operand.slots owner type) := by
  unfold checkInstr
  dsimp only
  rw [methodAt_eq hm hparse]

theorem checkInstr_invokeinterface {operand : CallOperand} {owner name descriptor : String}
    {type : MethodType}
    (hm : s.file.pool.IsMember operand.index ⟨.interfaceMethod, owner, name, descriptor⟩)
    (hparse : MethodType.parse descriptor = .ok type) :
    s.checkInstr frames f pc (.invokeinterface operand) =
      codeDefect (s.checkCall f operand.slots owner type) := by
  unfold checkInstr
  dsimp only
  rw [methodAt_eq hm hparse]

end Instructions

/-! ## 3. The whole code -/

/-- **A text whose walk goes through is accepted.** -/
theorem check_bytes {entry : Frame} (hbytes : s.code.bytes = CodeText.bytes t)
    (hdecode : Code.decode (CodeText.bytes t) = .ok (CodeText.listing 0 t))
    (hframes : s.file.declaredFrames s.method s.code (CodeText.listing 0 t) = .ok frames)
    (hentry : Frame.layOut s.code (s.file.entryTypes s.method) [] = .ok entry)
    (hwalk : s.checkFrom frames (some entry) (CodeText.listing 0 t) = .ok ()) :
    s.check = .ok (CodeText.listing 0 t) := by
  rw [check, hbytes, hdecode]
  dsimp only
  rw [hframes]
  dsimp only
  rw [hentry]
  dsimp only
  rw [hwalk]

theorem at?_replicate (size offset : Nat) :
    FrameTable.at? (Array.replicate size none) offset = none := by
  rw [FrameTable.at?, Array.getElem?_replicate]
  split <;> rfl

theorem at?_setIfInBounds {offset : Nat} (hsize : offset < frames.size) (o : Nat) :
    FrameTable.at? (frames.setIfInBounds offset (some f)) o =
      if o = offset then some f else frames.at? o := by
  rw [FrameTable.at?, Array.getElem?_setIfInBounds]
  by_cases h : o = offset
  · rw [if_pos h, if_pos h.symm, if_pos hsize]
    rfl
  · rw [if_neg h, if_neg (Ne.symm h)]
    rfl

/-- A stack map with one frame that adds to the locals on entry. -/
theorem enter_append {code : CodeBody} {starts : Array (Option Nat)} {types more : List SlotType}
    {offset : UInt16} {i : Nat} (hindex : indexAt starts offset.toNat = some i)
    (hlayout : Frame.layOut code (types ++ more) [] = .ok f) :
    FrameTable.enter code starts types none frames [.append offset more] =
      .ok (frames.setIfInBounds offset.toNat (some f)) := by
  have hsome : (indexAt starts offset.toNat).isNone = false := by
    rw [hindex]
    rfl
  have hoffset : (FrameDelta.append offset more).offsetAfter none = offset.toNat := rfl
  unfold FrameTable.enter
  dsimp only [FrameDelta.applyTo]
  rw [hoffset, hsome, if_neg Bool.false_ne_true, hlayout]
  rfl

/-- **Straight code is accepted**: no jumps, no declared frames, and the last instruction does not
    let control go on. -/
theorem check_straight {bs : List UInt8} {last : Decoded} {entry : Frame}
    (hbytes : s.code.bytes = CodeText.bytes (t ++ [(bs, last)])) (hmap : s.code.stackMap = [])
    (hspelled : CodeText.Spelled (CodeText.bytes (t ++ [(bs, last)])).length 0 (t ++ [(bs, last)]))
    (htargets : ∀ e ∈ t ++ [(bs, last)], e.2.target? = none)
    (hentry : Frame.layOut s.code (s.file.entryTypes s.method) [] = .ok entry)
    (hleads : ∀ frames, s.Leads frames t entry f)
    (hcheck : ∀ frames pc, s.checkInstr frames f pc last = .ok g)
    (hlast : last.isUnconditional = true) :
    s.check = .ok (CodeText.listing 0 (t ++ [(bs, last)])) := by
  have hdecode := CodeText.decode_bytes hspelled fun e he target htarget => by
    rw [htargets e he] at htarget
    cases htarget
  have hframes : s.file.declaredFrames s.method s.code (CodeText.listing 0 (t ++ [(bs, last)])) =
      .ok (Array.replicate s.code.bytes.length none) := by
    unfold ClassFile.declaredFrames
    rw [hmap]
    rfl
  refine check_bytes hbytes hdecode hframes hentry ?_
  have hspaced : CodeText.Spaced t := fun e he =>
    CodeText.spaced_of_spelled hspelled e (List.mem_append_left _ he)
  have hat : ∀ pc, s.frameAt (Array.replicate s.code.bytes.length none) (some f) pc = .ok f := by
    intro pc
    unfold frameAt
    rw [at?_replicate]
  rw [CodeText.listing_append, (hleads _).passes hspaced fun o _ _ => at?_replicate _ o]
  exact checkFrom_last (hat _) (hcheck _ _) hlast

end Subject

/-! ## 4. Binding -/

/-- Each bound instruction where the one it comes from stands. -/
def CodeText.boundAt : Nat → CodeText → List Bound → List (Nat × Bound)
  | pc, (bs, _) :: t, b :: rest => (pc, b) :: boundAt (pc + bs.length) t rest
  | _, _, _ => []

theorem CodeText.map_boundAt {pc : Nat} {t : CodeText} {bound : List Bound}
    (h : bound.length = t.length) : (boundAt pc t bound).map Prod.snd = bound := by
  induction t generalizing pc bound with
  | nil => rw [List.length_eq_zero_iff.mp h]; rfl
  | cons e t ih =>
    obtain ⟨b, rest, rfl⟩ := List.exists_cons_of_length_eq_add_one h
    obtain ⟨bs, instr⟩ := e
    rw [boundAt, List.map_cons, ih (Nat.succ.inj h)]

/-- What the instructions of a text are bound to, wherever they stand. -/
def Subject.Binds (s : Subject) (starts : Array (Option Nat)) (t : CodeText) (bound : List Bound) :
    Prop :=
  List.Forall₂ (fun e b => ∀ pc, ClassFile.bindInstr s starts pc (Prod.snd e) = .ok b) t bound

theorem Subject.Binds.append {s : Subject} {starts : Array (Option Nat)} {t u : CodeText}
    {b c : List Bound} (ht : s.Binds starts t b) (hu : s.Binds starts u c) :
    s.Binds starts (t ++ u) (b ++ c) :=
  List.rel_append ht hu

theorem ClassFile.bindAll_listing {s : Subject} {starts : Array (Option Nat)} {t : CodeText}
    {bound : List Bound} (h : s.Binds starts t bound) (pc : Nat) (acc : Array (Nat × Bound)) :
    bindAll s starts acc (CodeText.listing pc t) =
      .ok (acc ++ (CodeText.boundAt pc t bound).toArray) := by
  induction h generalizing pc acc with
  | nil => simp [CodeText.listing, CodeText.boundAt, bindAll]
  | @cons e b t bound hb _ ih =>
    obtain ⟨bs, instr⟩ := e
    rw [CodeText.listing, bindAll, hb pc]
    dsimp only
    rw [ih, CodeText.boundAt]
    simp

/-- **A method whose code passes and is bound, is linked.** -/
theorem ClassFile.linkMethod_eq {file : ClassFile} {m : MethodDecl} {code : CodeBody} {t : CodeText}
    {bound : List Bound} (hcode : m.code = some code) (hbytes : code.bytes = CodeText.bytes t)
    (hcheck : (Subject.mk file m code).check = .ok (CodeText.listing 0 t))
    (hbinds : (Subject.mk file m code).Binds
      (Listing.indexTable (CodeText.bytes t).length (CodeText.listing 0 t)) t bound) :
    file.linkMethod m = .ok ⟨m.name, m.descriptor, m.type, m.flags.isStatic,
      some ⟨code.maxStack, code.maxLocals, (CodeText.boundAt 0 t bound).toArray⟩⟩ := by
  have hbind : bindCode ⟨file, m, code⟩ (CodeText.listing 0 t) =
      .ok ⟨code.maxStack, code.maxLocals, (CodeText.boundAt 0 t bound).toArray⟩ := by
    rw [bindCode, hbytes, bindAll_listing hbinds]
    simp
  unfold linkMethod
  rw [hcode]
  dsimp only
  rw [hcheck]
  dsimp only
  rw [hbind]

end Collation
