/-
  File:      Collation/Proofs/Assembler/Emission.lean
  Subject:   Code that is emitted call by call, and what reading it gives.

  While the code of a method is open, each call emits one instruction or places a jump.  A jump is
  emitted with an open operand; the site that it leaves is used up when it is placed, in any order
  and any number of calls later.  Whatever the order, the code is read as one instruction per
  emitting call, each where it was emitted.

  * `Request.instr?` -- what a call is read as;
  * `Session.Writes` -- calls in an open code, with the sites that the caller holds;
  * `Session.Draft` -- the invariant: the code so far, with the jumps that are placed;
  * **`Assembly.decode_emitted`** -- the emitted code is read as the instructions that were emitted.
-/
import Collation.Assembler.Request
import Collation.Proofs.Assembler.Writing
import Collation.Proofs.Code.Spelling

namespace Collation

/-! ## 1. What a call is read as -/

namespace Request

/-- The instruction that a request emits, jumps left aside.  Of a constant the low sixteen bits are
    kept, with their sign. -/
def instr? : Request → Option Decoded
  | .op opcode => Opcode.plain.lookup opcode
  | .pushInt value => some (.push value.toInt16.toInt32)
  | .iload slot => some (.iload slot.toNat)
  | .istore slot => some (.istore slot.toNat)
  | .aload slot => some (.aload slot.toNat)
  | .getField field => some (.getfield field)
  | .putField field => some (.putfield field)
  | .invokeInterface method slots =>
    if slots = 0 then none else some (.invokeinterface ⟨method, some slots⟩)
  | _ => none

/-- The bytes that a request appends to the code, jumps left aside. -/
def bytes : Request → List UInt8
  | .op opcode => [opcode]
  | .pushInt value => Encode.pushInt value
  | .iload slot => Encode.iload slot
  | .istore slot => Encode.istore slot
  | .aload slot => Encode.aload slot
  | .getField field => Encode.getfield field
  | .putField field => Encode.putfield field
  | .invokeInterface method slots => Encode.invokeinterface method slots
  | .putU8 value => [value]
  | .putU16 value => Word.bytes16 value
  | .putI16 value => Word.bytes16 value.toUInt16
  | .putU32 value => Word.bytes32 value
  | _ => []

/-- The request places a jump. -/
def isPlacement : Request → Bool
  | .placeJump _ => true
  | _ => false

variable {request : Request} {instr : Decoded}

theorem perform_of_instr (h : request.instr? = some instr) :
    Assembly.perform request = Assembly.done (Assembly.emit request.bytes) := by
  cases request with
  | op _ | pushInt _ | iload _ | istore _ | aload _ | getField _ | putField _ => rfl
  | invokeInterface _ _ => rfl
  | _ => cases h

theorem isPlacement_of_instr (h : request.instr? = some instr) : request.isPlacement = false := by
  cases request with
  | placeJump _ => cases h
  | _ => rfl

end Request

namespace Code

variable {size pc : Nat}

theorem spells_plain {opcode : UInt8} {instr : Decoded} (h : Opcode.plain.lookup opcode = some instr) :
    Spells size pc [opcode] instr :=
  spells_single (decodeOne_plain (mem_of_lookup h))

theorem spells_branch {opcode : UInt8} {make : Nat → Decoded}
    (h : Opcode.branches.lookup opcode = some make) {delta : Nat} (hreach : delta ≤ 32767)
    (hsize : pc + delta < size) :
    Spells size pc (opcode :: Word.bytes16 (UInt16.ofNat delta)) (make (pc + delta)) := by
  refine ⟨_, _, rfl, fun rest => ?_⟩
  rw [decodeOne_branch (mem_of_lookup h)]
  exact withJump_bytes16 hreach hsize rest make

/-- A request is spelled as it is read. -/
theorem spells_instr {request : Request} {instr : Decoded} (h : request.instr? = some instr) :
    Spells size pc request.bytes instr := by
  cases request with
  | op opcode => exact spells_plain h
  | pushInt value =>
    cases h
    exact spells_pushLow value
  | iload slot =>
    cases h
    exact spells_iload slot
  | istore slot =>
    cases h
    exact spells_istore slot
  | aload slot =>
    cases h
    exact spells_aload slot
  | getField field =>
    cases h
    exact spells_getfield field
  | putField field =>
    cases h
    exact spells_putfield field
  | invokeInterface method slots =>
    rw [Request.instr?] at h
    by_cases hslots : slots = 0
    · rw [if_pos hslots] at h
      cases h
    · rw [if_neg hslots] at h
      cases h
      exact spells_invokeinterface method hslots
  | _ => cases h

end Code

/-! ## 2. Calls in an open code -/

open Assembly

/-- A call: the offset in the code at which it was made, what was asked and what was answered. -/
structure CodeCall where
  offset : Nat
  request : Request
  reply : Reply
  deriving DecidableEq, Repr

/-- **Calls one after the other while the code of a method is open**, with the jump sites that the
    caller holds before and after them.  Each call comes with the offset that the session reports
    before it.  A jump hands out a site; placing the jump uses the site up. -/
inductive Session.Writes :
    Session → List JumpSite → List CodeCall → Session → List JumpSite → Prop where
  | done (s : Session) (held : List JumpSite) : Writes s held [] s held
  | emit {s t u : Session} {held left : List JumpSite} {offset : Nat} {request : Request}
      {instr : Decoded} {reply : Reply} {rest : List CodeCall}
      (hoffset : Runs codeOffset s offset s) (hinstr : request.instr? = some instr)
      (hcall : Runs (perform request) s reply t) (hrest : Writes t held rest u left) :
      Writes s held (⟨offset, request, reply⟩ :: rest) u left
  | jump {s t u : Session} {held left : List JumpSite} {offset : Nat} {opcode : UInt8}
      {make : Nat → Decoded} {site : JumpSite} {rest : List CodeCall}
      (hoffset : Runs codeOffset s offset s) (hmake : Opcode.branches.lookup opcode = some make)
      (hcall : Runs (perform (.jump opcode)) s (.site site) t)
      (hrest : Writes t (site :: held) rest u left) :
      Writes s held (⟨offset, .jump opcode, .site site⟩ :: rest) u left
  | place {s t u : Session} {held left : List JumpSite} {offset target : Nat} {site : JumpSite}
      {rest : List CodeCall} (hoffset : Runs codeOffset s offset s) (hheld : site ∈ held)
      (hcall : Runs (perform (.placeJump site)) s (.offset target) t)
      (hrest : Writes t (held.erase site) rest u left) :
      Writes s held (⟨offset, .placeJump site, .offset target⟩ :: rest) u left

/-- Every placing of a jump is followed by an emitted instruction. -/
def CodeCall.FollowedUp (calls : List CodeCall) : Prop :=
  ∀ before place after, calls = before ++ place :: after → place.request.isPlacement = true →
    ∃ call ∈ after, call.request.isPlacement = false

/-- Calls that end with an emitted instruction. -/
theorem CodeCall.followedUp_concat {calls : List CodeCall} {last : CodeCall}
    (h : last.request.isPlacement = false) : FollowedUp (calls ++ [last]) := by
  intro before place after hcalls hplace
  have hlast := congrArg List.getLast? hcalls
  rcases List.eq_nil_or_concat after with rfl | ⟨init, call, rfl⟩
  · rw [List.getLast?_concat, List.getLast?_concat] at hlast
    cases hlast
    exact absurd (hplace.symm.trans h) Bool.noConfusion
  · rw [List.concat_eq_append] at hlast ⊢
    rw [List.getLast?_concat, ← List.cons_append, ← List.append_assoc, List.getLast?_concat] at hlast
    cases hlast
    exact ⟨last, List.mem_append_right _ List.mem_cons_self, h⟩

/-- **What a call is read as**: the instruction that it emitted, at the offset at which it was made;
    a jump leads where it was placed, and it was placed nowhere else. -/
inductive CodeCall.ReadAs (calls : List CodeCall) : CodeCall → Nat × Decoded → Prop where
  | instr (offset : Nat) {request : Request} {instr : Decoded} (h : request.instr? = some instr) :
    ReadAs calls ⟨offset, request, .done⟩ (offset, instr)
  | jump (offset : Nat) {opcode : UInt8} {make : Nat → Decoded} {site : JumpSite} {place target : Nat}
      (h : Opcode.branches.lookup opcode = some make)
      (hplaced : ⟨place, .placeJump site, .offset target⟩ ∈ calls)
      (honly : ∀ call ∈ calls, call.request = .placeJump site → call.reply = .offset target) :
    ReadAs calls ⟨offset, .jump opcode, .site site⟩ (offset, make target)

/-! ## 3. Operations of a session with open code -/

namespace Assembly

theorem Runs.done {x : Assembly Unit} {s t : Session} (h : Runs x s () t) :
    Runs (done x) s .done t := by
  show EStateM.seqRight x (fun _ => pure Reply.done) s = _
  unfold EStateM.seqRight
  rw [h]
  rfl

end Assembly

namespace Session

/-- A session inside the code of a method.  What stands before the code ends with the field for the
    length of the code. -/
structure Opened (front code : List UInt8) (s : Session) : Prop where
  buffer_eq : s.buffer = .ofList (front ++ code)
  method_eq : ∃ attributeLength,
    s.method = some ⟨attributeLength, some ⟨front.length - 4⟩, front.length⟩
  room : 4 ≤ front.length

namespace Opened

variable {front code : List UInt8} {s t : Session}

theorem position_eq (h : s.Opened front code) : s.position = front.length + code.length := by
  rw [Session.position, h.buffer_eq, Buffer.position_ofList, List.length_append]

theorem openCode_eq (h : s.Opened front code) : ∃ attributeLength, s.openCode =
    .ok (⟨attributeLength, some ⟨front.length - 4⟩, front.length⟩, ⟨front.length - 4⟩) := by
  obtain ⟨attributeLength, hm⟩ := h.method_eq
  refine ⟨attributeLength, ?_⟩
  rw [openCode, openMethod, hm]

theorem runs_codeOffset (h : s.Opened front code) : Runs codeOffset s code.length s := by
  obtain ⟨attributeLength, ho⟩ := h.openCode_eq
  unfold Runs codeOffset
  rw [ho]
  dsimp only
  rw [h.position_eq, if_pos (Nat.le_add_right _ _), Nat.add_sub_cancel_left]

theorem runs_emit (h : s.Opened front code) (vs : List UInt8) :
    ∃ t, Runs (emit vs) s () t ∧ t.Opened front (code ++ vs) := by
  obtain ⟨attributeLength, ho⟩ := h.openCode_eq
  obtain ⟨buffer, count, stage, std, method⟩ := s
  obtain rfl : buffer = .ofList (front ++ code) := h.buffer_eq
  refine ⟨⟨.ofList (front ++ code ++ vs), count, stage, std, method⟩, ?_, ?_, h.method_eq, h.room⟩
  · unfold Runs emit
    rw [ho]
    exact runs_write
  · rw [List.append_assoc]

theorem runs_jump (h : s.Opened front code) (opcode : UInt8) :
    ∃ t, Runs (jump opcode) s ⟨code.length, front.length + code.length + 1⟩ t ∧
      t.Opened front (code ++ (opcode :: Word.bytes16 0)) := by
  obtain ⟨t, ht, hopened⟩ := h.runs_emit [opcode]
  have hposition : t.position = front.length + code.length + 1 := by
    rw [hopened.position_eq, List.length_append, List.length_singleton, Nat.add_assoc]
  obtain ⟨buffer, count, stage, std, method⟩ := t
  obtain rfl : buffer = .ofList (front ++ (code ++ [opcode])) := hopened.buffer_eq
  refine ⟨⟨.ofList (front ++ (code ++ [opcode]) ++ Word.bytes16 0), count, stage, std, method⟩,
    ?_, ?_, hopened.method_eq, hopened.room⟩
  · unfold jump
    refine h.runs_codeOffset.bind (ht.bind ((runs_get _).bind ?_))
    rw [hposition]
    exact runs_write.bind (runs_pure _ _)
  · simp only [List.append_assoc, List.cons_append, List.nil_append]

/-- Placing a jump that is in the code so far. -/
theorem placed {before operand after : List UInt8} {opcode : UInt8} {target : Nat}
    (h : s.Opened front (before ++ (opcode :: operand ++ after))) (hoperand : operand.length = 2)
    (hrun : Runs (placeJump ⟨before.length, front.length + before.length + 1⟩) s target t) :
    target = (before ++ (opcode :: operand ++ after)).length ∧ target - before.length ≤ maxJump ∧
      t.Opened front (before ++
        (opcode :: Word.bytes16 (UInt16.ofNat (target - before.length)) ++ after)) := by
  have hlength : (before ++ (opcode :: operand ++ after)).length = before.length + (3 + after.length) := by
    simp only [List.length_append, List.length_cons, hoperand]
  have hplace : placeJump ⟨before.length, front.length + before.length + 1⟩ s = .ok target t := hrun
  unfold placeJump at hplace
  rw [h.runs_codeOffset.bind_eq] at hplace
  dsimp only at hplace
  rw [if_neg (by omega)] at hplace
  by_cases hfar : maxJump < (before ++ (opcode :: operand ++ after)).length - before.length
  · rw [if_pos hfar] at hplace
    cases hplace
  · rw [if_neg hfar] at hplace
    obtain ⟨buffer, count, stage, std, method⟩ := s
    obtain rfl : buffer = .ofList (front ++ (before ++ (opcode :: operand ++ after))) := h.buffer_eq
    have hbytes : ∀ w : List UInt8, front ++ (before ++ (opcode :: w ++ after)) =
        (front ++ (before ++ [opcode])) ++ (w ++ after) := by
      intro w
      simp only [List.append_assoc, List.cons_append, List.nil_append]
    have hwrite : Runs (overwrite (front.length + before.length + 1) (Word.bytes16 (UInt16.ofNat
          ((before ++ (opcode :: operand ++ after)).length - before.length))))
        ⟨.ofList (front ++ (before ++ (opcode :: operand ++ after))), count, stage, std, method⟩ ()
        ⟨.ofList (front ++ (before ++ (opcode :: Word.bytes16 (UInt16.ofNat
          ((before ++ (opcode :: operand ++ after)).length - before.length)) ++ after))),
          count, stage, std, method⟩ := by
      rw [hbytes, hbytes]
      refine runs_overwrite ?_ hoperand
      simp only [List.length_append, List.length_cons, List.length_nil]
      omega
    have hreturn := (hwrite.bind_eq fun _ => (pure _ : Assembly Nat)).symm.trans hplace
    cases hreturn
    exact ⟨rfl, Nat.le_of_not_lt hfar, rfl, h.method_eq, h.room⟩

theorem spanTo_eq (h : s.Opened front code) :
    (Reserved32.mk (front.length - 4)).spanTo s.position = some code.length := by
  have hroom := h.room
  rw [h.position_eq]
  unfold Reserved32.spanTo
  dsimp only
  rw [if_pos (by omega)]
  congr 1
  omega

/-- Closing the code leaves it as it is. -/
theorem drop_bytes_of_endCode (h : s.Opened front code) (hrun : Runs endCode s () t) :
    t.bytes.drop front.length = code := by
  obtain ⟨attributeLength, ho⟩ := h.openCode_eq
  have hroom := h.room
  have hend : endCode s = .ok () t := hrun
  unfold endCode at hend
  rw [ho] at hend
  dsimp only at hend
  rw [h.spanTo_eq] at hend
  dsimp only at hend
  by_cases hempty : code.length = 0
  · rw [if_pos hempty] at hend
    cases hend
  rw [if_neg hempty] at hend
  by_cases hlimit : codeLimit ≤ code.length
  · rw [if_pos hlimit] at hend
    cases hend
  rw [if_neg hlimit] at hend
  obtain ⟨buffer, count, stage, std, method⟩ := s
  obtain rfl : buffer = .ofList (front ++ code) := h.buffer_eq
  have hsplit : front ++ code =
      front.take (front.length - 4) ++ (front.drop (front.length - 4) ++ code) := by
    rw [← List.append_assoc, List.take_append_drop]
  have htake : (front.take (front.length - 4)).length = front.length - 4 := by
    rw [List.length_take]
    omega
  have hfield : (front.drop (front.length - 4)).length = 4 := by
    rw [List.length_drop]
    omega
  rw [hsplit] at hend
  have hwrite := (runs_overwrite htake.symm hfield).symm.trans hend
  cases hwrite
  show (front.take (front.length - 4) ++ (Word.bytes32 _ ++ code)).drop front.length = code
  rw [← List.append_assoc]
  refine List.drop_left' ?_
  rw [List.length_append, htake, Word.length_bytes32]
  omega

end Opened

/-- A method that is opened has no code yet. -/
theorem opened_of_beginMethod {s t : Session} {flags : MethodFlags}
    {name descriptor maxStack maxLocals : UInt16}
    (hrun : Runs (beginMethod flags name descriptor maxStack maxLocals) s () t) :
    t.Opened t.bytes [] := by
  obtain ⟨buffer, count, stage, std, method⟩ := s
  cases method with
  | some m =>
    have hfailed : EStateM.Result.error _ _ = EStateM.Result.ok () t := hrun
    cases hfailed
  | none =>
    cases std with
    | none =>
      have hfailed : EStateM.Result.error _ _ = EStateM.Result.ok () t := hrun
      cases hfailed
    | some std =>
      obtain ⟨l, rfl⟩ : ∃ l, buffer = .ofList l := ⟨buffer.toList, rfl⟩
      obtain ⟨-, rfl⟩ := Runs.unique runs_openMethod hrun
      have hlength : (l ++ MethodText.head std.codeAttribute
          ⟨flags, name, descriptor, maxStack, maxLocals, [], none⟩ 0 0).length = l.length + 22 := by
        simp only [MethodText.head, List.length_append, Word.length_bytes16, Word.length_bytes32]
      refine ⟨?_, ⟨⟨l.length + 10⟩, ?_⟩, ?_⟩
      · rw [List.append_nil]
        rfl
      · rw [Session.bytes, Buffer.toList_ofList, hlength]
        rfl
      · rw [Session.bytes, Buffer.toList_ofList, hlength]
        omega

end Session

/-! ## 4. The code that calls leave -/

namespace CodeCall

/-- The piece of code that a call leaves, if the jump of each site leads to `leads`.  A jump that is
    not placed leads to itself. -/
def piece? (leads : JumpSite → Nat) (call : CodeCall) : Option (List UInt8 × Decoded) :=
  match call.reply, call.request with
  | .site site, .jump opcode => (Opcode.branches.lookup opcode).map fun make =>
    (opcode :: Word.bytes16 (UInt16.ofNat (leads site - site.instructionOffset)), make (leads site))
  | _, request => request.instr?.map fun instr => (request.bytes, instr)

/-- The code that calls leave. -/
def text (leads : JumpSite → Nat) (calls : List CodeCall) : CodeText :=
  calls.filterMap (piece? leads)

/-- How long the code is that calls leave. -/
def extent (calls : List CodeCall) : Nat :=
  (CodeText.bytes (text JumpSite.instructionOffset calls)).length

/-- A call that is made and answered as at the offset `offset` of a code that begins at `base`. -/
inductive Made (base offset : Nat) : CodeCall → Prop where
  | instr {request : Request} {instr : Decoded} (h : request.instr? = some instr) :
    Made base offset ⟨offset, request, .done⟩
  | jump {opcode : UInt8} {make : Nat → Decoded} (h : Opcode.branches.lookup opcode = some make) :
    Made base offset ⟨offset, .jump opcode, .site ⟨offset, base + offset + 1⟩⟩
  | place {site : JumpSite} (hbehind : site.instructionOffset < offset)
      (hreach : offset - site.instructionOffset ≤ maxJump) :
    Made base offset ⟨offset, .placeJump site, .offset offset⟩

/-- Calls that are made one after the other, from the offset `offset` on. -/
def MadeFrom (base : Nat) : Nat → List CodeCall → Prop
  | _, [] => True
  | offset, call :: rest => call.Made base offset ∧ MadeFrom base (offset + extent [call]) rest

variable {leads : JumpSite → Nat} {base offset : Nat} {call : CodeCall} {calls before after : List CodeCall}

theorem text_append (leads : JumpSite → Nat) (before after : List CodeCall) :
    text leads (before ++ after) = text leads before ++ text leads after :=
  List.filterMap_append

theorem piece_instr {request : Request} {instr : Decoded} (h : request.instr? = some instr) :
    piece? leads ⟨offset, request, .done⟩ = some (request.bytes, instr) := by
  show request.instr?.map _ = _
  rw [h]
  rfl

theorem piece_jump {opcode : UInt8} {make : Nat → Decoded} {site : JumpSite}
    (h : Opcode.branches.lookup opcode = some make) :
    piece? leads ⟨offset, .jump opcode, .site site⟩ =
      some (opcode :: Word.bytes16 (UInt16.ofNat (leads site - site.instructionOffset)),
        make (leads site)) := by
  show (Opcode.branches.lookup opcode).map _ = _
  rw [h]
  rfl

theorem text_cons_instr {request : Request} {instr : Decoded} (h : request.instr? = some instr) :
    text leads (⟨offset, request, .done⟩ :: calls) = (request.bytes, instr) :: text leads calls :=
  List.filterMap_cons_some (piece_instr h)

theorem text_cons_jump {opcode : UInt8} {make : Nat → Decoded} {site : JumpSite}
    (h : Opcode.branches.lookup opcode = some make) :
    text leads (⟨offset, .jump opcode, .site site⟩ :: calls) =
      (opcode :: Word.bytes16 (UInt16.ofNat (leads site - site.instructionOffset)),
        make (leads site)) :: text leads calls :=
  List.filterMap_cons_some (piece_jump h)

theorem text_cons_place {site : JumpSite} {target : Nat} :
    text leads (⟨offset, .placeJump site, .offset target⟩ :: calls) = text leads calls :=
  rfl

/-- Only where the jumps of the calls lead makes a difference. -/
theorem text_congr {other : JumpSite → Nat}
    (h : ∀ call ∈ calls, ∀ site, call.reply = .site site → leads site = other site) :
    text leads calls = text other calls := by
  refine List.filterMap_congr fun call hcall => ?_
  obtain ⟨offset, request, reply⟩ := call
  cases reply with
  | site site =>
    cases request with
    | jump opcode =>
      unfold piece?
      dsimp only
      rw [h _ hcall site rfl]
    | _ => rfl
  | _ => rfl

/-- Where jumps lead makes no difference to the length of the code. -/
theorem length_bytes_text (leads : JumpSite → Nat) (calls : List CodeCall) :
    (CodeText.bytes (text leads calls)).length = extent calls := by
  induction calls with
  | nil => rfl
  | cons call calls ih =>
    have hone : (CodeText.bytes (text leads [call])).length = extent [call] := by
      obtain ⟨offset, request, reply⟩ := call
      cases reply with
      | site site =>
        cases request with
        | jump opcode =>
          cases hmake : Opcode.branches.lookup opcode with
          | none =>
            simp only [extent, text, piece?, hmake, Option.map_none, List.filterMap_cons_none,
              List.filterMap_nil]
          | some make =>
            rw [extent, text_cons_jump hmake, text_cons_jump hmake]
            simp only [text, CodeText.bytes, List.flatMap_cons, List.filterMap_nil, List.flatMap_nil,
              List.append_nil, List.length_cons, Word.length_bytes16]
        | _ => rfl
      | _ => rfl
    have hsplit : ∀ other : JumpSite → Nat,
        (CodeText.bytes (text other (call :: calls))).length =
          (CodeText.bytes (text other [call])).length + (CodeText.bytes (text other calls)).length := by
      intro other
      rw [← List.singleton_append, text_append, CodeText.bytes_append, List.length_append]
    rw [hsplit, hone, ih]
    exact (hsplit _).symm

theorem extent_append (before after : List CodeCall) :
    extent (before ++ after) = extent before + extent after := by
  rw [extent, text_append, CodeText.bytes_append, List.length_append]
  rfl

theorem extent_cons (call : CodeCall) (calls : List CodeCall) :
    extent (call :: calls) = extent [call] + extent calls :=
  extent_append [call] calls

theorem extent_instr {request : Request} {instr : Decoded} (h : request.instr? = some instr) :
    extent [⟨offset, request, .done⟩] = request.bytes.length := by
  rw [extent, text_cons_instr h]
  simp only [text, CodeText.bytes, List.flatMap_cons, List.filterMap_nil, List.flatMap_nil,
    List.append_nil]

theorem extent_jump {opcode : UInt8} {make : Nat → Decoded} {site : JumpSite}
    (h : Opcode.branches.lookup opcode = some make) :
    extent [⟨offset, .jump opcode, .site site⟩] = 3 := by
  rw [extent, text_cons_jump h]
  simp only [text, CodeText.bytes, List.flatMap_cons, List.filterMap_nil, List.flatMap_nil,
    List.append_nil, List.length_cons, Word.length_bytes16]

/-! ## 5. Calls one after the other -/

theorem madeFrom_append :
    MadeFrom base offset (before ++ after) ↔
      MadeFrom base offset before ∧ MadeFrom base (offset + extent before) after := by
  induction before generalizing offset with
  | nil => exact ⟨fun h => ⟨trivial, h⟩, fun h => h.2⟩
  | cons call before ih =>
    rw [List.cons_append, MadeFrom, MadeFrom, ih, and_assoc, extent_cons call before, Nat.add_assoc]

theorem madeFrom_snoc :
    MadeFrom base offset (before ++ [call]) ↔
      MadeFrom base offset before ∧ call.Made base (offset + extent before) := by
  rw [madeFrom_append, MadeFrom, MadeFrom, and_true]

theorem MadeFrom.made_of_mem (h : MadeFrom base offset calls) (hcall : call ∈ calls) :
    ∃ before after, calls = before ++ call :: after ∧ call.Made base (offset + extent before) := by
  obtain ⟨before, after, rfl⟩ := List.append_of_mem hcall
  exact ⟨before, after, rfl, (madeFrom_append.mp h).2.1⟩

theorem Made.of_placeJump {site : JumpSite} (h : call.Made base offset)
    (hrequest : call.request = .placeJump site) :
    call.reply = .offset offset ∧ site.instructionOffset < offset ∧
      offset - site.instructionOffset ≤ maxJump := by
  cases h with
  | instr hinstr =>
    cases hrequest
    cases hinstr
  | jump _ => cases hrequest
  | place hbehind hreach =>
    cases hrequest
    exact ⟨rfl, hbehind, hreach⟩

/-- Only jumps hand out sites: each the place where its jump stands. -/
theorem MadeFrom.jump_of_reply {site : JumpSite} (h : MadeFrom base offset calls)
    (hcall : call ∈ calls) (hreply : call.reply = .site site) :
    ∃ before opcode make after, Opcode.branches.lookup opcode = some make ∧
      site = ⟨offset + extent before, base + (offset + extent before) + 1⟩ ∧
      calls = before ++ ⟨site.instructionOffset, .jump opcode, .site site⟩ :: after := by
  obtain ⟨before, after, rfl, hmade⟩ := h.made_of_mem hcall
  cases hmade with
  | jump hmake =>
    cases hreply
    exact ⟨before, _, _, after, hmake, rfl, rfl⟩
  | _ => cases hreply

theorem MadeFrom.site_bounds {site : JumpSite} (h : MadeFrom base offset calls)
    (hcall : call ∈ calls) (hreply : call.reply = .site site) :
    offset ≤ site.instructionOffset ∧ site.instructionOffset + 3 ≤ offset + extent calls := by
  obtain ⟨before, opcode, make, after, hmake, hsite, rfl⟩ := h.jump_of_reply hcall hreply
  have hextent : extent (before ++ ⟨site.instructionOffset, .jump opcode, .site site⟩ :: after) =
      extent before + (3 + extent after) := by
    rw [extent_append, extent_cons, extent_jump hmake]
  have hoffset : site.instructionOffset = offset + extent before := by rw [hsite]
  omega

/-- A call that does not place a jump emits something. -/
theorem MadeFrom.extent_pos (h : MadeFrom base offset calls) (hcall : call ∈ calls)
    (hemits : call.request.isPlacement = false) : 0 < extent calls := by
  obtain ⟨before, after, rfl, hmade⟩ := h.made_of_mem hcall
  rw [extent_append, extent_cons]
  cases hmade with
  | @instr request instr hinstr =>
    have hspells : Code.Spells 0 0 request.bytes instr := Code.spells_instr hinstr
    have hpos := hspells.length_pos
    rw [extent_instr hinstr]
    omega
  | jump hmake =>
    rw [extent_jump hmake]
    omega
  | place _ _ => cases hemits

/-- **The code is spelled as it is read**, if its jumps lead forward, and not too far. -/
theorem MadeFrom.spelled {size : Nat} (h : MadeFrom base offset calls)
    (hleads : ∀ call ∈ calls, ∀ site, call.reply = .site site →
      site.instructionOffset < leads site ∧ leads site - site.instructionOffset ≤ maxJump ∧
        leads site < size) :
    CodeText.Spelled size offset (text leads calls) := by
  induction calls generalizing offset with
  | nil => exact trivial
  | cons call calls ih =>
    obtain ⟨hmade, hrest⟩ := h
    have hlater := ih hrest fun c hc => hleads c (List.mem_cons_of_mem call hc)
    cases hmade with
    | instr hinstr =>
      rw [extent_instr hinstr] at hlater
      rw [text_cons_instr hinstr]
      exact ⟨Code.spells_instr hinstr, hlater⟩
    | jump hmake =>
      obtain ⟨hbehind, hreach, hsize⟩ := hleads _ List.mem_cons_self _ rfl
      dsimp only at hbehind hreach
      have htarget : offset + (leads ⟨offset, base + offset + 1⟩ - offset) =
          leads ⟨offset, base + offset + 1⟩ := by omega
      have hwithin : offset + (leads ⟨offset, base + offset + 1⟩ - offset) < size := by omega
      have hspells := Code.spells_branch hmake hreach hwithin
      rw [htarget] at hspells
      rw [extent_jump hmake] at hlater
      rw [text_cons_jump hmake]
      exact ⟨hspells, hlater⟩
    | place _ _ => exact hlater

/-- **Each call is read as it was made**, if the calls place every jump where it leads. -/
theorem MadeFrom.readAs {part : List CodeCall} (h : MadeFrom base offset part)
    (hplaced : ∀ call ∈ part, ∀ site, call.reply = .site site →
      ⟨leads site, .placeJump site, .offset (leads site)⟩ ∈ calls)
    (honly : ∀ call ∈ calls, ∀ site, call.request = .placeJump site →
      call.reply = .offset (leads site)) :
    List.Forall₂ (ReadAs calls) (part.filter fun call => !call.request.isPlacement)
      (CodeText.listing offset (text leads part)) := by
  induction part generalizing offset with
  | nil => exact .nil
  | cons call part ih =>
    obtain ⟨hmade, hrest⟩ := h
    have hlater := ih hrest fun c hc => hplaced c (List.mem_cons_of_mem call hc)
    cases hmade with
    | instr hinstr =>
      rw [extent_instr hinstr] at hlater
      have hemits := Request.isPlacement_of_instr hinstr
      rw [text_cons_instr hinstr, List.filter_cons_of_pos (by rw [hemits, Bool.not_false])]
      exact .cons (.instr offset hinstr) hlater
    | jump hmake =>
      rw [extent_jump hmake] at hlater
      rw [text_cons_jump hmake, List.filter_cons_of_pos rfl]
      exact .cons (.jump offset hmake (hplaced _ List.mem_cons_self _ rfl)
        fun c hc => honly c hc _) hlater
    | place _ _ =>
      rw [List.filter_cons_of_neg (by exact Bool.false_ne_true)]
      exact hlater

end CodeCall

/-! ## 6. What calls keep true of the session -/

/-- **What calls keep true.**  The session has written the code that the calls leave, the jumps of
    placed sites with where they lead; every site that a jump handed out is held or placed, and a
    site that is placed is held no more. -/
structure Session.Draft (front : List UInt8) (leads : JumpSite → Nat) (held : List JumpSite)
    (calls : List CodeCall) (s : Session) : Prop where
  opened : s.Opened front (CodeText.bytes (CodeCall.text leads calls))
  made : CodeCall.MadeFrom front.length 0 calls
  distinct : held.Nodup
  issued : ∀ site ∈ held, ∃ call ∈ calls, call.reply = .site site
  ahead : ∀ site : JumpSite, CodeCall.extent calls ≤ site.instructionOffset →
    leads site = site.instructionOffset
  settled : ∀ call ∈ calls, ∀ site, call.reply = .site site →
    site ∈ held ∨ ⟨leads site, .placeJump site, .offset (leads site)⟩ ∈ calls
  spent : ∀ call ∈ calls, ∀ site, call.request = .placeJump site →
    site ∉ held ∧ call.reply = .offset (leads site)

namespace Session.Draft

open CodeCall

variable {front : List UInt8} {leads : JumpSite → Nat} {held left : List JumpSite}
  {calls later : List CodeCall} {s t : Session}

theorem offset_eq (h : s.Draft front leads held calls) {offset : Nat}
    (hrun : Runs codeOffset s offset s) : offset = extent calls := by
  obtain ⟨heq, -⟩ := Runs.unique hrun h.opened.runs_codeOffset
  rw [heq, length_bytes_text]

theorem issued_append (h : s.Draft front leads held calls) (later : List CodeCall) {site : JumpSite}
    (hsite : site ∈ held) : ∃ call ∈ calls ++ later, call.reply = .site site := by
  obtain ⟨call, hcall, hreply⟩ := h.issued site hsite
  exact ⟨call, List.mem_append_left later hcall, hreply⟩

theorem ahead_append (h : s.Draft front leads held calls) (later : List CodeCall) {site : JumpSite}
    (hsite : extent (calls ++ later) ≤ site.instructionOffset) : leads site = site.instructionOffset := by
  rw [extent_append] at hsite
  exact h.ahead site (Nat.le_of_add_right_le hsite)

theorem settled_append (h : s.Draft front leads held calls) (later : List CodeCall) {call : CodeCall}
    {site : JumpSite} (hcall : call ∈ calls) (hreply : call.reply = .site site) :
    site ∈ held ∨ ⟨leads site, .placeJump site, .offset (leads site)⟩ ∈ calls ++ later :=
  (h.settled call hcall site hreply).imp_right (List.mem_append_left later)

/-- A call that emits an instruction adds the instruction. -/
theorem emit (h : s.Draft front leads held calls) {request : Request} {instr : Decoded}
    {reply : Reply} (hinstr : request.instr? = some instr) (hrun : Runs (perform request) s reply t) :
    reply = .done ∧ t.Draft front leads held (calls ++ [⟨extent calls, request, .done⟩]) := by
  obtain ⟨u, hemit, hopened⟩ := h.opened.runs_emit request.bytes
  rw [Request.perform_of_instr hinstr] at hrun
  obtain ⟨rfl, rfl⟩ := Runs.unique hemit.done hrun
  refine ⟨rfl, ?_, ?_, h.distinct, fun _ => h.issued_append _, fun _ => h.ahead_append _, ?_, ?_⟩
  · rw [text_append, text_cons_instr hinstr, CodeText.bytes_append]
    have hbytes : CodeText.bytes [(request.bytes, instr)] = request.bytes := List.append_nil _
    exact hbytes.symm ▸ hopened
  · rw [madeFrom_snoc, Nat.zero_add]
    exact ⟨h.made, .instr hinstr⟩
  · intro call hcall site hreply
    rcases List.mem_append.mp hcall with hcall | hcall
    · exact h.settled_append _ hcall hreply
    · rw [List.mem_singleton.mp hcall] at hreply
      cases hreply
  · intro call hcall site hrequest
    rcases List.mem_append.mp hcall with hcall | hcall
    · exact h.spent call hcall site hrequest
    · rw [List.mem_singleton.mp hcall] at hrequest
      cases hrequest
      cases hinstr

/-- A jump leaves its site with the caller. -/
theorem jump (h : s.Draft front leads held calls) {opcode : UInt8} {make : Nat → Decoded}
    {site : JumpSite} (hmake : Opcode.branches.lookup opcode = some make)
    (hrun : Runs (perform (.jump opcode)) s (.site site) t) :
    t.Draft front leads (site :: held) (calls ++ [⟨extent calls, .jump opcode, .site site⟩]) := by
  obtain ⟨u, hjump, hopened⟩ := h.opened.runs_jump opcode
  obtain ⟨hsite, rfl⟩ := Runs.unique (hjump.map Reply.site) hrun
  rw [length_bytes_text] at hsite
  cases hsite
  have hopen : leads ⟨extent calls, front.length + extent calls + 1⟩ = extent calls :=
    h.ahead _ (Nat.le_refl _)
  refine ⟨?_, ?_, ?_, ?_, fun _ => h.ahead_append _, ?_, ?_⟩
  · rw [text_append, text_cons_jump hmake, CodeText.bytes_append, hopen, Nat.sub_self]
    have hbytes : CodeText.bytes [(opcode :: Word.bytes16 0, make (extent calls))] =
        opcode :: Word.bytes16 0 := List.append_nil _
    exact hbytes.symm ▸ hopened
  · rw [madeFrom_snoc, Nat.zero_add]
    exact ⟨h.made, .jump hmake⟩
  · refine List.nodup_cons.mpr ⟨fun hheld => ?_, h.distinct⟩
    obtain ⟨call, hcall, hreply⟩ := h.issued _ hheld
    have hbounds := h.made.site_bounds hcall hreply
    dsimp only at hbounds
    omega
  · intro site hsite
    rcases List.mem_cons.mp hsite with rfl | hsite
    · exact ⟨_, List.mem_append_right _ List.mem_cons_self, rfl⟩
    · exact h.issued_append _ hsite
  · intro call hcall site hreply
    rcases List.mem_append.mp hcall with hcall | hcall
    · exact (h.settled_append _ hcall hreply).imp_left (List.mem_cons_of_mem _)
    · rw [List.mem_singleton.mp hcall] at hreply
      cases hreply
      exact .inl List.mem_cons_self
  · intro call hcall site hrequest
    rcases List.mem_append.mp hcall with hcall | hcall
    · obtain ⟨hheld, hreply⟩ := h.spent call hcall site hrequest
      refine ⟨fun hmem => ?_, hreply⟩
      rcases List.mem_cons.mp hmem with rfl | hmem
      · obtain ⟨before, after, hcalls, hmade⟩ := h.made.made_of_mem hcall
        have hbehind := (hmade.of_placeJump hrequest).2.1
        rw [hcalls, extent_append] at hbehind
        dsimp only at hbehind
        omega
      · exact hheld hmem
    · rw [List.mem_singleton.mp hcall] at hrequest
      cases hrequest

/-- Placing a jump makes its operand the way to where the code has come. -/
theorem opened_of_place (h : s.Draft front leads held calls) {site : JumpSite} {target : Nat}
    (hsite : site ∈ held) (hrun : Runs (placeJump site) s target t) :
    target = extent calls ∧ site.instructionOffset < target ∧
      target - site.instructionOffset ≤ maxJump ∧
      t.Opened front (CodeText.bytes (text (Function.update leads site target) calls)) := by
  obtain ⟨call, hcall, hreply⟩ := h.issued site hsite
  have hbounds := h.made.site_bounds hcall hreply
  obtain ⟨before, opcode, make, after, hmake, hat, hcalls⟩ := h.made.jump_of_reply hcall hreply
  obtain ⟨hmadeBefore, -, hmadeAfter⟩ := madeFrom_append.mp (hcalls ▸ h.made)
  rw [extent_jump hmake] at hmadeAfter
  rw [Nat.zero_add] at hat hmadeAfter
  have hoffset : site.instructionOffset = extent before := by rw [hat]
  have hlength : (CodeText.bytes (text leads before)).length = extent before :=
    length_bytes_text leads before
  have hview : ∀ other : JumpSite → Nat, CodeText.bytes (text other calls) =
      CodeText.bytes (text other before) ++
        (opcode :: Word.bytes16 (UInt16.ofNat (other site - site.instructionOffset)) ++
          CodeText.bytes (text other after)) := by
    intro other
    rw [hcalls, text_append, text_cons_jump hmake, CodeText.bytes_append]
    rfl
  -- No other jump of the code has this site: those before it stand before it, those after behind.
  have hbefore : text (Function.update leads site target) before = text leads before := by
    refine text_congr fun other hother site' hreply' => Function.update_of_ne ?_ _ _
    rintro rfl
    have hbound := hmadeBefore.site_bounds hother hreply'
    omega
  have hafter : text (Function.update leads site target) after = text leads after := by
    refine text_congr fun other hother site' hreply' => Function.update_of_ne ?_ _ _
    rintro rfl
    have hbound := hmadeAfter.site_bounds hother hreply'
    omega
  have hopened := h.opened
  rw [hview] at hopened
  rw [hat, ← hlength] at hrun
  obtain ⟨htarget, hreach, hplaced⟩ := hopened.placed rfl hrun
  rw [← hview, length_bytes_text] at htarget
  rw [hlength, ← hoffset] at hreach hplaced
  refine ⟨htarget, by omega, hreach, ?_⟩
  rw [hview, hbefore, hafter, Function.update_self]
  exact hplaced

/-- A placed jump leads to where the code has come. -/
theorem place (h : s.Draft front leads held calls) {site : JumpSite} {target : Nat}
    (hsite : site ∈ held) (hrun : Runs (placeJump site) s target t) :
    t.Draft front (Function.update leads site target) (held.erase site)
      (calls ++ [⟨extent calls, .placeJump site, .offset target⟩]) := by
  obtain ⟨rfl, hbehind, hreach, hopened⟩ := h.opened_of_place hsite hrun
  refine ⟨?_, ?_, h.distinct.erase site,
    fun _ hother => h.issued_append _ (List.mem_of_mem_erase hother), ?_, ?_, ?_⟩
  · rw [text_append, text_cons_place]
    exact (List.append_nil _).symm ▸ hopened
  · rw [madeFrom_snoc, Nat.zero_add]
    exact ⟨h.made, .place hbehind hreach⟩
  · intro other hother
    have hne : other ≠ site := by
      rintro rfl
      rw [extent_append] at hother
      omega
    rw [Function.update_of_ne hne]
    exact h.ahead_append _ hother
  · intro call hcall other hreply
    rcases List.mem_append.mp hcall with hcall | hcall
    · by_cases hother : other = site
      · subst hother
        rw [Function.update_self]
        exact .inr (List.mem_append_right _ List.mem_cons_self)
      · rw [Function.update_of_ne hother]
        exact (h.settled_append _ hcall hreply).imp_left (List.mem_erase_of_ne hother).mpr
    · rw [List.mem_singleton.mp hcall] at hreply
      cases hreply
  · intro call hcall other hrequest
    rcases List.mem_append.mp hcall with hcall | hcall
    · obtain ⟨hheld, hreply⟩ := h.spent call hcall other hrequest
      have hne : other ≠ site := by
        rintro rfl
        exact hheld hsite
      rw [Function.update_of_ne hne]
      exact ⟨fun hmem => hheld (List.mem_of_mem_erase hmem), hreply⟩
    · rw [List.mem_singleton.mp hcall] at hrequest ⊢
      cases hrequest
      rw [Function.update_self]
      exact ⟨h.distinct.not_mem_erase, rfl⟩

end Session.Draft

/-- **A run of calls keeps the draft.** -/
theorem Session.Writes.draft {s t : Session} {held left : List JumpSite} {calls later : List CodeCall}
    {front : List UInt8} {leads : JumpSite → Nat} (hwrites : s.Writes held later t left)
    (h : s.Draft front leads held calls) :
    ∃ leads, t.Draft front leads left (calls ++ later) := by
  induction hwrites generalizing calls leads with
  | done s held => exact ⟨leads, (List.append_nil calls).symm ▸ h⟩
  | emit hoffset hinstr hcall hrest ih =>
    obtain ⟨rfl, hnext⟩ := h.emit hinstr hcall
    rw [h.offset_eq hoffset, List.append_cons]
    exact ih hnext
  | jump hoffset hmake hcall hrest ih =>
    have hnext := h.jump hmake hcall
    rw [h.offset_eq hoffset, List.append_cons]
    exact ih hnext
  | place hoffset hheld hcall hrest ih =>
    obtain ⟨target, hplace, heq⟩ := exists_of_runs_map hcall
    cases heq
    have hnext := h.place hheld hplace
    rw [h.offset_eq hoffset, List.append_cons]
    exact ih hnext

/-! ## 7. Reading the emitted code -/

/-- Only jumps lead somewhere else. -/
theorem Request.target_of_instr {request : Request} {instr : Decoded}
    (h : request.instr? = some instr) : instr.target? = none := by
  cases request with
  | op opcode =>
    exact Opcode.target_of_plain (Code.mem_of_lookup h)
  | invokeInterface method slots =>
    rw [Request.instr?] at h
    by_cases hslots : slots = 0
    · rw [if_pos hslots] at h
      cases h
    · rw [if_neg hslots] at h
      cases h
      rfl
  | pushInt _ | iload _ | istore _ | aload _ | getField _ | putField _ =>
    cases h
    rfl
  | _ => cases h

namespace Session.Draft

open CodeCall

variable {front : List UInt8} {leads : JumpSite → Nat} {calls : List CodeCall} {s : Session}

/-- A site that is not held any more was placed, in front of an instruction. -/
theorem placed (h : s.Draft front leads [] calls) (hfollowed : FollowedUp calls) {call : CodeCall}
    {site : JumpSite} (hcall : call ∈ calls) (hreply : call.reply = .site site) :
    ⟨leads site, .placeJump site, .offset (leads site)⟩ ∈ calls ∧
      site.instructionOffset < leads site ∧ leads site - site.instructionOffset ≤ maxJump ∧
      ∃ before after, text leads calls = text leads before ++ text leads after ∧
        leads site = extent before ∧ 0 < extent after := by
  rcases h.settled call hcall site hreply with hheld | hplaced
  · exact absurd hheld List.not_mem_nil
  obtain ⟨before, after, hcalls, hmade⟩ := h.made.made_of_mem hplaced
  obtain ⟨next, hnext, hemits⟩ := hfollowed before _ after hcalls rfl
  obtain ⟨-, -, hmadeAfter⟩ := madeFrom_append.mp (hcalls ▸ h.made)
  obtain ⟨hoffset, hbehind, hreach⟩ := hmade.of_placeJump rfl
  rw [Nat.zero_add] at hoffset hbehind hreach
  obtain hleads : leads site = extent before := Reply.offset.inj hoffset
  rw [← hleads] at hbehind hreach
  refine ⟨hplaced, hbehind, hreach, before, after, ?_, hleads, hmadeAfter.extent_pos hnext hemits⟩
  rw [hcalls, text_append, text_cons_place]

/-- **The code of a draft is read as its calls were made**, once every jump is placed. -/
theorem decode (h : s.Draft front leads [] calls) (hfollowed : FollowedUp calls) :
    Code.decode (CodeText.bytes (text leads calls)) = .ok (CodeText.listing 0 (text leads calls)) := by
  have hsize := length_bytes_text leads calls
  refine CodeText.decode_bytes ?_ ?_
  · refine h.made.spelled fun call hcall site hreply => ?_
    obtain ⟨-, hbehind, hreach, before, after, htext, hleads, hpos⟩ := h.placed hfollowed hcall hreply
    rw [htext, CodeText.bytes_append, List.length_append, length_bytes_text, length_bytes_text]
    exact ⟨hbehind, hreach, by omega⟩
  · intro e he target htarget
    obtain ⟨call, hcall, hpiece⟩ := List.mem_filterMap.mp he
    obtain ⟨_, _, -, hmade⟩ := h.made.made_of_mem hcall
    cases hmade with
    | instr hinstr =>
      rw [piece_instr hinstr] at hpiece
      cases hpiece
      rw [Request.target_of_instr hinstr] at htarget
      cases htarget
    | jump hmake =>
      rw [piece_jump hmake] at hpiece
      cases hpiece
      rw [Opcode.target_of_branch (Code.mem_of_lookup hmake)] at htarget
      cases htarget
      obtain ⟨-, -, -, before, after, htext, hleads, hpos⟩ := h.placed hfollowed hcall rfl
      refine ⟨text leads before, text leads after, htext, ?_, ?_⟩
      · intro hnil
        have hextent := length_bytes_text leads after
        rw [hnil] at hextent
        exact Nat.ne_of_gt hpos hextent.symm
      · rw [length_bytes_text, hleads]
    | place _ _ => cases hpiece

end Session.Draft

/-- **Emitted code is read as the instructions that were emitted.**  In a method that was just
    opened, let calls emit instructions and jumps, and place every jump where an instruction
    follows; let the code then be closed.  Reading it gives one instruction for each emitting call,
    in order, each at the offset that was reported before the call; a jump leads to the offset that
    was answered when it was placed.  A constant of sixteen bits is read as it is. -/
theorem Assembly.decode_emitted {s₀ s t u : Session} {flags : MethodFlags}
    {name descriptor maxStack maxLocals : UInt16} {calls : List CodeCall}
    (hbegin : Runs (beginMethod flags name descriptor maxStack maxLocals) s₀ () s)
    (hwrites : s.Writes [] calls t []) (hfollowed : CodeCall.FollowedUp calls)
    (hend : Runs endCode t () u) :
    (∃ listing, Code.decode (u.bytes.drop s.position) = .ok listing ∧
      List.Forall₂ (CodeCall.ReadAs calls)
        (calls.filter fun call => !call.request.isPlacement) listing) ∧
    ∀ value : Int32, -32768 ≤ value → value ≤ 32767 →
      (Request.pushInt value).instr? = some (.push value) := by
  have hopened := Session.opened_of_beginMethod hbegin
  have hstart : s.Draft s.bytes JumpSite.instructionOffset [] [] :=
    ⟨hopened, trivial, List.nodup_nil, List.forall_mem_nil _, fun _ _ => rfl, List.forall_mem_nil _,
      List.forall_mem_nil _⟩
  obtain ⟨leads, hdraft⟩ := hwrites.draft hstart
  rw [List.nil_append] at hdraft
  have hcode : u.bytes.drop s.position = CodeText.bytes (CodeCall.text leads calls) :=
    hdraft.opened.drop_bytes_of_endCode hend
  refine ⟨⟨_, hcode ▸ hdraft.decode hfollowed, ?_⟩, ?_⟩
  · exact hdraft.made.readAs
      (fun call hcall site hreply => (hdraft.placed hfollowed hcall hreply).1)
      fun call hcall site hrequest => (hdraft.spent call hcall site hrequest).2
  · intro value hlow hhigh
    rw [Request.instr?, Code.toInt32_toInt16 hlow hhigh]

/-! ## 8. A method with a jump -/

/-- A method that stores a constant, too large for its operand, unless a jump skips the store. -/
def skipping (code : List UInt8) : MethodText := ⟨.public, 3, 4, 1, 3, code, none⟩

/-- Its code, with the operand of the jump. -/
def skippingCode (operand : UInt16) : List UInt8 :=
  [27, 154] ++ Word.bytes16 operand ++ [17, 134, 160, 61, 28, 172]

/-- The session in which it is written, with the code so far. -/
def skippingSession (code : List UInt8) : Session := .coding [] 8 ⟨2, 3, 4, 6, 7⟩ (skipping code)

/-- The calls that write it. -/
def skippingCalls : List CodeCall :=
  [⟨0, .iload 1, .done⟩, ⟨1, .jump (Opcode.ifeq + 1), .site ⟨1, 24⟩⟩,
    ⟨4, .pushInt 100000, .done⟩, ⟨7, .istore 2, .done⟩, ⟨8, .placeJump ⟨1, 24⟩, .offset 8⟩,
    ⟨8, .iload 2, .done⟩, ⟨9, .op Opcode.ireturn, .done⟩]

theorem writes_skipping :
    (skippingSession []).Writes [] skippingCalls (skippingSession (skippingCode 7)) [] := by
  refine .emit runs_codeOffset rfl runs_emit.done ?_
  refine .jump runs_codeOffset rfl (runs_jump.map Reply.site) ?_
  refine .emit runs_codeOffset rfl runs_emit.done ?_
  refine .emit runs_codeOffset rfl runs_emit.done ?_
  have hcode : (skipping ((skippingCode 0).take 8)).code =
      [27] ++ (154 :: Word.bytes16 0 ++ [17, 134, 160, 61]) := rfl
  have hplace : Runs (placeJump ⟨1, 24⟩) (skippingSession ((skippingCode 0).take 8)) 8
      (skippingSession ((skippingCode 7).take 8)) := runs_placeJump (l := []) hcode (by decide)
  refine .place runs_codeOffset List.mem_cons_self (hplace.map Reply.offset) ?_
  refine .emit runs_codeOffset rfl runs_emit.done ?_
  refine .emit runs_codeOffset rfl runs_emit.done ?_
  exact .done _ _

/-- The jump is read with its target, and of the constant the low sixteen bits. -/
theorem Assembly.decode_emitted_skipping :
    Runs (beginMethod .public 3 4 1 3) (.between [] 8 ⟨2, 3, 4, 6, 7⟩) () (skippingSession []) ∧
    (skippingSession []).Writes [] skippingCalls (skippingSession (skippingCode 7)) [] ∧
    CodeCall.FollowedUp skippingCalls ∧
    Runs endCode (skippingSession (skippingCode 7)) ()
      (.coded [] 8 ⟨2, 3, 4, 6, 7⟩ (skipping (skippingCode 7)) []) ∧
    Code.decode (skippingCode 7) = .ok [(0, .iload 1), (1, .ifZero .ne 8), (4, .push (-31072)),
      (7, .istore 2), (8, .iload 2), (9, .ireturn)] ∧
    (∃ listing, Code.decode (skippingCode 7) = .ok listing ∧
      List.Forall₂ (CodeCall.ReadAs skippingCalls)
        (skippingCalls.filter fun call => !call.request.isPlacement) listing) :=
  have hlast : CodeCall.FollowedUp (skippingCalls.take 6 ++ [⟨9, .op Opcode.ireturn, .done⟩]) :=
    CodeCall.followedUp_concat rfl
  have hfollowed : CodeCall.FollowedUp skippingCalls := hlast
  have hend := runs_endCode (m := skipping (skippingCode 7)) (by decide) (by decide)
  ⟨runs_beginMethod, writes_skipping, hfollowed, hend, by decide +kernel,
    (decode_emitted runs_beginMethod writes_skipping hfollowed hend).1⟩

end Collation
