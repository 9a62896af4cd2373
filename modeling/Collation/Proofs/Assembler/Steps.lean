/-
  File:      Collation/Proofs/Assembler/Steps.lean
  Subject:   What one call does to a session.

  There are some thirty calls, and few things that they do: bytes come at the end, a field that was
  written before gets its value, the session moves on from one place of the class to the next.

  * `Session.Step` -- what a call that succeeds can do;
  * **`Assembly.step_of_runs`** -- a call that succeeds is such a step;
  * `Session.Step.stage_cases`, `Session.Step.method_cases` -- how the pool is begun and finished, and
    how methods are opened and closed.
-/
import Collation.Proofs.Assembler.Atomicity

namespace Collation

/-! ## 1. What a call can do -/

/-- What sort of call a request is. -/
inductive Request.Kind where
  /-- It does no more than append bytes, if it succeeds. -/
  | plain
  | header | setup | constant | poolEnd | opening | jump | placement | codeEnd | methodEnd
  | overwriting | clearing
  deriving DecidableEq, Repr

def Request.kind : Request → Kind
  | .beginClass _ => .header
  | .setupPool => .setup
  | .addConstant _ => .constant
  | .finishPool => .poolEnd
  | .beginMethod _ _ _ _ _ => .opening
  | .jump _ => .jump
  | .placeJump _ => .placement
  | .endCode => .codeEnd
  | .endMethod => .methodEnd
  | .overwrite16 _ _ | .overwrite32 _ _ => .overwriting
  | .clear => .clearing
  | _ => .plain

namespace Session

/-- The session with bytes replaced. -/
def patch (s : Session) (p : Nat) (vs : List UInt8) : Session :=
  { s with buffer := s.buffer.replace p vs }

/-- **What a call that succeeds can do**, the clearing of the session left aside.  Of the two requests
    that make calls themselves this is what they do after these calls. -/
inductive Step (s : Session) : Request → Reply → Session → Prop where
  | writes {request : Request} (reply : Reply) (vs : List UInt8) (h : request.kind = .plain) :
    Step s request reply (s.append vs)
  | beginsClass (version : Version) (header : List UInt8) (hlength : header.length = 10)
    (hstage : s.stage = .fresh) :
    Step s (.beginClass version) .done
      { s.append header with stage := .pooling ⟨s.position + 8⟩ }
  | addsConstant (c : Constant) (vs : List UInt8) {field : Reserved16}
    (hstage : s.stage = .pooling field) (hroom : s.poolCount ≠ Assembly.poolLimit) :
    Step s (.addConstant c) (.index (UInt16.ofNat s.poolCount))
      { s.append vs with poolCount := s.poolCount + 1 }
  | setsUp (standard : StandardPool) {field : Reserved16} (hstage : s.stage = .pooling field) :
    Step s .setupPool (.standard standard) { s with standard := some standard }
  | finishesPool {field : Reserved16} (hstage : s.stage = .pooling field) :
    Step s .finishPool .done
      { s.patch field.position (Word.bytes16 (UInt16.ofNat s.poolCount)) with stage := .pooled }
  | opensMethod (flags : MethodFlags) (name descriptor maxStack maxLocals : UInt16)
    (head : List UInt8) (hlength : head.length = 22) (hmethod : s.method = none)
    (hstandard : s.standard.isSome = true) :
    Step s (.beginMethod flags name descriptor maxStack maxLocals) .done
      { s.append head with
        method := some ⟨⟨s.position + 10⟩, some ⟨s.position + 18⟩, s.position + 22⟩ }
  | jumps (opcode : UInt8) {m : OpenMethod} {field : Reserved32} (hmethod : s.method = some m)
    (hfield : m.codeLength = some field) :
    Step s (.jump opcode) (.site ⟨s.position - m.codeStart, s.position + 1⟩)
      (s.append (opcode :: Word.bytes16 0))
  | placesJump (site : JumpSite) {m : OpenMethod} {field : Reserved32} (hmethod : s.method = some m)
    (hfield : m.codeLength = some field)
    (hahead : site.instructionOffset < s.position - m.codeStart)
    (hroom : site.operandPosition + 2 ≤ s.position) :
    Step s (.placeJump site) (.offset (s.position - m.codeStart))
      (s.patch site.operandPosition
        (Word.bytes16 (UInt16.ofNat (s.position - m.codeStart - site.instructionOffset))))
  | closesCode {m : OpenMethod} {field : Reserved32} (hmethod : s.method = some m)
    (hfield : m.codeLength = some field) (hne : s.position - m.codeStart ≠ 0)
    (hlimit : s.position - m.codeStart < Assembly.codeLimit) :
    Step s .endCode .done
      { s.patch field.position (Word.bytes32 (UInt32.ofNat (s.position - m.codeStart))) with
        method := some { m with codeLength := none } }
  | endsMethod {m : OpenMethod} (hmethod : s.method = some m) (hclosed : m.codeLength = none) :
    Step s .endMethod .done
      { s.patch m.attributeLength.position
          (Word.bytes32 (UInt32.ofNat (s.position - m.attributeLength.position - 4))) with
        method := none }
  | overwrites16 (p : Nat) (value : UInt16) (hroom : p + 2 ≤ s.position) :
    Step s (.overwrite16 p value) .done (s.patch p (Word.bytes16 value))
  | overwrites32 (p : Nat) (value : UInt32) (hroom : p + 4 ≤ s.position) :
    Step s (.overwrite32 p value) .done (s.patch p (Word.bytes32 value))

@[simp] theorem position_patch (s : Session) (p : Nat) (vs : List UInt8) :
    (s.patch p vs).position = s.position :=
  s.buffer.position_replace p vs

theorem append_append (s : Session) (vs ws : List UInt8) :
    (s.append vs).append ws = s.append (vs ++ ws) := by
  have hbuffer : (s.buffer.putBytes vs).putBytes ws = s.buffer.putBytes (vs ++ ws) := by
    unfold Buffer.putBytes
    rw [List.foldl_append]
  unfold append
  rw [hbuffer]

/-- Bytes that were just written are replaced. -/
theorem patch_append (s : Session) {x y z vs : List UInt8} {p : Nat} (hp : p = s.position + x.length)
    (hlength : y.length = vs.length) :
    (s.append (x ++ (y ++ z))).patch p vs = s.append (x ++ (vs ++ z)) := by
  have hbuffer : ∀ l, s.buffer.putBytes l = .ofList (s.buffer.toList ++ l) :=
    Buffer.putBytes_ofList s.buffer.toList
  have hposition : p = (s.buffer.toList ++ x).length := by
    rw [hp, List.length_append, Buffer.length_toList]
    rfl
  unfold patch append
  dsimp only
  rw [hbuffer, hbuffer, ← List.append_assoc _ x (y ++ z), ← List.append_assoc _ x (vs ++ z), hposition,
    Buffer.replace_ofList hlength]

end Session

/-! ## 2. Single calls -/

/-- The request makes no calls of its own, and does not clear the session. -/
def Request.isSingle : Request → Bool
  | .setupPool | .defineDefaultConstructor | .clear => false
  | _ => true

namespace Assembly

variable {s t : Session} {reply : Reply}

theorem exists_of_runs_done {x : Assembly Unit} (h : Runs (done x) s reply t) :
    reply = .done ∧ Runs x s () t := by
  have hseq : EStateM.seqRight x (fun _ => pure Reply.done) s = .ok reply t := h
  unfold EStateM.seqRight at hseq
  cases hx : x s with
  | ok a u =>
    rw [hx] at hseq
    cases hseq
    exact ⟨rfl, hx⟩
  | error e u =>
    rw [hx] at hseq
    cases hseq

theorem eq_of_runs_write {vs : List UInt8} (h : Runs (write vs) s () t) : t = s.append vs :=
  (Runs.unique h (runs_append s vs)).2

theorem eq_of_runs_overwrite {p : Nat} {vs : List UInt8} (h : Runs (overwrite p vs) s () t) :
    p + vs.length ≤ s.position ∧ t = s.patch p vs := by
  unfold Runs overwrite at h
  by_cases hp : p + vs.length ≤ s.position
  · rw [if_pos hp] at h
    cases h
    exact ⟨hp, rfl⟩
  · rw [if_neg hp] at h
    cases h

theorem eq_of_runs_fillSpan {r : Reserved32} (h : Runs (fillSpan r) s () t) :
    t = s.patch r.position (Word.bytes32 (UInt32.ofNat (s.position - r.position - 4))) := by
  unfold Runs fillSpan Reserved32.spanTo at h
  by_cases hspan : r.position + 4 ≤ s.position
  · rw [if_pos hspan] at h
    exact (eq_of_runs_overwrite h).2
  · rw [if_neg hspan] at h
    cases h

theorem eq_of_runs_standardPool {std : StandardPool} (h : Runs standardPool s std t) :
    s.standard = some std ∧ s = t := by
  unfold Runs standardPool at h
  cases hstd : s.standard with
  | none =>
    rw [hstd] at h
    cases h
  | some std' =>
    rw [hstd] at h
    cases h
    exact ⟨rfl, rfl⟩

theorem eq_of_runs_emit {vs : List UInt8} (h : Runs (emit vs) s () t) :
    (∃ m field, s.openCode = .ok (m, field)) ∧ t = s.append vs := by
  unfold Runs emit at h
  cases ho : s.openCode with
  | error cause =>
    rw [ho] at h
    cases h
  | ok opened =>
    rw [ho] at h
    exact ⟨⟨opened.1, opened.2, rfl⟩, eq_of_runs_write h⟩

theorem eq_of_runs_codeOffset {k : Nat} (h : Runs codeOffset s k t) :
    ∃ m field, s.openCode = .ok (m, field) ∧ k = s.position - m.codeStart ∧ s = t := by
  unfold Runs codeOffset at h
  cases ho : s.openCode with
  | error cause =>
    rw [ho] at h
    cases h
  | ok opened =>
    obtain ⟨m, field⟩ := opened
    rw [ho] at h
    dsimp only at h
    by_cases hstart : m.codeStart ≤ s.position
    · rw [if_pos hstart] at h
      cases h
      exact ⟨m, field, rfl, rfl, rfl⟩
    · rw [if_neg hstart] at h
      cases h

/-! ### The pool -/

theorem step_of_beginClass {version : Version} (h : Runs (beginClass version) s () t) :
    s.Step (.beginClass version) .done t := by
  obtain ⟨buffer, count, stage, std, method⟩ := s
  cases stage with
  | pooling field => cases h
  | pooled => cases h
  | fresh =>
    cases h
    have hstep := Session.Step.beginsClass (s := ⟨buffer, count, .fresh, std, method⟩) version
      (Word.bytes32 ClassFile.magic ++ Word.bytes16 version.minor ++ Word.bytes16 version.major ++
        Word.bytes16 0) rfl rfl
    rw [← Session.append_append] at hstep
    have hposition : (buffer.putBytes (Word.bytes32 ClassFile.magic ++ Word.bytes16 version.minor ++
        Word.bytes16 version.major)).position = buffer.position + 8 := Buffer.position_putBytes _ _
    rw [hposition]
    exact hstep

theorem step_of_addConstant {c : Constant} {i : UInt16} (h : Runs (addConstant c) s i t) :
    s.Step (.addConstant c) (.index i) t := by
  obtain ⟨buffer, count, stage, std, method⟩ := s
  cases stage with
  | fresh => cases h
  | pooled => cases h
  | pooling field =>
    unfold Runs addConstant at h
    dsimp only at h
    by_cases hfull : count = poolLimit
    · rw [if_pos hfull] at h
      cases h
    · rw [if_neg hfull] at h
      cases hbytes : c.bytes with
      | error fault =>
        rw [hbytes] at h
        cases h
      | ok vs =>
        rw [hbytes] at h
        cases h
        exact .addsConstant c vs rfl hfull

theorem step_of_finishPool (h : Runs finishPool s () t) : s.Step .finishPool .done t := by
  obtain ⟨buffer, count, stage, std, method⟩ := s
  cases stage with
  | fresh => cases h
  | pooled => cases h
  | pooling field =>
    obtain ⟨_, rfl⟩ := eq_of_runs_overwrite h
    exact .finishesPool rfl

/-! ### Methods -/

theorem step_of_beginMethod {flags : MethodFlags} {name descriptor maxStack maxLocals : UInt16}
    (h : Runs (beginMethod flags name descriptor maxStack maxLocals) s () t) :
    s.Step (.beginMethod flags name descriptor maxStack maxLocals) .done t := by
  obtain ⟨buffer, count, stage, std, method⟩ := s
  cases method with
  | some m => cases h
  | none =>
    cases std with
    | none => cases h
    | some std =>
      obtain ⟨_, rfl⟩ := Runs.unique h (runs_openMethod (l := buffer.toList))
      have hstep := Session.Step.opensMethod (s := ⟨buffer, count, stage, some std, none⟩)
        flags name descriptor maxStack maxLocals (MethodText.head std.codeAttribute
          ⟨flags, name, descriptor, maxStack, maxLocals, [], none⟩ 0 0) rfl rfl rfl
      have hbuffer : ∀ vs, buffer.putBytes vs = .ofList (buffer.toList ++ vs) :=
        Buffer.putBytes_ofList buffer.toList
      unfold Session.append at hstep
      rw [hbuffer] at hstep
      rw [Buffer.length_toList]
      exact hstep

theorem step_of_jump {opcode : UInt8} {site : JumpSite} (h : Runs (jump opcode) s site t) :
    s.Step (.jump opcode) (.site site) t := by
  obtain ⟨k, _, hoffset, h⟩ := exists_of_runs_bind h
  obtain ⟨m, field, ho, rfl, rfl⟩ := eq_of_runs_codeOffset hoffset
  obtain ⟨_, u, hemit, h⟩ := exists_of_runs_bind h
  obtain ⟨_, rfl⟩ := eq_of_runs_emit hemit
  obtain ⟨_, _, hget, h⟩ := exists_of_runs_bind h
  obtain ⟨rfl, rfl⟩ := Runs.unique hget (runs_get _)
  obtain ⟨_, _, hwrite, h⟩ := exists_of_runs_bind h
  obtain rfl := eq_of_runs_write hwrite
  obtain ⟨rfl, rfl⟩ := Runs.unique h (runs_pure _ _)
  obtain ⟨hmethod, hfield⟩ := Session.method_of_openCode ho
  rw [Session.append_append, Session.position_append]
  exact .jumps opcode hmethod hfield

theorem step_of_placeJump {site : JumpSite} {target : Nat} (h : Runs (placeJump site) s target t) :
    s.Step (.placeJump site) (.offset target) t := by
  obtain ⟨k, _, hoffset, h⟩ := exists_of_runs_bind h
  obtain ⟨m, field, ho, rfl, rfl⟩ := eq_of_runs_codeOffset hoffset
  obtain ⟨hmethod, hfield⟩ := Session.method_of_openCode ho
  dsimp only at h
  by_cases hback : s.position - m.codeStart ≤ site.instructionOffset
  · rw [if_pos hback] at h
    cases h
  rw [if_neg hback] at h
  by_cases hfar : maxJump < s.position - m.codeStart - site.instructionOffset
  · rw [if_pos hfar] at h
    cases h
  rw [if_neg hfar] at h
  obtain ⟨_, _, hwrite, h⟩ := exists_of_runs_bind h
  obtain ⟨hroom, rfl⟩ := eq_of_runs_overwrite hwrite
  obtain ⟨rfl, rfl⟩ := Runs.unique h (runs_pure _ _)
  exact .placesJump site hmethod hfield (Nat.lt_of_not_le hback) hroom

theorem step_of_endCode (hs : s.Sound) (h : Runs endCode s () t) : s.Step .endCode .done t := by
  cases ho : s.openCode with
  | error cause =>
    unfold Runs endCode at h
    rw [ho] at h
    cases h
  | ok opened =>
    obtain ⟨m, field⟩ := opened
    obtain ⟨hmethod, hfield⟩ := Session.method_of_openCode ho
    unfold Runs at h
    rw [endCode_eq hs ho] at h
    by_cases hne : s.position - m.codeStart = 0
    · rw [if_pos hne] at h
      cases h
    rw [if_neg hne] at h
    by_cases hlimit : codeLimit ≤ s.position - m.codeStart
    · rw [if_pos hlimit] at h
      cases h
    rw [if_neg hlimit] at h
    obtain ⟨_, rfl⟩ := eq_of_runs_overwrite h
    exact .closesCode hmethod hfield hne (Nat.lt_of_not_le hlimit)

theorem step_of_endMethod (h : Runs endMethod s () t) : s.Step .endMethod .done t := by
  unfold Runs endMethod Session.openMethod at h
  cases hmethod : s.method with
  | none =>
    rw [hmethod] at h
    cases h
  | some m =>
    rw [hmethod] at h
    dsimp only at h
    cases hclosed : m.codeLength with
    | some field =>
      rw [hclosed] at h
      cases h
    | none =>
      rw [hclosed] at h
      obtain rfl := eq_of_runs_fillSpan h
      exact .endsMethod hmethod hclosed

/-- A stack map is written with its length left open, and the length is filled in at once. -/
theorem eq_of_runs_appendIntFrame {name target : UInt16} (h : Runs (appendIntFrame name target) s () t) :
    ∃ vs, t = s.append vs := by
  obtain ⟨_, _, hname, h⟩ := exists_of_runs_bind h
  obtain rfl := eq_of_runs_write hname
  obtain ⟨r, _, hreserve, h⟩ := exists_of_runs_bind h
  obtain ⟨rfl, rfl⟩ := Runs.unique (u := (s.append _).append (Word.bytes32 0)) hreserve rfl
  obtain ⟨_, _, hbody, h⟩ := exists_of_runs_bind h
  obtain rfl := eq_of_runs_write hbody
  obtain rfl := eq_of_runs_fillSpan h
  rw [Session.append_append, Session.append_append, List.append_assoc]
  exact ⟨_, s.patch_append (Session.position_append _ _) rfl⟩

/-! ### All of them -/

theorem step_of_write {request : Request} {vs : List UInt8} (hplain : request.kind = .plain)
    (h : Runs (done (write vs)) s reply t) : s.Step request reply t := by
  obtain ⟨rfl, hrun⟩ := exists_of_runs_done h
  obtain rfl := eq_of_runs_write hrun
  exact .writes _ vs hplain

theorem step_of_emit {request : Request} {vs : List UInt8} (hplain : request.kind = .plain)
    (h : Runs (done (emit vs)) s reply t) : s.Step request reply t := by
  obtain ⟨rfl, hrun⟩ := exists_of_runs_done h
  obtain ⟨_, rfl⟩ := eq_of_runs_emit hrun
  exact .writes _ vs hplain

/-- A call that changes nothing. -/
theorem step_of_eq {request : Request} (hplain : request.kind = .plain) (h : t = s) :
    s.Step request reply t := by
  subst h
  exact .writes reply [] hplain

/-- **One call**: if it succeeds, it is a step. -/
theorem step_of_runs (hs : s.Sound) {request : Request} (hsingle : request.isSingle = true)
    (h : Runs (perform request) s reply t) : s.Step request reply t := by
  cases request with
  | setupPool | defineDefaultConstructor | clear => cases hsingle
  | beginClass version =>
    obtain ⟨rfl, hrun⟩ := exists_of_runs_done h
    exact step_of_beginClass hrun
  | addConstant c =>
    obtain ⟨i, hrun, rfl⟩ := exists_of_runs_map h
    exact step_of_addConstant hrun
  | finishPool =>
    obtain ⟨rfl, hrun⟩ := exists_of_runs_done h
    exact step_of_finishPool hrun
  | beginMethod flags name descriptor maxStack maxLocals =>
    obtain ⟨rfl, hrun⟩ := exists_of_runs_done h
    exact step_of_beginMethod hrun
  | jump opcode =>
    obtain ⟨site, hrun, rfl⟩ := exists_of_runs_map h
    exact step_of_jump hrun
  | placeJump site =>
    obtain ⟨target, hrun, rfl⟩ := exists_of_runs_map h
    exact step_of_placeJump hrun
  | endCode =>
    obtain ⟨rfl, hrun⟩ := exists_of_runs_done h
    exact step_of_endCode hs hrun
  | endMethod =>
    obtain ⟨rfl, hrun⟩ := exists_of_runs_done h
    exact step_of_endMethod hrun
  | overwrite16 p value =>
    obtain ⟨rfl, hrun⟩ := exists_of_runs_done h
    obtain ⟨hroom, rfl⟩ := eq_of_runs_overwrite hrun
    exact .overwrites16 p value hroom
  | overwrite32 p value =>
    obtain ⟨rfl, hrun⟩ := exists_of_runs_done h
    obtain ⟨hroom, rfl⟩ := eq_of_runs_overwrite hrun
    exact .overwrites32 p value hroom
  | codeOffset =>
    obtain ⟨_, hrun, rfl⟩ := exists_of_runs_map h
    obtain ⟨_, _, _, _, rfl⟩ := eq_of_runs_codeOffset hrun
    exact step_of_eq rfl rfl
  | byteAt p =>
    obtain ⟨_, hrun, rfl⟩ := exists_of_runs_map h
    unfold Runs byteAt at hrun
    cases hbyte : s.buffer.get? p with
    | none =>
      rw [hbyte] at hrun
      cases hrun
    | some b =>
      rw [hbyte] at hrun
      cases hrun
      exact step_of_eq rfl rfl
  | defineClass flags this =>
    obtain ⟨rfl, hrun⟩ := exists_of_runs_done h
    obtain ⟨std, _, hstandard, hwrite⟩ := exists_of_runs_bind hrun
    obtain ⟨_, rfl⟩ := eq_of_runs_standardPool hstandard
    obtain rfl := eq_of_runs_write hwrite
    exact .writes _ _ rfl
  | declareInterfaces classes =>
    obtain ⟨rfl, hrun⟩ := exists_of_runs_done h
    unfold Runs declareInterfaces at hrun
    by_cases hfits : classes.length ≤ 65535
    · obtain rfl := eq_of_runs_write ((if_pos hfits).symm.trans hrun)
      exact .writes _ _ rfl
    · cases (if_neg hfits).symm.trans hrun
  | defineAttribute name info =>
    obtain ⟨rfl, hrun⟩ := exists_of_runs_done h
    unfold Runs defineAttribute at hrun
    by_cases hfits : info.length ≤ 4294967295
    · obtain rfl := eq_of_runs_write ((if_pos hfits).symm.trans hrun)
      exact .writes _ _ rfl
    · cases (if_neg hfits).symm.trans hrun
  | appendIntFrame name target =>
    obtain ⟨rfl, hrun⟩ := exists_of_runs_done h
    obtain ⟨vs, rfl⟩ := eq_of_runs_appendIntFrame hrun
    exact .writes _ vs rfl
  | op opcode | pushInt value | iload slot | istore slot | aload slot | getField field
  | putField field | invokeInterface method slots => exact step_of_emit rfl h
  | defineClassWithSuper flags this super | declareCount count | defineField flags name descriptor
  | codeAttributes count | putU8 value | putU16 value | putI16 value | putU32 value =>
    exact step_of_write rfl h

end Assembly

/-! ## 3. What a step changes -/

namespace Session

variable {s t : Session} {request : Request} {reply : Reply}

-- How bytes are replaced is no matter here, and unfolding it costs much time.
attribute [local irreducible] Buffer.replace

/-- No step takes bytes away. -/
theorem Step.position_le (h : s.Step request reply t) : s.position ≤ t.position := by
  have happend : ∀ vs, s.position ≤ (s.append vs).position := by
    intro vs
    rw [position_append]
    exact Nat.le_add_right _ _
  have hpatch : ∀ p vs, s.position ≤ (s.patch p vs).position :=
    fun p vs => Nat.le_of_eq (s.position_patch p vs).symm
  cases h with
  | writes _ vs _ => exact happend vs
  | beginsClass _ header _ _ => exact happend header
  | addsConstant _ vs _ _ => exact happend vs
  | setsUp _ _ => exact Nat.le_refl _
  | opensMethod _ _ _ _ _ head _ _ _ => exact happend head
  | jumps opcode _ _ => exact happend (opcode :: Word.bytes16 0)
  | finishesPool _ => exact hpatch _ _
  | placesJump _ _ _ _ _ => exact hpatch _ _
  | closesCode _ _ _ _ => exact hpatch _ _
  | endsMethod _ _ => exact hpatch _ _
  | overwrites16 _ _ _ => exact hpatch _ _
  | overwrites32 _ _ _ => exact hpatch _ _

/-- A jump issues the site of its own operand. -/
theorem Step.of_jump {opcode : UInt8} {site : JumpSite} (h : s.Step (.jump opcode) (.site site) t) :
    s.position < site.operandPosition ∧ site.operandPosition + 2 = t.position := by
  cases h with
  | writes _ _ hplain => cases hplain
  | jumps _ hmethod hfield =>
    rw [position_append]
    exact ⟨Nat.lt_succ_self _, rfl⟩

/-- The number of constants is filled in. -/
theorem Step.of_finishPool (h : s.Step .finishPool reply t) :
    ∃ field, s.stage = .pooling field ∧
      t = { s.patch field.position (Word.bytes16 (UInt16.ofNat s.poolCount)) with stage := .pooled } := by
  cases h with
  | writes _ _ hplain => cases hplain
  | finishesPool hstage => exact ⟨_, hstage, rfl⟩

/-- The length of the code is filled in. -/
theorem Step.of_endCode (h : s.Step .endCode reply t) :
    ∃ m field, s.method = some m ∧ m.codeLength = some field ∧ s.position - m.codeStart ≠ 0 ∧
      s.position - m.codeStart < Assembly.codeLimit ∧
      t = { s.patch field.position (Word.bytes32 (UInt32.ofNat (s.position - m.codeStart))) with
        method := some { m with codeLength := none } } := by
  cases h with
  | writes _ _ hplain => cases hplain
  | closesCode hmethod hfield hne hlimit => exact ⟨_, _, hmethod, hfield, hne, hlimit, rfl⟩

/-- The length of the code attribute is filled in. -/
theorem Step.of_endMethod (h : s.Step .endMethod reply t) :
    ∃ m, s.method = some m ∧
      t = { s.patch m.attributeLength.position
          (Word.bytes32 (UInt32.ofNat (s.position - m.attributeLength.position - 4))) with
        method := none } := by
  cases h with
  | writes _ _ hplain => cases hplain
  | endsMethod hmethod hclosed => exact ⟨_, hmethod, rfl⟩

/-- The pool grows by one constant at a time, and only as far as it may. -/
theorem Step.poolCount_cases (h : s.Step request reply t) :
    (request.kind ≠ .constant ∧ t.poolCount = s.poolCount) ∨
    (request.kind = .constant ∧ (∃ field, s.stage = .pooling field) ∧
      s.poolCount ≠ Assembly.poolLimit ∧ reply = .index (UInt16.ofNat s.poolCount) ∧
      t.poolCount = s.poolCount + 1) := by
  cases h with
  | writes _ vs hplain =>
    refine .inl ⟨?_, rfl⟩
    rw [hplain]
    decide
  | addsConstant c vs hstage hroom => exact .inr ⟨rfl, ⟨_, hstage⟩, hroom, rfl, rfl⟩
  | _ => exact .inl ⟨(fun hkind => by cases hkind), rfl⟩

/-- A pool is begun once, and finished once. -/
theorem Step.stage_cases (h : s.Step request reply t) :
    (request.kind ≠ .header ∧ t.stage = s.stage) ∨
    (request.kind = .header ∧ s.stage = .fresh ∧ t.stage = .pooling ⟨s.position + 8⟩ ∧
      t.position = s.position + 10) ∨
    (request = .finishPool ∧ (∃ field, s.stage = .pooling field) ∧ t.stage = .pooled) := by
  cases h with
  | writes _ vs hplain =>
    refine .inl ⟨?_, rfl⟩
    rw [hplain]
    decide
  | beginsClass version header hlength hstage =>
    refine .inr (.inl ⟨rfl, hstage, rfl, ?_⟩)
    rw [← hlength]
    exact s.position_append header
  | finishesPool hstage => exact .inr (.inr ⟨rfl, ⟨_, hstage⟩, rfl⟩)
  | _ => exact .inl ⟨(fun hkind => by cases hkind), rfl⟩

/-- The standard constants are known once a pool is begun. -/
theorem Step.standard_cases (h : s.Step request reply t) :
    t.standard = s.standard ∨ ∃ field, s.stage = .pooling field := by
  cases h with
  | setsUp _ hstage => exact .inr ⟨_, hstage⟩
  | _ => exact .inl rfl

/-- A method is opened behind all that is written; its code is closed, and then it is ended. -/
theorem Step.method_cases (h : s.Step request reply t) :
    (request.kind ≠ .opening ∧ t.method = s.method) ∨
    (request.kind = .opening ∧ s.standard.isSome = true ∧ t.position = s.position + 22 ∧
      t.method = some ⟨⟨s.position + 10⟩, some ⟨s.position + 18⟩, s.position + 22⟩) ∨
    (request = .endCode ∧ ∃ m, s.method = some m ∧ t.method = some { m with codeLength := none }) ∨
    (request = .endMethod ∧ t.method = none) := by
  cases h with
  | writes _ vs hplain =>
    refine .inl ⟨?_, rfl⟩
    rw [hplain]
    decide
  | opensMethod flags name descriptor maxStack maxLocals head hlength hmethod hstandard =>
    refine .inr (.inl ⟨rfl, hstandard, ?_, rfl⟩)
    rw [← hlength]
    exact s.position_append head
  | closesCode hmethod hfield hne hlimit => exact .inr (.inr (.inl ⟨rfl, _, hmethod, rfl⟩))
  | endsMethod hmethod hclosed => exact .inr (.inr (.inr ⟨rfl, rfl⟩))
  | _ => exact .inl ⟨(fun hkind => by cases hkind), rfl⟩

end Session

end Collation
