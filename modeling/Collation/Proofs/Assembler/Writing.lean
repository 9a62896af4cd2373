/-
  File:      Collation/Proofs/Assembler/Writing.lean
  Subject:   What the operations of a session write.

  While a class is written, a session is in one of four places: among its constants, between its
  members, inside the code of a method, behind the code of a method.  Each place has a description
  by the bytes written so far, and each operation leads from one description to another.

  * `Assembly.Runs` -- an operation succeeds, with this answer and this session after it;
  * `Session.pooling`, `Session.between`, `Session.coding`, `Session.coded` -- the four places;
  * `Assembly.runs_setupPool` -- the constants that every class needs, and their indices;
  * `Assembly.runs_endMethodWith` -- what was written between the opening of a method and its end
    is the method.
-/
import Collation.Assembler.Members
import Collation.Proofs.ClassFile.Written

namespace Collation

/-! ## 1. Buffers by their bytes -/

/-- The buffer that holds these bytes. -/
def Buffer.ofList (l : List UInt8) : Buffer := ⟨l.toArray⟩

namespace Buffer

theorem ofList_toList (b : Buffer) : ofList b.toList = b := rfl

theorem toList_ofList (l : List UInt8) : (ofList l).toList = l := rfl

@[simp] theorem position_ofList (l : List UInt8) : (ofList l).position = l.length := rfl

@[simp] theorem putBytes_ofList (l vs : List UInt8) : (ofList l).putBytes vs = ofList (l ++ vs) := by
  rw [← ofList_toList ((ofList l).putBytes vs), toList_putBytes, toList_ofList]

theorem replace_ofList {x y z vs : List UInt8} (h : y.length = vs.length) :
    (ofList (x ++ (y ++ z))).replace x.length vs = ofList (x ++ (vs ++ z)) := by
  have hroom : x.length + vs.length ≤ (ofList (x ++ (y ++ z))).position := by
    simp only [position_ofList, List.length_append]
    omega
  have htake : (x ++ (y ++ z)).take x.length = x := List.take_left
  have hdrop : (x ++ (y ++ z)).drop (x.length + vs.length) = z := by
    rw [← List.append_assoc, ← h, ← List.length_append, List.drop_left]
  rw [← ofList_toList (replace _ _ _), toList_replace _ _ _ hroom, toList_ofList, htake, hdrop,
    List.append_assoc]

end Buffer

/-! ## 2. Runs of operations -/

namespace Assembly

variable {ε α β : Type}

/-- From `s` the operation succeeds; it answers `a` and leaves `t`. -/
def Runs (x : EStateM ε Session α) (s : Session) (a : α) (t : Session) : Prop := x s = .ok a t

variable {x : EStateM ε Session α} {f : α → EStateM ε Session β} {s t u : Session} {a : α} {b : β}
  {cause : ε}

theorem runs_pure (a : α) (s : Session) : Runs (pure a : EStateM ε Session α) s a s := rfl

/-- After an operation that succeeds, what follows goes on from where it came to. -/
theorem Runs.bind_eq (hx : Runs x s a t) (f : α → EStateM ε Session β) : (x >>= f) s = f a t := by
  show EStateM.bind x f s = _
  unfold EStateM.bind
  rw [hx]

theorem Runs.bind (hx : Runs x s a t) (hf : Runs (f a) t b u) : Runs (x >>= f) s b u :=
  (hx.bind_eq f).trans hf

theorem Runs.map (h : Runs x s a t) (g : α → β) : Runs (g <$> x) s (g a) t := by
  show EStateM.map g x s = _
  unfold EStateM.map
  rw [h]

theorem Runs.unique {a' : α} (h : Runs x s a t) (h' : Runs x s a' u) : a = a' ∧ t = u := by
  have he := h.symm.trans h'
  cases he
  exact ⟨rfl, rfl⟩

/-- Of operations that succeed one after the other, each succeeds. -/
theorem exists_of_runs_bind (h : Runs (x >>= f) s b u) : ∃ a t, Runs x s a t ∧ Runs (f a) t b u := by
  have hbind : EStateM.bind x f s = .ok b u := h
  unfold EStateM.bind at hbind
  cases hx : x s with
  | ok a t =>
    rw [hx] at hbind
    exact ⟨a, t, hx, hbind⟩
  | error e t =>
    rw [hx] at hbind
    cases hbind

theorem exists_of_runs_map {g : α → β} (h : Runs (g <$> x) s b t) : ∃ a, Runs x s a t ∧ g a = b := by
  have hmap : EStateM.map g x s = .ok b t := h
  unfold EStateM.map at hmap
  cases hx : x s with
  | ok a u =>
    rw [hx] at hmap
    cases hmap
    exact ⟨a, hx, rfl⟩
  | error e u =>
    rw [hx] at hmap
    cases hmap

/-- From `s` the operation fails for this reason. -/
def Fails (x : EStateM ε Session α) (s : Session) (cause : ε) : Prop := ∃ t, x s = .error cause t

theorem Fails.bind (hx : Fails x s cause) (f : α → EStateM ε Session β) :
    Fails (x >>= f) s cause := by
  obtain ⟨t, hx⟩ := hx
  refine ⟨t, ?_⟩
  show EStateM.bind x f s = _
  unfold EStateM.bind
  rw [hx]

theorem Runs.bind_fails (hx : Runs x s a t) (hf : Fails (f a) t cause) :
    Fails (x >>= f) s cause := by
  obtain ⟨u, hf⟩ := hf
  exact ⟨u, (hx.bind_eq f).trans hf⟩

theorem runs_get (s : Session) : Runs (get : Assembly Session) s s s := rfl

theorem runs_modify (g : Session → Session) (s : Session) :
    Runs (modify g : Assembly Unit) s () (g s) := rfl

theorem runs_write {l vs : List UInt8} {count : Nat} {stage : Stage} {std : Option StandardPool}
    {method : Option OpenMethod} :
    Runs (write vs) ⟨.ofList l, count, stage, std, method⟩ ()
      ⟨.ofList (l ++ vs), count, stage, std, method⟩ := by
  show EStateM.Result.ok _ _ = _
  rw [Buffer.putBytes_ofList]

theorem runs_overwrite {p : Nat} {y z vs l : List UInt8} {count : Nat} {stage : Stage}
    {std : Option StandardPool} {method : Option OpenMethod} (hp : p = l.length)
    (hlength : y.length = vs.length) :
    Runs (overwrite p vs) ⟨.ofList (l ++ (y ++ z)), count, stage, std, method⟩ ()
      ⟨.ofList (l ++ (vs ++ z)), count, stage, std, method⟩ := by
  subst hp
  unfold Runs overwrite
  have hroom : l.length + vs.length ≤ (l ++ (y ++ z)).length := by
    simp only [List.length_append]
    omega
  refine (if_pos hroom).trans ?_
  dsimp only
  rw [Buffer.replace_ofList hlength]

theorem runs_reserve32 {l : List UInt8} {count : Nat} {stage : Stage}
    {std : Option StandardPool} {method : Option OpenMethod} :
    Runs reserve32 ⟨.ofList l, count, stage, std, method⟩ ⟨l.length⟩
      ⟨.ofList (l ++ Word.bytes32 0), count, stage, std, method⟩ := by
  show EStateM.Result.ok _ _ = _
  dsimp only
  rw [Buffer.putU32, Buffer.putBytes_ofList]
  rfl

/-- The span behind a field, if it has come to an end. -/
theorem runs_fillSpan {p : Nat} {l z : List UInt8} {count : Nat} {stage : Stage}
    {std : Option StandardPool} {method : Option OpenMethod} (hp : p = l.length) :
    Runs (fillSpan ⟨p⟩) ⟨.ofList (l ++ (Word.bytes32 0 ++ z)), count, stage, std, method⟩ ()
      ⟨.ofList (l ++ (Word.bytes32 (UInt32.ofNat z.length) ++ z)), count, stage, std, method⟩ := by
  have hspan : (Reserved32.mk p).spanTo (l ++ (Word.bytes32 0 ++ z)).length = some z.length := by
    subst hp
    unfold Reserved32.spanTo
    simp only [List.length_append, Word.length_bytes32]
    rw [if_pos (by omega)]
    congr 1
    omega
  unfold Runs fillSpan Session.position
  dsimp only
  rw [Buffer.position_ofList, hspan]
  exact runs_overwrite hp rfl

end Assembly

/-! ## 3. Among the constants -/

/-- The bytes in front of the number of constants. -/
def headerBytes : List UInt8 :=
  Word.bytes32 ClassFile.magic ++
    (Word.bytes16 Version.written.minor ++ Word.bytes16 Version.written.major)

/-- A session that has written these constants. -/
def Session.pooling (cs : List Constant) (std : Option StandardPool) : Session :=
  ⟨.ofList (headerBytes ++ (Word.bytes16 0 ++ cs.flatMap Constant.written)), cs.length + 1,
    .pooling ⟨8⟩, std, none⟩

/-- A session that is between two members of the class. -/
def Session.between (l : List UInt8) (count : Nat) (std : StandardPool) : Session :=
  ⟨.ofList l, count, .pooled, some std, none⟩

namespace Assembly

theorem runs_beginClass : Runs (beginClass .written) .empty () (.pooling [] none) := rfl

theorem runs_addConstant {cs : List Constant} {std : Option StandardPool} {c : Constant}
    (hroom : cs.length + 1 < poolLimit) (hc : c.Writable) :
    Runs (addConstant c) (.pooling cs std) (UInt16.ofNat (cs.length + 1))
      (.pooling (cs ++ [c]) std) := by
  have hcount : ¬ cs.length + 1 = poolLimit := by omega
  have hbytes : c.bytes = .ok c.written := hc
  unfold Runs addConstant Session.pooling
  dsimp only
  rw [if_neg hcount, hbytes]
  dsimp only
  rw [Buffer.putBytes_ofList]
  simp

/-- A constant that cannot be written is refused. -/
theorem fails_addConstant {cs : List Constant} {std : Option StandardPool} {c : Constant}
    {fault : Fault} (hroom : cs.length + 1 < poolLimit) (hc : c.bytes = .error fault) :
    Fails (addConstant c) (.pooling cs std) (.refused fault) := by
  have hcount : ¬ cs.length + 1 = poolLimit := by omega
  refine ⟨.pooling cs std, ?_⟩
  unfold addConstant Session.pooling
  dsimp only
  rw [if_neg hcount, hc]

/-- The constants that every class needs. -/
def setupConstants : List Constant :=
  [.text objectClass, .cls 1, .text initName, .text initDescriptor, .nameAndType 3 4,
    .member .method 2 5, .text codeAttributeName]

/-- Their indices. -/
def standard : StandardPool := ⟨2, 3, 4, 6, 7⟩

theorem runs_setupPool : Runs setupPool .empty standard (.pooling setupConstants (some standard)) := by
  unfold setupPool
  refine runs_beginClass.bind ?_
  iterate 7 refine (runs_addConstant (by decide) (by decide)).bind ?_
  exact (runs_modify _ _).bind (runs_pure _ _)

theorem runs_finishPool {cs : List Constant} {std : StandardPool} :
    Runs finishPool (.pooling cs (some std)) ()
      (.between (headerBytes ++ (Word.bytes16 (UInt16.ofNat (cs.length + 1)) ++
        cs.flatMap Constant.written)) (cs.length + 1) std) := by
  unfold finishPool
  exact runs_overwrite rfl rfl

theorem runs_standardPool {l : List UInt8} {count : Nat} {std : StandardPool} :
    Runs standardPool (.between l count std) std (.between l count std) := rfl

theorem runs_writeBetween {l vs : List UInt8} {count : Nat} {std : StandardPool} :
    Runs (write vs) (.between l count std) () (.between (l ++ vs) count std) :=
  runs_write

theorem runs_defineClass {l : List UInt8} {count : Nat} {std : StandardPool} {flags : ClassFlags}
    {this : UInt16} :
    Runs (defineClass flags this) (.between l count std) ()
      (.between (l ++ (Word.bytes16 flags.bits ++ Word.bytes16 this ++
        Word.bytes16 std.objectClass)) count std) :=
  runs_standardPool.bind runs_writeBetween

theorem runs_declareInterfaces {l : List UInt8} {count : Nat} {std : StandardPool}
    {classes : List UInt16} (h : classes.length ≤ 65535) :
    Runs (declareInterfaces classes) (.between l count std) ()
      (.between (l ++ (Word.bytes16 (UInt16.ofNat classes.length) ++
        classes.flatMap Word.bytes16)) count std) :=
  (if_pos h).trans runs_writeBetween

end Assembly

/-! ## 4. Methods -/

/-- The bytes of a method up to its code, with the two lengths in it. -/
def MethodText.head (codeAttribute : UInt16) (m : MethodText) (attributeLength codeLength : UInt32) :
    List UInt8 :=
  Word.bytes16 m.flags.bits ++ (Word.bytes16 m.name ++ (Word.bytes16 m.descriptor ++
    (Word.bytes16 1 ++ (Word.bytes16 codeAttribute ++ (Word.bytes32 attributeLength ++
      (Word.bytes16 m.maxStack ++ (Word.bytes16 m.maxLocals ++ Word.bytes32 codeLength)))))))

namespace Session

/-- A session that is inside the code of a method, whose code so far is that of `m`. -/
def coding (l : List UInt8) (count : Nat) (std : StandardPool) (m : MethodText) : Session :=
  ⟨.ofList (l ++ (m.head std.codeAttribute 0 0 ++ m.code)), count, .pooled, some std,
    some ⟨⟨l.length + 10⟩, some ⟨l.length + 18⟩, l.length + 22⟩⟩

/-- A session that is behind the code of the method `m`, and has written `after` there. -/
def coded (l : List UInt8) (count : Nat) (std : StandardPool) (m : MethodText)
    (after : List UInt8) : Session :=
  ⟨.ofList (l ++ (m.head std.codeAttribute 0 (UInt32.ofNat m.code.length) ++ (m.code ++ after))),
    count, .pooled, some std, some ⟨⟨l.length + 10⟩, none, l.length + 22⟩⟩

end Session

namespace Assembly

variable {l : List UInt8} {count : Nat} {std : StandardPool} {m : MethodText}

/-- Wherever the class is, a method is opened behind what is there. -/
theorem runs_openMethod {stage : Stage} {flags : MethodFlags}
    {name descriptor maxStack maxLocals : UInt16} :
    Runs (beginMethod flags name descriptor maxStack maxLocals)
      ⟨.ofList l, count, stage, some std, none⟩ ()
      ⟨.ofList (l ++ MethodText.head std.codeAttribute
          ⟨flags, name, descriptor, maxStack, maxLocals, [], none⟩ 0 0),
        count, stage, some std, some ⟨⟨l.length + 10⟩, some ⟨l.length + 18⟩, l.length + 22⟩⟩ := by
  have hstandard : Runs standardPool ⟨.ofList l, count, stage, some std, none⟩ std
      ⟨.ofList l, count, stage, some std, none⟩ := rfl
  unfold beginMethod
  refine (runs_get _).bind (hstandard.bind (runs_write.bind ?_))
  refine runs_reserve32.bind (runs_write.bind (runs_reserve32.bind ?_))
  refine (runs_modify _ _).trans ?_
  unfold Session.position
  simp only [Buffer.position_ofList, MethodText.head, List.append_assoc,
    List.length_append, Word.length_bytes16, Word.length_bytes32, Nat.reduceAdd]

theorem runs_beginMethod {flags : MethodFlags} {name descriptor maxStack maxLocals : UInt16} :
    Runs (beginMethod flags name descriptor maxStack maxLocals) (.between l count std) ()
      (.coding l count std ⟨flags, name, descriptor, maxStack, maxLocals, [], none⟩) := by
  refine runs_openMethod.trans ?_
  unfold Session.coding
  rw [List.append_nil]

theorem runs_writeCode {vs : List UInt8} :
    Runs (write vs) (.coding l count std m) () (.coding l count std { m with code := m.code ++ vs }) := by
  refine runs_write.trans ?_
  unfold Session.coding
  simp only [List.append_assoc, MethodText.head]

theorem runs_emit {vs : List UInt8} :
    Runs (emit vs) (.coding l count std m) () (.coding l count std { m with code := m.code ++ vs }) :=
  runs_writeCode

theorem runs_codeOffset :
    Runs codeOffset (.coding l count std m) m.code.length (.coding l count std m) := by
  have hposition : (Session.coding l count std m).position = l.length + 22 + m.code.length := by
    unfold Session.coding Session.position
    simp only [Buffer.position_ofList, MethodText.head, List.length_append, Word.length_bytes16,
      Word.length_bytes32]
    omega
  unfold Runs codeOffset
  show (if l.length + 22 ≤ (Session.coding l count std m).position then
    EStateM.Result.ok ((Session.coding l count std m).position - (l.length + 22)) _ else _) = _
  rw [hposition, if_pos (by omega), Nat.add_sub_cancel_left]

/-- A jump leaves a site behind the code so far. -/
theorem runs_jump {opcode : UInt8} :
    Runs (jump opcode) (.coding l count std m)
      ⟨m.code.length, l.length + 22 + m.code.length + 1⟩
      (.coding l count std { m with code := m.code ++ (opcode :: Word.bytes16 0) }) := by
  have hposition : (Session.coding l count std { m with code := m.code ++ [opcode] }).position =
      l.length + 22 + m.code.length + 1 := by
    unfold Session.coding Session.position
    simp only [Buffer.position_ofList, MethodText.head, List.length_append, Word.length_bytes16,
      Word.length_bytes32, List.length_cons, List.length_nil]
    omega
  unfold jump
  refine runs_codeOffset.bind (runs_emit.bind ((runs_get _).bind ?_))
  rw [hposition]
  have hcode : m.code ++ (opcode :: Word.bytes16 0) = m.code ++ [opcode] ++ Word.bytes16 0 := by
    rw [List.append_assoc, List.cons_append, List.nil_append]
  rw [hcode]
  exact runs_writeCode.bind (runs_pure _ _)

/-- The site of a jump gets the distance from its instruction to the present place. -/
theorem runs_placeJump {before after : List UInt8} {opcode : UInt8}
    (hcode : m.code = before ++ (opcode :: Word.bytes16 0 ++ after))
    (hreach : 3 + after.length ≤ maxJump) :
    Runs (placeJump ⟨before.length, l.length + 22 + before.length + 1⟩) (.coding l count std m)
      m.code.length
      (.coding l count std { m with
        code := before ++ (opcode :: Word.bytes16 (UInt16.ofNat (3 + after.length)) ++ after) }) := by
  have hlength : m.code.length = before.length + (3 + after.length) := by
    rw [hcode]
    simp only [List.length_append, List.length_cons, Word.length_bytes16]
  have hdelta : m.code.length - before.length = 3 + after.length := by omega
  unfold placeJump
  refine runs_codeOffset.bind ?_
  dsimp only
  rw [if_neg (by omega), hdelta, if_neg (by omega)]
  refine Runs.bind (a := ()) ?_ (runs_pure _ _)
  have hwritten : ∀ w : UInt16, Session.coding l count std
      { m with code := before ++ (opcode :: Word.bytes16 w ++ after) } =
      ⟨.ofList ((l ++ (m.head std.codeAttribute 0 0 ++ (before ++ [opcode]))) ++
        (Word.bytes16 w ++ after)), count, .pooled, some std,
        some ⟨⟨l.length + 10⟩, some ⟨l.length + 18⟩, l.length + 22⟩⟩ := by
    intro w
    unfold Session.coding
    simp only [List.append_assoc, MethodText.head, List.cons_append, List.nil_append]
  have hstart : Session.coding l count std m = Session.coding l count std
      { m with code := before ++ (opcode :: Word.bytes16 0 ++ after) } := by
    rw [← hcode]
  rw [hstart, hwritten, hwritten]
  refine runs_overwrite ?_ rfl
  simp only [MethodText.head, List.length_append, Word.length_bytes16, Word.length_bytes32,
    List.length_cons, List.length_nil]
  omega

/-- A jump over too much code is refused. -/
theorem fails_placeJump {before after : List UInt8} {opcode : UInt8} {position : Nat}
    (hcode : m.code = before ++ (opcode :: Word.bytes16 0 ++ after))
    (hreach : maxJump < 3 + after.length) :
    Fails (placeJump ⟨before.length, position⟩) (.coding l count std m)
      (.refused (.misuse (.codeTooLarge (3 + after.length)))) := by
  have hlength : m.code.length = before.length + (3 + after.length) := by
    rw [hcode]
    simp only [List.length_append, List.length_cons, Word.length_bytes16]
  have hdelta : m.code.length - before.length = 3 + after.length := by omega
  unfold placeJump
  refine runs_codeOffset.bind_fails ?_
  dsimp only
  rw [if_neg (by omega), hdelta, if_pos hreach]
  exact Fails.bind ⟨_, rfl⟩ _

/-- The length of the code is filled in. -/
theorem runs_endCode (hne : m.code.length ≠ 0) (hlimit : m.code.length < codeLimit) :
    Runs endCode (.coding l count std m) () (.coded l count std m []) := by
  have hspan : (Reserved32.mk (l.length + 18)).spanTo (Session.coding l count std m).position =
      some m.code.length := by
    unfold Session.coding Session.position Reserved32.spanTo
    simp only [Buffer.position_ofList, MethodText.head, List.length_append, Word.length_bytes16,
      Word.length_bytes32]
    rw [if_pos (by omega)]
    congr 1
    omega
  have hwritten : ∀ w : UInt32, l ++ (m.head std.codeAttribute 0 w ++ m.code) =
      (l ++ (Word.bytes16 m.flags.bits ++ (Word.bytes16 m.name ++ (Word.bytes16 m.descriptor ++
        (Word.bytes16 1 ++ (Word.bytes16 std.codeAttribute ++ (Word.bytes32 0 ++
          (Word.bytes16 m.maxStack ++ Word.bytes16 m.maxLocals)))))))) ++
        (Word.bytes32 w ++ m.code) := by
    intro w
    simp only [MethodText.head, List.append_assoc]
  have hopen : (Session.coding l count std m).openCode =
      .ok (⟨⟨l.length + 10⟩, some ⟨l.length + 18⟩, l.length + 22⟩, ⟨l.length + 18⟩) := rfl
  unfold Runs endCode
  rw [hopen]
  dsimp only
  rw [hspan]
  dsimp only
  rw [if_neg hne, if_neg (by omega)]
  unfold Session.coding Session.coded
  rw [List.append_nil, hwritten, hwritten]
  refine runs_overwrite ?_ rfl
  simp only [List.length_append, Word.length_bytes16, Word.length_bytes32]

theorem runs_writeAfter {after vs : List UInt8} :
    Runs (write vs) (.coded l count std m after) () (.coded l count std m (after ++ vs)) := by
  refine runs_write.trans ?_
  unfold Session.coded
  simp only [List.append_assoc]

theorem runs_appendIntFrame {after : List UInt8} {name target : UInt16} :
    Runs (appendIntFrame name target) (.coded l count std m after) ()
      (.coded l count std m (after ++ (FrameText.mk name target).bytes)) := by
  have hwritten : ∀ w : UInt32, Session.coded l count std m
      (after ++ (Word.bytes16 name ++ (Word.bytes32 w ++ (FrameText.mk name target).body))) =
      ⟨.ofList ((l ++ (m.head std.codeAttribute 0 (UInt32.ofNat m.code.length) ++ (m.code ++
        (after ++ Word.bytes16 name)))) ++ (Word.bytes32 w ++ (FrameText.mk name target).body)),
        count, .pooled, some std, some ⟨⟨l.length + 10⟩, none, l.length + 22⟩⟩ := by
    intro w
    unfold Session.coded
    simp only [List.append_assoc]
  have hbegun : Session.coded l count std m (after ++ Word.bytes16 name ++ Word.bytes32 0 ++
      (Word.bytes16 1 ++ [252] ++ Word.bytes16 target ++ [1])) = Session.coded l count std m
      (after ++ (Word.bytes16 name ++ (Word.bytes32 0 ++ (FrameText.mk name target).body))) := by
    simp only [FrameText.body, List.append_assoc, List.cons_append, List.nil_append]
  have hreserve : ∀ x, Runs reserve32 (.coded l count std m x)
      ⟨(l ++ (m.head std.codeAttribute 0 (UInt32.ofNat m.code.length) ++ (m.code ++ x))).length⟩
      (.coded l count std m (x ++ Word.bytes32 0)) := by
    intro x
    refine runs_reserve32.trans ?_
    unfold Session.coded
    simp only [List.append_assoc]
  unfold appendIntFrame FrameText.bytes
  refine runs_writeAfter.bind ((hreserve _).bind (runs_writeAfter.bind ?_))
  rw [hbegun, hwritten, hwritten]
  exact runs_fillSpan rfl

/-- **What was written since the method was opened is the method**, with what follows its code. -/
theorem runs_endMethodWith {after : List UInt8} :
    Runs endMethod (.coded l count std m after) ()
      (.between (l ++ m.bytesWith std.codeAttribute after) count std) := by
  have hwritten : ∀ w : UInt32, l ++ (m.head std.codeAttribute w (UInt32.ofNat m.code.length) ++
      (m.code ++ after)) =
      (l ++ (Word.bytes16 m.flags.bits ++ (Word.bytes16 m.name ++ (Word.bytes16 m.descriptor ++
        (Word.bytes16 1 ++ Word.bytes16 std.codeAttribute))))) ++ (Word.bytes32 w ++ m.bodyWith after) := by
    intro w
    simp only [MethodText.head, MethodText.bodyWith, List.append_assoc]
  have hbytes : l ++ m.bytesWith std.codeAttribute after =
      (l ++ (Word.bytes16 m.flags.bits ++ (Word.bytes16 m.name ++ (Word.bytes16 m.descriptor ++
        (Word.bytes16 1 ++ Word.bytes16 std.codeAttribute))))) ++
        (Word.bytes32 (UInt32.ofNat (m.bodyWith after).length) ++ m.bodyWith after) := by
    simp only [MethodText.bytesWith, List.append_assoc]
  unfold Session.between
  rw [hbytes]
  unfold Session.coded
  rw [hwritten]
  refine runs_fillSpan ?_
  simp only [List.length_append, Word.length_bytes16]

theorem runs_endMethod :
    Runs endMethod (.coded l count std m (Word.bytes16 0 ++ m.attributes)) ()
      (.between (l ++ m.bytes std.codeAttribute) count std) :=
  runs_endMethodWith

end Assembly

end Collation
