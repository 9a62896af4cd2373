/-
  File:      Collation/Proofs/Assembler/Atomicity.lean
  Subject:   Requests that fail, and the session after them.

  A session takes requests in any order, sensible or not, and goes on after one that fails.  Many
  operations write in several pieces.  Each makes its checks before its first piece, and what is left
  cannot fail: the fields that it fills in lie within the bytes that were written, and a pool that was
  just begun has room.  So a request that fails leaves no trace.

  * `Assembly.Decides` -- an operation that succeeds, or is refused before it has changed anything;
  * `Session.Sound` -- the invariant: every field that is still to be filled in lies within the bytes;
  * `Assembly.atomic_perform` -- one request from a sound session;
  * `Bench.run`, `Bench.sound_run` -- requests one after another, by a caller who holds jump sites;
  * **`Bench.failure_leaves_session`** -- after a request that failed, everything is as before, but for
    the jump site that was passed.

  What only looks at a session (its bytes, its position, writing it into a sink) is no request: it is
  a function of the session and cannot change it.
-/
import Collation.Proofs.Assembler.Emission

namespace Collation

/-! ## 1. Operations that succeed, and operations that are refused -/

namespace Assembly

variable {α β : Type} {x : Assembly α} {f : α → Assembly β} {s t : Session}
  {P : α → Session → Prop} {Q : β → Session → Prop}

/-- The operation succeeds, and `P` holds of its answer and of the session after it. -/
def Succeeds (x : Assembly α) (s : Session) (P : α → Session → Prop) : Prop :=
  ∃ a t, Runs x s a t ∧ P a t

/-- The operation succeeds so, or it is refused and has changed nothing. -/
def Decides (x : Assembly α) (s : Session) (P : α → Session → Prop) : Prop :=
  Succeeds x s P ∨ ∃ fault, x s = .error (.refused fault) s

theorem Runs.succeeds {a : α} (h : Runs x s a t) (hp : P a t) : Succeeds x s P := ⟨a, t, h, hp⟩

theorem Succeeds.decides (h : Succeeds x s P) : Decides x s P := .inl h

theorem Succeeds.bind (hx : Succeeds x s P) (hf : ∀ a t, P a t → Succeeds (f a) t Q) :
    Succeeds (x >>= f) s Q := by
  obtain ⟨a, t, hrun, hp⟩ := hx
  obtain ⟨b, u, hrun', hq⟩ := hf a t hp
  exact ⟨b, u, hrun.bind hrun', hq⟩

theorem Runs.bind_succeeds {a : α} (hx : Runs x s a t) (hf : Succeeds (f a) t Q) :
    Succeeds (x >>= f) s Q := by
  obtain ⟨b, u, hrun, hq⟩ := hf
  exact ⟨b, u, hx.bind hrun, hq⟩

theorem bind_eq_error {e : Failure} (hx : x s = .error e t) (f : α → Assembly β) :
    (x >>= f) s = .error e t := by
  show EStateM.bind x f s = _
  unfold EStateM.bind
  rw [hx]

theorem map_eq_error {e : Failure} (hx : x s = .error e t) (g : α → β) :
    (g <$> x) s = .error e t := by
  show EStateM.map g x s = _
  unfold EStateM.map
  rw [hx]

theorem done_eq_error {x : Assembly Unit} {e : Failure} (hx : x s = .error e t) :
    done x s = .error e t := by
  show EStateM.seqRight x (fun _ => pure Reply.done) s = _
  unfold EStateM.seqRight
  rw [hx]

/-- **What follows the checks must not fail.** -/
theorem Decides.bind (hx : Decides x s P) (hf : ∀ a t, P a t → Succeeds (f a) t Q) :
    Decides (x >>= f) s Q := by
  rcases hx with hx | ⟨fault, he⟩
  · exact .inl (hx.bind hf)
  · exact .inr ⟨fault, bind_eq_error he f⟩

/-- **A check that changes nothing may be followed by more checks.** -/
theorem Decides.bind_check {p : α → Prop} (hx : Decides x s fun a t => t = s ∧ p a)
    (hf : ∀ a, p a → Decides (f a) s Q) : Decides (x >>= f) s Q := by
  rcases hx with ⟨a, _, hrun, rfl, hp⟩ | ⟨fault, he⟩
  · rcases hf a hp with ⟨b, u, hrun', hq⟩ | ⟨fault, he⟩
    · exact .inl ⟨b, u, hrun.bind hrun', hq⟩
    · exact .inr ⟨fault, (hrun.bind_eq f).trans he⟩
  · exact .inr ⟨fault, bind_eq_error he f⟩

theorem Decides.mono {P' : α → Session → Prop} (h : Decides x s P) (hp : ∀ a t, P a t → P' a t) :
    Decides x s P' := by
  rcases h with ⟨a, t, hrun, ha⟩ | he
  · exact .inl ⟨a, t, hrun, hp a t ha⟩
  · exact .inr he

end Assembly

/-! ## 2. Sound sessions -/

/-- The fields of an open method lie within the bytes up to `stop`, that for the length of its code
    right before the code. -/
structure OpenMethod.Within (m : OpenMethod) (stop : Nat) : Prop where
  attributes : m.attributeLength.position + 4 ≤ stop
  code : m.codeStart ≤ stop
  length : ∀ field, m.codeLength = some field → field.position + 4 = m.codeStart

@[simp] theorem Buffer.position_putBytes (b : Buffer) (vs : List UInt8) :
    (b.putBytes vs).position = b.position + vs.length := by
  rw [← length_toList, toList_putBytes, List.length_append, length_toList]

namespace Session

/-- **The invariant of all sessions**: before a class is begun there are no constants, and the fields
    that are still to be filled in lie within the bytes. -/
structure Sound (s : Session) : Prop where
  fresh : s.stage = .fresh → s.poolCount = 1
  pooling : ∀ field, s.stage = .pooling field → field.position + 2 ≤ s.position
  method : ∀ m, s.method = some m → m.Within s.position

variable {s : Session}

theorem sound_empty : Session.empty.Sound where
  fresh _ := rfl
  pooling _ h := by cases h
  method _ h := by cases h

/-- Bytes may change and more may come. -/
theorem Sound.withBuffer (h : s.Sound) {b : Buffer} (hle : s.position ≤ b.position) :
    ({ s with buffer := b } : Session).Sound where
  fresh := h.fresh
  pooling field hf := Nat.le_trans (h.pooling field hf) hle
  method m hm :=
    { attributes := Nat.le_trans (h.method m hm).attributes hle
      code := Nat.le_trans (h.method m hm).code hle
      length := (h.method m hm).length }

theorem Sound.withoutMethod (h : s.Sound) : ({ s with method := none } : Session).Sound where
  fresh := h.fresh
  pooling := h.pooling
  method _ hm := by cases hm

/-- The session with more bytes at its end. -/
def append (s : Session) (vs : List UInt8) : Session := { s with buffer := s.buffer.putBytes vs }

@[simp] theorem position_append (s : Session) (vs : List UInt8) :
    (s.append vs).position = s.position + vs.length :=
  s.buffer.position_putBytes vs

theorem Sound.append (h : s.Sound) (vs : List UInt8) : (s.append vs).Sound :=
  h.withBuffer (Nat.le_trans (Nat.le_add_right _ _) (Nat.le_of_eq (s.position_append vs).symm))

/-- The method whose code is open. -/
theorem method_of_openCode {m : OpenMethod} {field : Reserved32}
    (h : s.openCode = .ok (m, field)) : s.method = some m ∧ m.codeLength = some field := by
  unfold openCode openMethod at h
  cases hm : s.method with
  | none =>
    rw [hm] at h
    cases h
  | some m' =>
    rw [hm] at h
    dsimp only at h
    cases hf : m'.codeLength with
    | none =>
      rw [hf] at h
      cases h
    | some field' =>
      rw [hf] at h
      cases h
      exact ⟨rfl, hf⟩

/-- `n` more constants can be written. -/
structure HasRoom (n : Nat) (s : Session) : Prop where
  sound : s.Sound
  pooling : ∃ field, s.stage = .pooling field
  count : s.poolCount + n ≤ Assembly.poolLimit

/-- The code of a method is open, and `k` bytes of it are written. -/
structure Coding (k : Nat) (s : Session) : Prop where
  sound : s.Sound
  openCode : ∃ m field, s.openCode = .ok (m, field) ∧ s.position = m.codeStart + k

/-- A method is open, and its code is closed. -/
structure Coded (s : Session) : Prop where
  sound : s.Sound
  method : ∃ m, s.method = some m ∧ m.codeLength = none

end Session

/-! ## 3. The pieces that operations are made of -/

namespace Assembly

variable {s : Session}

theorem runs_append (s : Session) (vs : List UInt8) : Runs (write vs) s () (s.append vs) := rfl

theorem succeeds_write (hs : s.Sound) (vs : List UInt8) :
    Succeeds (write vs) s fun _ t => t.Sound :=
  (runs_append s vs).succeeds (hs.append vs)

/-- Bytes that were written can be replaced, and nothing else changes. -/
theorem succeeds_overwrite (hs : s.Sound) {p : Nat} (vs : List UInt8)
    (hp : p + vs.length ≤ s.position) :
    Succeeds (overwrite p vs) s fun _ t => t.Sound ∧ t.method = s.method := by
  refine ⟨(), { s with buffer := s.buffer.replace p vs }, if_pos hp, hs.withBuffer ?_, rfl⟩
  rw [Buffer.position_replace]
  exact Nat.le_refl _

theorem succeeds_fillSpan (hs : s.Sound) {r : Reserved32} (hr : r.position + 4 ≤ s.position) :
    Succeeds (fillSpan r) s fun _ t => t.Sound := by
  have hspan : r.spanTo s.position = some (s.position - r.position - 4) := if_pos hr
  obtain ⟨_, t, hrun, ht, _⟩ :=
    succeeds_overwrite hs (Word.bytes32 (UInt32.ofNat (s.position - r.position - 4))) hr
  refine ⟨(), t, ?_, ht⟩
  unfold Runs fillSpan
  rw [hspan]
  exact hrun

theorem decides_standardPool (s : Session) :
    Decides standardPool s fun a t => t = s ∧ s.standard = some a := by
  cases hstd : s.standard with
  | some std =>
    refine .inl ⟨std, s, ?_, rfl, rfl⟩
    unfold Runs standardPool
    rw [hstd]
  | none =>
    refine .inr ⟨.misuse (if s.stage = .fresh then .classNotBegun else .standardPoolMissing), ?_⟩
    unfold standardPool
    rw [hstd]
    rfl

/-! ### Constants -/

theorem decides_beginClass (hs : s.Sound) (version : Version) :
    Decides (beginClass version) s fun _ t => t.HasRoom 7 := by
  obtain ⟨buffer, count, stage, std, method⟩ := s
  cases stage with
  | pooling field => exact .inr ⟨_, rfl⟩
  | pooled => exact .inr ⟨_, rfl⟩
  | fresh =>
    have hcount : count = 1 := hs.fresh rfl
    refine .inl ⟨(), _, rfl, ⟨?_, ?_, ((hs.append _).append _).method⟩, ⟨_, rfl⟩, ?_⟩
    · intro h
      cases h
    · intro field h
      cases h
      exact Nat.le_of_eq (Buffer.position_putBytes _ (Word.bytes16 0)).symm
    · change count + 7 ≤ poolLimit
      rw [hcount]
      decide

/-- In a class that is begun, constants may be counted. -/
theorem sound_added (hs : s.Sound) {field : Reserved16} (hstage : s.stage = .pooling field)
    (vs : List UInt8) (count : Nat) : ({ s.append vs with poolCount := count } : Session).Sound where
  fresh h := by
    have hfresh : s.stage = .fresh := h
    rw [hstage] at hfresh
    cases hfresh
  pooling := (hs.append vs).pooling
  method := (hs.append vs).method

theorem decides_addConstant (hs : s.Sound) (c : Constant) :
    Decides (addConstant c) s fun _ t => t.Sound := by
  obtain ⟨buffer, count, stage, std, method⟩ := s
  cases stage with
  | fresh => exact .inr ⟨_, rfl⟩
  | pooled => exact .inr ⟨_, rfl⟩
  | pooling field =>
    unfold Decides Succeeds Runs addConstant
    dsimp only
    by_cases hfull : count = poolLimit
    · rw [if_pos hfull]
      exact .inr ⟨_, rfl⟩
    · rw [if_neg hfull]
      cases c.bytes with
      | error fault => exact .inr ⟨fault, rfl⟩
      | ok bytes => exact .inl ⟨_, _, rfl, sound_added hs rfl bytes _⟩

theorem succeeds_addConstant {n : Nat} (h : s.HasRoom (n + 1)) {c : Constant} (hc : c.Writable) :
    Succeeds (addConstant c) s fun _ t => t.HasRoom n := by
  obtain ⟨buffer, count, stage, std, method⟩ := s
  obtain ⟨field, rfl⟩ : ∃ field, stage = .pooling field := h.pooling
  have hcount : count + (n + 1) ≤ poolLimit := h.count
  have hfull : ¬ count = poolLimit := by omega
  have hbytes : c.bytes = .ok c.written := hc
  refine ⟨UInt16.ofNat count, ⟨buffer.putBytes c.written, count + 1, .pooling field, std, method⟩, ?_,
    sound_added h.sound rfl c.written (count + 1), ⟨field, rfl⟩, ?_⟩
  · unfold Runs addConstant
    dsimp only
    rw [if_neg hfull, hbytes]
  · change count + 1 + n ≤ poolLimit
    omega

theorem decides_finishPool (hs : s.Sound) : Decides finishPool s fun _ t => t.Sound := by
  obtain ⟨buffer, count, stage, std, method⟩ := s
  cases stage with
  | fresh => exact .inr ⟨_, rfl⟩
  | pooled => exact .inr ⟨_, rfl⟩
  | pooling field =>
    have hpooled : Session.Sound ⟨buffer, count, .pooled, std, method⟩ :=
      { fresh := fun h => by cases h
        pooling := fun _ h => by cases h
        method := hs.method }
    obtain ⟨_, t, hrun, ht, _⟩ := succeeds_overwrite hpooled
      (Word.bytes16 (UInt16.ofNat count)) (hs.pooling field rfl)
    exact .inl ⟨(), t, hrun, ht⟩

/-- **Nothing that follows the header of a class can be refused.** -/
theorem decides_setupPool (hs : s.Sound) : Decides setupPool s fun _ t => t.Sound := by
  unfold setupPool
  refine (decides_beginClass hs .written).bind fun _ t ht => ?_
  refine (succeeds_addConstant ht (by decide)).bind fun _ t ht => ?_
  refine (succeeds_addConstant ht (Constant.writable_cls _)).bind fun _ t ht => ?_
  refine (succeeds_addConstant ht (by decide)).bind fun _ t ht => ?_
  refine (succeeds_addConstant ht (by decide)).bind fun _ t ht => ?_
  refine (succeeds_addConstant ht (Constant.writable_nameAndType _ _)).bind fun _ t ht => ?_
  refine (succeeds_addConstant ht (Constant.writable_member _ _ _)).bind fun _ t ht => ?_
  refine (succeeds_addConstant ht (by decide)).bind fun _ t ht => ?_
  exact ⟨_, _, rfl, ht.sound.fresh, ht.sound.pooling, ht.sound.method⟩

/-! ### Methods -/

theorem decides_beginMethod (hs : s.Sound) (flags : MethodFlags)
    (name descriptor maxStack maxLocals : UInt16) :
    Decides (beginMethod flags name descriptor maxStack maxLocals) s fun _ t => t.Coding 0 := by
  obtain ⟨buffer, count, stage, std, method⟩ := s
  cases method with
  | some m => exact .inr ⟨_, rfl⟩
  | none =>
    cases std with
    | none => exact .inr ⟨_, rfl⟩
    | some std =>
      -- a buffer is the list of its bytes, and a method is opened behind any of these
      refine .inl ⟨(), _, runs_openMethod (l := buffer.toList), ?_⟩
      have hposition : ∀ m : MethodText, (Buffer.ofList (buffer.toList ++
          m.head std.codeAttribute 0 0)).position = buffer.toList.length + 22 := by
        intro m
        simp only [Buffer.position_ofList, MethodText.head, List.length_append, Word.length_bytes16,
          Word.length_bytes32]
      have hlength : buffer.toList.length = buffer.position := buffer.length_toList
      refine ⟨⟨hs.fresh, fun field hf => ?_, ?_⟩, _, _, rfl, hposition _⟩
      · have hfield : field.position + 2 ≤ buffer.position := hs.pooling field hf
        refine Nat.le_trans ?_ (Nat.le_of_eq (hposition _).symm)
        omega
      · intro m hm
        cases hm
        refine ⟨?_, Nat.le_of_eq (hposition _).symm, ?_⟩
        · refine Nat.le_trans ?_ (Nat.le_of_eq (hposition _).symm)
          dsimp only
          omega
        · intro field hf
          cases hf
          rfl

/-- The code that a session has open, with the bytes of it so far. -/
theorem coding_of_openCode (hs : s.Sound) {m : OpenMethod} {field : Reserved32}
    (h : s.openCode = .ok (m, field)) :
    s.method = some m ∧ m.codeLength = some field ∧ s.Coding (s.position - m.codeStart) := by
  obtain ⟨hm, hf⟩ := Session.method_of_openCode h
  have hcode := (hs.method m hm).code
  exact ⟨hm, hf, hs, m, field, h, by omega⟩

theorem decides_codeOffset (hs : s.Sound) :
    Decides codeOffset s fun a t => t = s ∧ s.Coding a := by
  unfold Decides Succeeds Runs codeOffset
  cases ho : s.openCode with
  | error cause => exact .inr ⟨_, rfl⟩
  | ok opened =>
    obtain ⟨m, field⟩ := opened
    obtain ⟨hm, _, hcoding⟩ := coding_of_openCode hs ho
    dsimp only
    rw [if_pos (hs.method m hm).code]
    exact .inl ⟨_, s, rfl, rfl, hcoding⟩

theorem succeeds_emit {k : Nat} (h : s.Coding k) (vs : List UInt8) :
    Succeeds (emit vs) s fun _ t => t.Coding (k + vs.length) := by
  obtain ⟨m, field, ho, hposition⟩ := h.openCode
  refine ⟨(), s.append vs, ?_, h.sound.append vs, m, field, ho, ?_⟩
  · unfold Runs emit
    rw [ho]
    rfl
  · rw [Session.position_append]
    omega

theorem decides_emit (hs : s.Sound) (vs : List UInt8) : Decides (emit vs) s fun _ t => t.Sound := by
  cases ho : s.openCode with
  | error cause =>
    refine .inr ⟨.misuse cause, ?_⟩
    unfold emit
    rw [ho]
    rfl
  | ok opened =>
    obtain ⟨_, _, hcoding⟩ := coding_of_openCode hs ho
    exact (succeeds_emit hcoding vs).decides.mono fun _ _ ht => ht.sound

theorem decides_jump (hs : s.Sound) (opcode : UInt8) :
    Decides (jump opcode) s fun _ t => t.Sound := by
  unfold jump
  refine (decides_codeOffset hs).bind fun k t ht => ?_
  obtain ⟨rfl, hcoding⟩ := ht
  refine (succeeds_emit hcoding [opcode]).bind fun _ u hu => ?_
  refine (runs_get u).bind_succeeds ((runs_append u _).bind_succeeds ?_)
  exact (runs_pure _ _).succeeds (hu.sound.append _)

/-- **Closing the code**: its length is what was written behind the field for it. -/
theorem endCode_eq (hs : s.Sound) {m : OpenMethod} {field : Reserved32}
    (ho : s.openCode = .ok (m, field)) :
    endCode s =
      if s.position - m.codeStart = 0 then refuse .emptyCode s
      else if codeLimit ≤ s.position - m.codeStart then
        refuse (.codeTooLarge (s.position - m.codeStart)) s
      else overwrite field.position (Word.bytes32 (UInt32.ofNat (s.position - m.codeStart)))
        { s with method := some { m with codeLength := none } } := by
  obtain ⟨hm, hf, _⟩ := coding_of_openCode hs ho
  have hcode := (hs.method m hm).code
  have hfield := (hs.method m hm).length field hf
  have hspan : field.spanTo s.position = some (s.position - m.codeStart) := by
    unfold Reserved32.spanTo
    rw [if_pos (by omega)]
    congr 1
    omega
  unfold endCode
  rw [ho]
  dsimp only
  rw [hspan]

theorem succeeds_endCode {k : Nat} (h : s.Coding k) (hne : k ≠ 0) (hlimit : k < codeLimit) :
    Succeeds endCode s fun _ t => t.Coded := by
  obtain ⟨m, field, ho, hposition⟩ := h.openCode
  obtain ⟨hm, hf, _⟩ := coding_of_openCode h.sound ho
  have hwithin := h.sound.method m hm
  have hfield := hwithin.length field hf
  have hlength : s.position - m.codeStart = k := by omega
  have hclosed : ({ s with method := some { m with codeLength := none } } : Session).Sound :=
    { fresh := h.sound.fresh
      pooling := h.sound.pooling
      method := fun m' hm' => by
        cases hm'
        exact ⟨hwithin.attributes, hwithin.code, fun _ hnone => by cases hnone⟩ }
  have hroom : field.position + (Word.bytes32 (UInt32.ofNat k)).length ≤ s.position := by
    rw [Word.length_bytes32]
    omega
  obtain ⟨_, t, hrun, ht, hmethod⟩ := succeeds_overwrite hclosed _ hroom
  refine ⟨(), t, ?_, ht, _, hmethod, rfl⟩
  unfold Runs
  rw [endCode_eq h.sound ho, hlength, if_neg hne, if_neg (Nat.not_le.mpr hlimit)]
  exact hrun

theorem decides_endCode (hs : s.Sound) : Decides endCode s fun _ t => t.Sound := by
  cases ho : s.openCode with
  | error cause =>
    refine .inr ⟨.misuse cause, ?_⟩
    unfold endCode
    rw [ho]
    rfl
  | ok opened =>
    obtain ⟨m, field⟩ := opened
    obtain ⟨_, _, hcoding⟩ := coding_of_openCode hs ho
    have hend := endCode_eq hs ho
    by_cases hne : s.position - m.codeStart = 0
    · rw [if_pos hne] at hend
      exact .inr ⟨_, hend⟩
    rw [if_neg hne] at hend
    by_cases hlimit : codeLimit ≤ s.position - m.codeStart
    · rw [if_pos hlimit] at hend
      exact .inr ⟨_, hend⟩
    have hclosed := succeeds_endCode hcoding hne (Nat.lt_of_not_le hlimit)
    exact hclosed.decides.mono fun _ _ ht => ht.sound

theorem succeeds_endMethod (h : s.Coded) : Succeeds endMethod s fun _ t => t.Sound := by
  obtain ⟨m, hm, hclosed⟩ := h.method
  have hspan := (h.sound.method m hm).attributes
  obtain ⟨_, t, hrun, ht⟩ := succeeds_fillSpan h.sound.withoutMethod hspan
  refine ⟨(), t, ?_, ht⟩
  unfold Runs endMethod Session.openMethod
  rw [hm]
  dsimp only
  rw [hclosed]
  exact hrun

theorem decides_endMethod (hs : s.Sound) : Decides endMethod s fun _ t => t.Sound := by
  obtain ⟨buffer, count, stage, std, method⟩ := s
  cases method with
  | none => exact .inr ⟨_, rfl⟩
  | some m =>
    obtain ⟨attributeLength, codeLength, codeStart⟩ := m
    cases codeLength with
    | some field => exact .inr ⟨_, rfl⟩
    | none => exact .inl (succeeds_endMethod ⟨hs, _, rfl, rfl⟩)

theorem succeeds_appendIntFrame (hs : s.Sound) (name target : UInt16) :
    Succeeds (appendIntFrame name target) s fun _ t => t.Sound := by
  have hreserve : ∀ s : Session, Runs reserve32 s ⟨s.position⟩ (s.append (Word.bytes32 0)) :=
    fun _ => rfl
  unfold appendIntFrame
  refine (runs_append s _).bind_succeeds ((hreserve _).bind_succeeds
    ((runs_append _ _).bind_succeeds ?_))
  refine succeeds_fillSpan (((hs.append _).append _).append _) ?_
  simp only [Session.position_append, Word.length_bytes32]
  omega

/-- **Nothing that follows the opening of a constructor can be refused.** -/
theorem decides_defineDefaultConstructor (hs : s.Sound) :
    Decides defineDefaultConstructor s fun _ t => t.Sound := by
  unfold defineDefaultConstructor
  refine (decides_standardPool s).bind_check fun std _ => ?_
  refine (decides_beginMethod hs _ _ _ _ _).bind fun _ t ht => ?_
  refine (succeeds_emit ht _).bind fun _ t ht => ?_
  refine (succeeds_emit ht _).bind fun _ t ht => ?_
  refine (succeeds_emit ht _).bind fun _ t ht => ?_
  refine (succeeds_endCode (k := 5) ht (by decide) (by decide)).bind fun _ t ht => ?_
  refine (runs_append t _).bind_succeeds ?_
  exact succeeds_endMethod ⟨ht.sound.append _, ht.method⟩

end Assembly

/-! ## 4. Requests -/

/-- The request names a place among the bytes, which may lie past their end. -/
def Request.addresses : Request → Bool
  | .placeJump _ | .overwrite16 _ _ | .overwrite32 _ _ | .byteAt _ => true
  | _ => false

namespace Assembly

variable {s : Session}

/-- From `s` the operation leads to a sound session, or it fails and has changed nothing. -/
def Atomic {α : Type} (x : Assembly α) (s : Session) : Prop :=
  Succeeds x s (fun _ t => t.Sound) ∨ ∃ e, x s = .error e s

theorem Decides.atomic {α : Type} {x : Assembly α} (h : Decides x s fun _ t => t.Sound) :
    Atomic x s := by
  rcases h with h | ⟨fault, he⟩
  · exact .inl h
  · exact .inr ⟨_, he⟩

theorem Atomic.map {α β : Type} {x : Assembly α} (h : Atomic x s) (g : α → β) :
    Atomic (g <$> x) s := by
  rcases h with ⟨a, t, hrun, ht⟩ | ⟨e, he⟩
  · exact .inl ⟨g a, t, hrun.map g, ht⟩
  · exact .inr ⟨e, map_eq_error he g⟩

theorem Atomic.done {x : Assembly Unit} (h : Atomic x s) : Atomic (done x) s := by
  rcases h with ⟨_, t, hrun, ht⟩ | ⟨e, he⟩
  · exact .inl ⟨_, t, hrun.done, ht⟩
  · exact .inr ⟨e, done_eq_error he⟩

/-- A position that the caller gives is checked before anything is written there. -/
theorem atomic_overwrite (hs : s.Sound) (p : Nat) (vs : List UInt8) : Atomic (overwrite p vs) s := by
  by_cases hp : p + vs.length ≤ s.position
  · obtain ⟨a, t, hrun, ht, _⟩ := succeeds_overwrite hs vs hp
    exact .inl ⟨a, t, hrun, ht⟩
  · exact .inr ⟨.outOfBounds, if_neg hp⟩

theorem atomic_byteAt (hs : s.Sound) (p : Nat) : Atomic (byteAt p) s := by
  unfold Atomic Succeeds Runs byteAt
  cases s.buffer.get? p with
  | some b => exact .inl ⟨b, s, rfl, hs⟩
  | none => exact .inr ⟨_, rfl⟩

/-- Wherever a site comes from, the place of its operand is the last thing that is checked. -/
theorem atomic_placeJump (hs : s.Sound) (site : JumpSite) : Atomic (placeJump site) s := by
  unfold placeJump
  rcases decides_codeOffset hs with ⟨target, _, hrun, rfl, _⟩ | ⟨fault, he⟩
  · unfold Atomic Succeeds Runs
    rw [hrun.bind_eq]
    dsimp only
    by_cases hback : target ≤ site.instructionOffset
    · rw [if_pos hback]
      exact .inr ⟨_, rfl⟩
    rw [if_neg hback]
    by_cases hfar : maxJump < target - site.instructionOffset
    · rw [if_pos hfar]
      exact .inr ⟨_, rfl⟩
    rw [if_neg hfar]
    rcases atomic_overwrite hs site.operandPosition
      (Word.bytes16 (UInt16.ofNat (target - site.instructionOffset))) with
        ⟨_, t, hwrite, ht⟩ | ⟨e, he⟩
    · exact .inl ⟨target, t, hwrite.bind (runs_pure _ _), ht⟩
    · exact .inr ⟨e, bind_eq_error he _⟩
  · exact .inr ⟨_, bind_eq_error he _⟩

theorem decides_defineClass (hs : s.Sound) (flags : ClassFlags) (this : UInt16) :
    Decides (defineClass flags this) s fun _ t => t.Sound :=
  (decides_standardPool s).bind_check fun _ _ => (succeeds_write hs _).decides

theorem decides_declareInterfaces (hs : s.Sound) (classes : List UInt16) :
    Decides (declareInterfaces classes) s fun _ t => t.Sound := by
  by_cases hfits : classes.length ≤ 65535
  · obtain ⟨a, t, hrun, ht⟩ := succeeds_write hs
      (Word.bytes16 (UInt16.ofNat classes.length) ++ classes.flatMap Word.bytes16)
    exact .inl ⟨a, t, (if_pos hfits).trans hrun, ht⟩
  · exact .inr ⟨_, if_neg hfits⟩

theorem decides_defineAttribute (hs : s.Sound) (name : UInt16) (info : List UInt8) :
    Decides (defineAttribute name info) s fun _ t => t.Sound := by
  by_cases hfits : info.length ≤ 4294967295
  · obtain ⟨a, t, hrun, ht⟩ := succeeds_write hs
      (Word.bytes16 name ++ Word.bytes32 (UInt32.ofNat info.length) ++ info)
    exact .inl ⟨a, t, (if_pos hfits).trans hrun, ht⟩
  · exact .inr ⟨_, if_neg hfits⟩

theorem Decides.map {α β : Type} {x : Assembly α} {P : Session → Prop}
    (h : Decides x s fun _ t => P t) (g : α → β) : Decides (g <$> x) s fun _ t => P t := by
  rcases h with ⟨a, t, hrun, ht⟩ | ⟨fault, he⟩
  · exact .inl ⟨g a, t, hrun.map g, ht⟩
  · exact .inr ⟨fault, map_eq_error he g⟩

theorem Decides.done {x : Assembly Unit} {P : Session → Prop} (h : Decides x s fun _ t => P t) :
    Decides (done x) s fun _ t => P t := by
  rcases h with ⟨_, t, hrun, ht⟩ | ⟨fault, he⟩
  · exact .inl ⟨_, t, hrun.done, ht⟩
  · exact .inr ⟨fault, done_eq_error he⟩

/-- **One request that names no place**: it leads to a sound session, or it is refused and has changed
    nothing. -/
theorem decides_perform (hs : s.Sound) {request : Request} (h : request.addresses = false) :
    Decides (perform request) s fun _ t => t.Sound := by
  have hwrite : ∀ vs, Decides (done (write vs)) s fun _ t => t.Sound :=
    fun vs => (succeeds_write hs vs).decides.done
  have hemit : ∀ vs, Decides (done (emit vs)) s fun _ t => t.Sound :=
    fun vs => (decides_emit hs vs).done
  cases request with
  | beginClass version =>
    exact ((decides_beginClass hs version).mono fun _ _ ht => ht.sound).done
  | setupPool => exact (decides_setupPool hs).map _
  | addConstant c => exact (decides_addConstant hs c).map _
  | finishPool => exact (decides_finishPool hs).done
  | defineClass flags this => exact (decides_defineClass hs flags this).done
  | defineClassWithSuper flags this super => exact hwrite _
  | declareInterfaces classes => exact (decides_declareInterfaces hs classes).done
  | declareCount count => exact hwrite _
  | defineField flags name descriptor => exact hwrite _
  | defineDefaultConstructor => exact (decides_defineDefaultConstructor hs).done
  | defineAttribute name info => exact (decides_defineAttribute hs name info).done
  | beginMethod flags name descriptor maxStack maxLocals =>
    exact ((decides_beginMethod hs _ _ _ _ _).mono fun _ _ ht => ht.sound).done
  | codeOffset =>
    exact ((decides_codeOffset hs).mono fun _ _ ht => ht.1 ▸ hs).map _
  | op opcode => exact hemit _
  | pushInt value => exact hemit _
  | iload slot => exact hemit _
  | istore slot => exact hemit _
  | aload slot => exact hemit _
  | getField field => exact hemit _
  | putField field => exact hemit _
  | invokeInterface method slots => exact hemit _
  | jump opcode => exact (decides_jump hs opcode).map _
  | endCode => exact (decides_endCode hs).done
  | codeAttributes count => exact hwrite _
  | appendIntFrame name target => exact (succeeds_appendIntFrame hs name target).decides.done
  | endMethod => exact (decides_endMethod hs).done
  | putU8 value => exact hwrite _
  | putU16 value => exact hwrite _
  | putI16 value => exact hwrite _
  | putU32 value => exact hwrite _
  | clear => exact .inl ⟨_, _, rfl, Session.sound_empty⟩
  | placeJump _ | overwrite16 _ _ | overwrite32 _ _ | byteAt _ => cases h

/-- **One request**: it leads to a sound session, or it fails and has changed nothing. -/
theorem atomic_perform (hs : s.Sound) (request : Request) : Atomic (perform request) s := by
  by_cases haddresses : request.addresses = false
  · exact (decides_perform hs haddresses).atomic
  cases request with
  | placeJump site => exact (atomic_placeJump hs site).map _
  | overwrite16 p value => exact (atomic_overwrite hs p _).done
  | overwrite32 p value => exact (atomic_overwrite hs p _).done
  | byteAt p => exact (atomic_byteAt hs p).map _
  | _ => exact absurd rfl haddresses

end Assembly

/-! ## 5. Runs -/

/-- The site that a request uses up, whatever comes of it. -/
def Request.spend : Request → List JumpSite → List JumpSite
  | .placeJump site, held => held.erase site
  | _, held => held

/-- The site that a reply hands out. -/
def Reply.hand : Reply → List JumpSite → List JumpSite
  | .site issued, held => issued :: held
  | _, held => held

/-- A session at work, and the jump sites that its caller holds. -/
structure Bench where
  session : Session
  held : List JumpSite
  deriving DecidableEq, Repr

namespace Bench

/-- The bench after a request, whether it succeeded or not. -/
def after (b : Bench) (request : Request) : Bench :=
  match Assembly.perform request b.session with
  | .ok reply t => ⟨t, reply.hand (request.spend b.held)⟩
  | .error _ t => ⟨t, request.spend b.held⟩

/-- Requests one after another, from an empty session. -/
def run (requests : List Request) : Bench := requests.foldl after ⟨.empty, []⟩

theorem run_concat (requests : List Request) (request : Request) :
    run (requests ++ [request]) = (run requests).after request :=
  List.foldl_concat ..

theorem sound_after {b : Bench} (hb : b.session.Sound) (request : Request) :
    (b.after request).session.Sound := by
  unfold after
  rcases Assembly.atomic_perform hb request with ⟨reply, t, hrun, ht⟩ | ⟨e, he⟩
  · rw [show Assembly.perform request b.session = _ from hrun]
    exact ht
  · rw [he]
    exact hb

/-- **Every session that requests lead to is sound.** -/
theorem sound_run (requests : List Request) : (run requests).session.Sound :=
  List.foldlRecOn (motive := fun b : Bench => b.session.Sound) requests after Session.sound_empty
    fun _ hb request _ => sound_after hb request

/-- **A request that fails changes nothing.**  Whatever was asked before, in whatever order, and
    whatever came of it: after a request that failed the session is exactly as before, and the caller
    holds the same jump sites, but for the one that the request was to place. -/
theorem failure_leaves_session (requests : List Request) (request : Request) {e : Failure}
    {t : Session} (h : Assembly.perform request (run requests).session = .error e t) :
    t = (run requests).session ∧
      run (requests ++ [request]) = ⟨(run requests).session, request.spend (run requests).held⟩ := by
  have hsession : t = (run requests).session := by
    rcases Assembly.atomic_perform (sound_run requests) request with ⟨_, _, hrun, _⟩ | ⟨_, he⟩
    · cases hrun.symm.trans h
    · rw [he] at h
      cases h
      rfl
  refine ⟨hsession, ?_⟩
  rw [run_concat, after, h, hsession]

/-- Two methods, of which the first leaves a jump at its second byte without a target. -/
def straying : List Request :=
  [.setupPool, .finishPool, .beginMethod .public 3 4 1 1, .op Opcode.iconst0, .jump Opcode.ifeq,
    .endCode, .endMethod, .beginMethod .public 3 4 1 1]

/-- In the second method no byte is written yet, so placing the jump there is refused. -/
theorem failure_leaves_session_straying :
    let s := (run straying).session
    (run straying).held = [⟨1, 88⟩] ∧
    Assembly.perform (.placeJump ⟨1, 88⟩) s = .error (.refused (.misuse .backwardJump)) s ∧
    run (straying ++ [.placeJump ⟨1, 88⟩]) = ⟨s, []⟩ := by
  intro s
  have hheld : (run straying).held = [⟨1, 88⟩] := by decide
  have hmethod : s.method = some ⟨⟨100⟩, some ⟨108⟩, 112⟩ := by decide
  have hposition : s.position = 112 := by decide
  have hoffset : Assembly.Runs Assembly.codeOffset s 0 s := by
    unfold Assembly.Runs Assembly.codeOffset Session.openCode Session.openMethod
    rw [hmethod, hposition]
    rfl
  have hplace : Assembly.placeJump ⟨1, 88⟩ s = .error (.refused (.misuse .backwardJump)) s :=
    (hoffset.bind_eq _).trans rfl
  have hfails : Assembly.perform (.placeJump ⟨1, 88⟩) s =
      .error (.refused (.misuse .backwardJump)) s := Assembly.map_eq_error hplace _
  obtain ⟨_, hrun⟩ := failure_leaves_session straying (.placeJump ⟨1, 88⟩) hfails
  rw [hheld] at hrun
  exact ⟨hheld, hfails, hrun⟩

end Bench

end Collation
