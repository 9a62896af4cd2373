/-
  File:      Collation/Proofs/Assembler/Places.lean
  Subject:   Where the fields of a session stand, and which bytes it leaves alone.

  A session writes at its end, and fills in three fields that it has written before: the number of
  constants behind the header of the class, and the two lengths in the head of the open method.
  All other bytes that it has written are out of its reach.  Only a caller who places a jump or
  overwrites bytes can have them changed.

  * `Session.OutOfReach` -- the bytes from one place to another stay as they are;
  * **`Session.Trail.get?_eq`** -- so they do, along any calls that do not rewrite them;
  * `Session.Traced` -- where the fields stand, told by the journal;
  * **`Session.Trail.traced`** -- they always stand there;
  * `Session.Traced.of_finishPool`, `Session.Trail.of_endCode`, `Session.Trail.of_endMethod` -- a field
    that is filled in is out of reach from then on.
-/
import Collation.Proofs.Assembler.Journal
import Collation.Proofs.Bytes.Patching

namespace Collation

/-! ## 1. Bytes out of reach -/

/-- The request replaces the byte at `i`, because its caller names the place. -/
def Request.Rewrites (i : Nat) : Request → Prop
  | .placeJump site => site.operandPosition ≤ i ∧ i < site.operandPosition + 2
  | .overwrite16 p _ => p ≤ i ∧ i < p + 2
  | .overwrite32 p _ => p ≤ i ∧ i < p + 4
  | _ => False

/-- The fields of an open method lie outside the bytes from `lo` to `hi`, and its code behind them. -/
structure OpenMethod.Avoids (m : OpenMethod) (lo hi : Nat) : Prop where
  attributes : m.attributeLength.position + 4 ≤ lo ∨ hi ≤ m.attributeLength.position
  length : ∀ field, m.codeLength = some field → field.position + 4 ≤ lo ∨ hi ≤ field.position
  code : hi ≤ m.codeStart

namespace Session

variable {s t s₀ : Session} {request : Request} {reply : Reply} {journal : Journal} {lo hi i : Nat}

-- Its lemmas say all of it that is used here, and unfolding it costs much time.
attribute [local irreducible] Buffer.replace

/-- The bytes from `lo` to `hi` are written, and no field that is still to be filled in is among
    them. -/
structure OutOfReach (s : Session) (lo hi : Nat) : Prop where
  written : hi ≤ s.position
  pooling : ∀ field, s.stage = .pooling field → field.position + 2 ≤ lo ∨ hi ≤ field.position
  method : ∀ m, s.method = some m → m.Avoids lo hi

/-- What a step adds, it adds behind all that is written. -/
theorem Step.outOfReach (h : s.Step request reply t) (hr : s.OutOfReach lo hi) :
    t.OutOfReach lo hi where
  written := Nat.le_trans hr.written h.position_le
  pooling field hfield := by
    rcases h.stage_cases with ⟨_, hsame⟩ | ⟨_, _, hbegun, _⟩ | ⟨_, _, hpooled⟩
    · exact hr.pooling field (hsame.symm.trans hfield)
    · cases hbegun.symm.trans hfield
      exact .inr (Nat.le_trans hr.written (Nat.le_add_right _ _))
    · cases hpooled.symm.trans hfield
  method m hm := by
    rcases h.method_cases with ⟨_, hsame⟩ | ⟨_, _, _, hopen⟩ | ⟨_, m', hm', hclosed⟩ | ⟨_, hnone⟩
    · exact hr.method m (hsame.symm.trans hm)
    · cases hopen.symm.trans hm
      have hwritten := hr.written
      refine ⟨.inr ?_, fun field hfield => .inr ?_, ?_⟩
      · dsimp only
        omega
      · cases hfield
        dsimp only
        omega
      · dsimp only
        omega
    · cases hclosed.symm.trans hm
      have havoids := hr.method m' hm'
      exact ⟨havoids.attributes, (fun _ hfield => by cases hfield), havoids.code⟩
    · cases hnone.symm.trans hm

/-- **One step leaves alone what is out of reach**, if its caller does not name it. -/
theorem Step.get?_eq (h : s.Step request reply t) (hr : s.OutOfReach lo hi) (hlo : lo ≤ i)
    (hhi : i < hi) (hno : ¬ request.Rewrites i) : t.buffer.get? i = s.buffer.get? i := by
  have hwritten : i < s.buffer.position := Nat.lt_of_lt_of_le hhi hr.written
  have happend : ∀ vs, (s.append vs).buffer.get? i = s.buffer.get? i :=
    s.buffer.get?_putBytes_of_lt hwritten
  have hpatch : ∀ {p : Nat} {vs : List UInt8}, p + vs.length ≤ lo ∨ hi ≤ p →
      (s.patch p vs).buffer.get? i = s.buffer.get? i := by
    intro p vs houtside
    exact s.buffer.get?_replace_of_outside (by omega)
  -- what a caller names is given byte by byte
  have hnamed : ∀ {p : Nat} {vs : List UInt8}, ¬ (p ≤ i ∧ i < p + vs.length) →
      (s.patch p vs).buffer.get? i = s.buffer.get? i := by
    intro p vs houtside
    exact s.buffer.get?_replace_of_outside (by omega)
  cases h with
  | writes _ vs _ => exact happend vs
  | beginsClass _ header _ _ => exact happend header
  | addsConstant _ vs _ _ => exact happend vs
  | setsUp _ _ => rfl
  | opensMethod _ _ _ _ _ head _ _ _ => exact happend head
  | jumps opcode _ _ => exact happend (opcode :: Word.bytes16 0)
  | finishesPool hstage => exact hpatch (hr.pooling _ hstage)
  | closesCode hmethod hfield _ _ => exact hpatch ((hr.method _ hmethod).length _ hfield)
  | endsMethod hmethod _ => exact hpatch (hr.method _ hmethod).attributes
  | placesJump _ _ _ _ _ => exact hnamed hno
  | overwrites16 _ _ _ => exact hnamed hno
  | overwrites32 _ _ _ => exact hnamed hno

theorem Trail.outOfReach (h : s₀.Trail journal t) (hr : s₀.OutOfReach lo hi) : t.OutOfReach lo hi := by
  induction h with
  | nil => exact hr
  | cons _ hstep ih => exact hstep.outOfReach ih

/-- **Calls leave alone what is out of reach**, if none of them names it. -/
theorem Trail.get?_eq (h : s₀.Trail journal t) (hr : s₀.OutOfReach lo hi) (hlo : lo ≤ i)
    (hhi : i < hi) (hno : ∀ e ∈ journal, ¬ e.request.Rewrites i) :
    t.buffer.get? i = s₀.buffer.get? i := by
  induction h with
  | nil => rfl
  | cons h hstep ih =>
    have hlast := hstep.get?_eq (h.outOfReach hr) hlo hhi (hno _ List.mem_cons_self)
    exact hlast.trans (ih fun e he => hno e (List.mem_cons_of_mem _ he))

/-! ## 2. Where the fields stand -/

/-- **Where the fields of a session stand**, told by its journal.  A method is opened only behind the
    ten bytes of a header. -/
structure Traced (journal : Journal) (s : Session) : Prop where
  count : s.poolCount = journal.added + 1
  fresh : s.stage = .fresh → journal.header? = none ∧ s.standard = none
  begun : s.stage ≠ .fresh → ∃ b, journal.header? = some b ∧ b.before.position + 10 ≤ s.position ∧
    ∀ field, s.stage = .pooling field → field.position = b.before.position + 8
  opened : ∀ o, journal.opening? = some o → ∃ b, journal.header? = some b ∧
    b.before.position + 10 ≤ o.before.position
  method : ∀ m, s.method = some m → ∃ o, journal.opening? = some o ∧
    m.attributeLength.position = o.before.position + 10 ∧ m.codeStart = o.before.position + 22 ∧
    ∀ field, m.codeLength = some field → field.position = o.before.position + 18

theorem traced_empty : Traced [] Session.empty where
  count := rfl
  fresh _ := ⟨rfl, rfl⟩
  begun h := absurd rfl h
  opened _ h := by cases h
  method _ h := by cases h

/-- A class is begun once. -/
theorem Traced.header?_of_step (h : Traced journal s) (hstep : s.Step request reply t)
    {b : JournalEntry} (hb : journal.header? = some b) :
    Journal.header? (⟨s, request, reply, t⟩ :: journal) = some b := by
  have hkind : request.kind ≠ .header := by
    intro hkind
    rcases hstep.stage_cases with ⟨hne, _⟩ | ⟨_, hfresh, _⟩ | ⟨hfinish, _⟩
    · exact hne hkind
    · cases hb.symm.trans (h.fresh hfresh).1
    · subst hfinish
      cases hkind
  rw [Journal.header?_cons, if_neg hkind, hb]

theorem Traced.step (h : Traced journal s) (hstep : s.Step request reply t) :
    Traced (⟨s, request, reply, t⟩ :: journal) t where
  count := by
    rw [Journal.added_cons]
    have hcount := h.count
    rcases hstep.poolCount_cases with ⟨hkind, hsame⟩ | ⟨hkind, _, _, _, hmore⟩
    · rw [if_neg hkind]
      omega
    · rw [if_pos hkind]
      omega
  fresh hfresh := by
    rcases hstep.stage_cases with ⟨hkind, hsame⟩ | ⟨_, _, hbegun, _⟩ | ⟨_, _, hpooled⟩
    · have hbefore := h.fresh (hsame.symm.trans hfresh)
      rw [Journal.header?_cons, if_neg hkind]
      rcases hstep.standard_cases with hstandard | ⟨field, hstage⟩
      · exact ⟨hbefore.1, hstandard.trans hbefore.2⟩
      · cases hstage.symm.trans (hsame.symm.trans hfresh)
    · cases hbegun.symm.trans hfresh
    · cases hpooled.symm.trans hfresh
  begun hbegun := by
    rcases hstep.stage_cases with ⟨_, hsame⟩ | ⟨hkind, _, hnew, hposition⟩ | ⟨_, ⟨field, hfield⟩, hpooled⟩
    · obtain ⟨b, hb, hle, hpooling⟩ := h.begun fun hfresh => hbegun (hsame.trans hfresh)
      refine ⟨b, h.header?_of_step hstep hb, Nat.le_trans hle hstep.position_le, ?_⟩
      intro field hfield
      exact hpooling field (hsame.symm.trans hfield)
    · refine ⟨_, (Journal.header?_cons _ _).trans (if_pos hkind), Nat.le_of_eq hposition.symm, ?_⟩
      intro field hfield
      cases hnew.symm.trans hfield
      rfl
    · obtain ⟨b, hb, hle, _⟩ := h.begun fun hfresh => by cases hfield.symm.trans hfresh
      refine ⟨b, h.header?_of_step hstep hb, Nat.le_trans hle hstep.position_le, ?_⟩
      intro field hfield
      cases hpooled.symm.trans hfield
  opened o ho := by
    rw [Journal.opening?_cons] at ho
    by_cases hkind : request.kind = .opening
    · rw [if_pos hkind] at ho
      cases ho
      rcases hstep.method_cases with ⟨hne, _⟩ | ⟨_, hstandard, _⟩ | ⟨rfl, _⟩ | ⟨rfl, _⟩
      · exact absurd hkind hne
      · -- a method needs the standard constants, which no fresh session has
        have hbegun : s.stage ≠ .fresh := by
          intro hfresh
          rw [(h.fresh hfresh).2] at hstandard
          cases hstandard
        obtain ⟨b, hb, hle, _⟩ := h.begun hbegun
        exact ⟨b, h.header?_of_step hstep hb, hle⟩
      · cases hkind
      · cases hkind
    · rw [if_neg hkind] at ho
      obtain ⟨b, hb, hle⟩ := h.opened o ho
      exact ⟨b, h.header?_of_step hstep hb, hle⟩
  method m hm := by
    rw [Journal.opening?_cons]
    rcases hstep.method_cases with ⟨hkind, hsame⟩ | ⟨hkind, _, _, hopen⟩ | ⟨rfl, m', hm', hclosed⟩ |
      ⟨_, hnone⟩
    · rw [if_neg hkind]
      exact h.method m (hsame.symm.trans hm)
    · rw [if_pos hkind]
      cases hopen.symm.trans hm
      refine ⟨_, rfl, rfl, rfl, fun field hfield => ?_⟩
      cases hfield
      rfl
    · obtain ⟨o, ho, hattributes, hcode, _⟩ := h.method m' hm'
      cases hclosed.symm.trans hm
      exact ⟨o, ho, hattributes, hcode, (fun _ hfield => by cases hfield)⟩
    · cases hnone.symm.trans hm

/-- **The fields of every session stand where its journal tells.** -/
theorem Trail.traced (h : Session.empty.Trail journal s) : Traced journal s := by
  induction h with
  | nil => exact traced_empty
  | cons _ hstep ih => exact ih.step hstep

/-- The number of constants stands before every method. -/
theorem Traced.pooling_le (h : Traced journal s) {o : JournalEntry} (ho : journal.opening? = some o)
    {field : Reserved16} (hfield : s.stage = .pooling field) :
    field.position + 2 ≤ o.before.position := by
  obtain ⟨b, hb, hle⟩ := h.opened o ho
  obtain ⟨b', hb', _, hplace⟩ := h.begun fun hfresh => by cases hfield.symm.trans hfresh
  cases hb.symm.trans hb'
  have hposition := hplace field hfield
  omega

/-- A journal is cut in three where a method was opened last. -/
theorem Trail.at_opening (h : s₀.Trail journal s) {o : JournalEntry}
    (ho : journal.opening? = some o) :
    ∃ earlier, journal = journal.inside ++ o :: earlier ∧ s₀.Trail earlier o.before ∧
      o.after.position = o.before.position + 22 ∧ o.after.Trail journal.inside s := by
  obtain ⟨hkind, earlier, hjournal⟩ := Journal.exists_of_opening? ho
  rw [hjournal] at h
  obtain ⟨hearlier, hstep, hinside⟩ := h.at_entry
  refine ⟨earlier, hjournal, hearlier, ?_, hinside⟩
  rcases hstep.method_cases with ⟨hne, _⟩ | ⟨_, _, hposition, _⟩ | ⟨hrequest, _⟩ | ⟨hrequest, _⟩
  · exact absurd hkind hne
  · exact hposition
  · rw [hrequest] at hkind
    cases hkind
  · rw [hrequest] at hkind
    cases hkind

/-! ## 3. What is filled in, and out of reach from then on -/

/-- The number of constants is filled in behind the header. -/
theorem Traced.of_finishPool (h : Traced journal s) (hstep : s.Step .finishPool reply t) :
    ∃ b, journal.header? = some b ∧ b.before.position + 10 ≤ s.position ∧
      t.buffer = s.buffer.replace (b.before.position + 8)
        (Word.bytes16 (UInt16.ofNat s.poolCount)) ∧
      t.stage = .pooled ∧ t.poolCount = s.poolCount ∧
      t.OutOfReach (b.before.position + 8) (b.before.position + 10) := by
  obtain ⟨field, hstage, hafter⟩ := hstep.of_finishPool
  obtain ⟨b, hb, hle, hplace⟩ := h.begun fun hfresh => by cases hstage.symm.trans hfresh
  have hposition := hstep.position_le
  rw [hplace field hstage] at hafter
  subst hafter
  refine ⟨b, hb, hle, rfl, rfl, rfl, Nat.le_trans hle hposition, ?_, ?_⟩
  · intro other hother
    cases hother
  · intro m hm
    obtain ⟨o, ho, hattributes, hcode, hlength⟩ := h.method m hm
    obtain ⟨b', hb', hbehind⟩ := h.opened o ho
    cases hb.symm.trans hb'
    refine ⟨.inr (by omega), fun other hother => .inr ?_, by omega⟩
    have hother' := hlength other hother
    omega

/-- The length of the code is filled in before it. -/
theorem Trail.of_endCode (h : Session.empty.Trail journal s) (hstep : s.Step .endCode reply t) :
    ∃ o n, journal.opening? = some o ∧ o.after.position + n = s.position ∧ 1 ≤ n ∧ n ≤ 65535 ∧
      o.before.position + 22 ≤ s.position ∧
      t.buffer = s.buffer.replace (o.before.position + 18) (Word.bytes32 (UInt32.ofNat n)) ∧
      t.OutOfReach (o.before.position + 18) (o.before.position + 22) := by
  obtain ⟨m, field, hmethod, hlength, hne, hlimit, hafter⟩ := hstep.of_endCode
  obtain ⟨o, ho, hattributes, hcode, hfields⟩ := h.traced.method m hmethod
  obtain ⟨_, _, _, hopened, hinside⟩ := h.at_opening ho
  have hwritten := hinside.position_le
  have hposition := hstep.position_le
  have hlimit' : s.position - m.codeStart < 65536 := hlimit
  rw [hfields field hlength] at hafter
  refine ⟨o, s.position - m.codeStart, ho, by omega, by omega, by omega, by omega, ?_, ?_⟩
  · rw [hafter]
    rfl
  · refine ⟨by omega, fun other hother => .inl ?_, fun closed hclosed => ?_⟩
    · rw [hafter] at hother
      have hbefore := h.traced.pooling_le ho hother
      omega
    · rw [hafter] at hclosed
      cases hclosed
      refine ⟨.inl ?_, (fun _ hnone => by cases hnone), ?_⟩
      · change m.attributeLength.position + 4 ≤ _
        omega
      · change _ ≤ m.codeStart
        omega

/-- The length of the code attribute is filled in, and the whole method is out of reach. -/
theorem Trail.of_endMethod (h : Session.empty.Trail journal s)
    (hstep : s.Step .endMethod reply t) :
    ∃ o n, journal.opening? = some o ∧ o.before.position + 14 + n = s.position ∧
      t.buffer = s.buffer.replace (o.before.position + 10) (Word.bytes32 (UInt32.ofNat n)) ∧
      t.OutOfReach o.before.position t.position := by
  obtain ⟨m, hmethod, hafter⟩ := hstep.of_endMethod
  obtain ⟨o, ho, hattributes, hcode, _⟩ := h.traced.method m hmethod
  obtain ⟨_, _, _, hopened, hinside⟩ := h.at_opening ho
  have hwritten := hinside.position_le
  refine ⟨o, s.position - m.attributeLength.position - 4, ho, by omega, ?_, Nat.le_refl _, ?_, ?_⟩
  · rw [hafter, ← hattributes]
    rfl
  · intro field hfield
    rw [hafter] at hfield
    exact .inl (h.traced.pooling_le ho hfield)
  · intro opened hopened
    rw [hafter] at hopened
    cases hopened

end Session

end Collation
