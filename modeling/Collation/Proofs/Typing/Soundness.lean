/-
  File:      Collation/Proofs/Typing/Soundness.lean
  Subject:   Code that was checked does not get stuck.

  The walk through the instructions gives a frame for each of them.  A state fits when the frame
  of its next instruction describes it.  One step from a state that fits leads to a state that
  fits, or stops for a reason that the discipline explains; so does a whole run.

  * `Subject.Certificate.Fits` -- the invariant;
  * `Discipline.Explains` -- the ways in which a call may stop; operands of a wrong kind are none;
  * `Subject.Certificate.step_sound`, `Subject.Certificate.run_sound` -- one step, and a run.
-/
import Collation.Proofs.Typing.Acceptance
import Collation.Proofs.Typing.FrameSteps

namespace Collation

/-- **Why a call may stop.**  It returns what its type says; it traps on null, at the limit, on a
    reference that is not what its class name promises, or on one that may not be kept. -/
def Discipline.Explains {ρ : Type} {file : ClassFile} (D : Discipline ρ file)
    (type : MethodType) : Halt ρ → Prop
  | .returned none => type.result = none
  | .returned (some v) => type.result.map SlotType.ofField = some .int ∧ ∃ n, v = .int n
  | .trapped .nullReference => True
  | .trapped .stepLimit => True
  | .trapped .escapingReference => ∃ name record, D.allows name (.borrowed record)
  | .trapped .wrongReceiver =>
    D.allows recordClass .this ∨
      ∃ record, D.allows file.thisClass (.shared record) ∨ D.allows file.thisClass (.borrowed record)
  | .trapped .badOperands => False
  | .unreadable => True

namespace Subject

variable {ρ : Type} {s : Subject} {body : LinkedBody}

/-! ## 1. The invariant -/

/-- **The state is one that the walk foresees**: the frame of the next instruction describes it,
    and the fields are in order. -/
structure Certificate.Fits (cert : s.Certificate body) (D : Discipline ρ s.file) (st : State ρ) :
    Prop where
  frame : ∃ f, cert.along[st.next]? = some f ∧ D.Describes f st
  fields : D.FieldsFit st.fields

/-- A step goes on in a state that fits, or stops where it is for a reason that is explained. -/
def Certificate.Sound (cert : s.Certificate body) (D : Discipline ρ s.file) (st : State ρ) :
    Outcome ρ → Prop
  | .running st' => cert.Fits D st'
  | .halted h st' => st' = st ∧ D.Explains s.method.type h

/-- What the walk says about the instruction with number `i`. -/
structure Certificate.At (cert : s.Certificate body) (i pc : Nat) (instr : Decoded) (f f' : Frame) :
    Prop where
  listed : cert.listing[i]? = some (pc, instr)
  frame : cert.along[i]? = some f
  checked : s.checkInstr cert.frames f pc instr = .ok f'

variable {cert : s.Certificate body} {D : Discipline ρ s.file} {st : State ρ}
  {pc : Nat} {instr : Decoded} {f f' : Frame}

theorem Certificate.exists_at {i : Nat} (hf : cert.along[i]? = some f) :
    ∃ pc instr f', cert.At i pc instr f f' := by
  have hlt : i < cert.listing.length := by
    rw [← cert.walk.length_eq]
    exact (List.getElem?_eq_some_iff.mp hf).1
  have hi := List.getElem?_eq_getElem hlt
  obtain ⟨_, f₁, f', hf₁, _, hc, _⟩ := cert.walk.get hi
  rw [hf] at hf₁
  cases hf₁
  exact ⟨_, _, f', hi, hf, hc⟩

/-- **Going on**: the next instruction takes over the frame that this one leaves. -/
theorem Certificate.At.next {i : Nat} (h : cert.At i pc instr f f')
    (hu : instr.isUnconditional = false) {st' : State ρ} (hd : D.Describes f' st')
    (hn : st'.next = i + 1) (hfields : D.FieldsFit st'.fields) : cert.Fits D st' := by
  obtain ⟨_, f₁, f₁', hf₁, _, hc, hnext⟩ := cert.walk.get h.listed
  rw [h.frame] at hf₁
  cases hf₁
  rw [h.checked] at hc
  cases hc
  obtain ⟨pc', instr', g, _, hg, hframe⟩ := hnext hu
  refine ⟨⟨g, by rw [hn]; exact hg, ?_⟩, hfields⟩
  rcases frameAt_some hframe with rfl | ha
  · exact hd
  · exact hd.of_frameAssignable ha

/-- **Jumping**: the frame declared at the target takes over. -/
theorem Certificate.fits_jump {target j : Nat} {st' : State ρ}
    (hc : s.checkJump cert.frames f target = .ok ())
    (hj : indexAt (Listing.indexTable s.code.bytes.length cert.listing) target = some j)
    (hd : D.Describes f st') (hn : st'.next = j) (hfields : D.FieldsFit st'.fields) :
    cert.Fits D st' := by
  unfold checkJump at hc
  split at hc
  · cases hc
  · rename_i declared hdecl
    split at hc
    · rename_i ha
      obtain ⟨instr, hi⟩ := getElem?_of_indexAt hj
      obtain ⟨_, g, _, hg, hframe, _, _⟩ := cert.walk.get hi
      refine ⟨⟨g, by rw [hn]; exact hg, ?_⟩, hfields⟩
      rw [frameAt_declared hframe hdecl]
      exact hd.of_frameAssignable ha
    · cases hc

/-- A bound jump carries the number of the instruction at its target. -/
theorem indexAt_of_bound {starts : Array (Option Nat)} {target j : Nat}
    (hj : ClassFile.bindInstr s starts pc (.goto target) = .ok (.goto j)) :
    indexAt starts target = some j := by
  unfold ClassFile.bindInstr Instr.traverse at hj
  dsimp only at hj
  cases hi : indexAt starts target with
  | none =>
    rw [hi] at hj
    cases hj
  | some i =>
    rw [hi] at hj
    cases hj
    rfl

/-- **Branching**: the jump is taken, or the next instruction follows. -/
theorem Certificate.At.sound_branch (h : cert.At st.next pc instr f f')
    (hu : instr.isUnconditional = false) (hfields : D.FieldsFit st.fields) {target j : Nat}
    (hc : s.checkJump cert.frames f' target = .ok ())
    (hj : ClassFile.bindInstr s (Listing.indexTable s.code.bytes.length cert.listing) pc
      (.goto target) = .ok (.goto j)) {rest : List (Value ρ)}
    (hd : D.Describes f' { st with stack := rest }) (taken : Bool) :
    cert.Sound D st (Machine.branch st taken j rest) := by
  cases taken with
  | true => exact Certificate.fits_jump hc (indexAt_of_bound hj) ⟨hd.stack, hd.locals⟩ rfl hfields
  | false => exact h.next hu ⟨hd.stack, hd.locals⟩ rfl hfields

/-! ## 2. One instruction -/

/-- The step goes on with the next instruction in a state that the frame describes, and leaves
    the fields alone. -/
def Proceeds (D : Discipline ρ s.file) (f' : Frame) (st : State ρ) (out : Outcome ρ) : Prop :=
  ∃ st', out = .running st' ∧ st'.next = st.next + 1 ∧ st'.fields = st.fields ∧ D.Describes f' st'

theorem Certificate.At.sound_of_proceeds (h : cert.At st.next pc instr f f')
    (hu : instr.isUnconditional = false) (hfields : D.FieldsFit st.fields) {out : Outcome ρ}
    (hp : Proceeds D f' st out) : cert.Sound D st out := by
  obtain ⟨st', rfl, hn, he, hd⟩ := hp
  exact h.next hu hd hn (he ▸ hfields)

theorem proceeds_advance {stack : List (Value ρ)} (hd : D.Describes f' { st with stack := stack }) :
    Proceeds D f' st (Machine.advance st stack) :=
  ⟨_, rfl, rfl, rfl, ⟨hd.stack, hd.locals⟩⟩

theorem proceeds_load {n : Nat} {t : SlotType} {room : UInt16} (hd : D.Describes f st)
    (hl : f.local? n = .ok t) (hp : f.push t room = .ok f') :
    Proceeds D f' st (Machine.load st n) := by
  obtain ⟨v, hv, ht⟩ := hd.local hl
  unfold Machine.load
  rw [hv]
  exact proceeds_advance (hd.push hp ht)

theorem proceeds_store {n : Nat} {t : SlotType} {v : Value ρ} {rest : List (Value ρ)}
    (hst : st.stack = v :: rest) (hv : D.Holds t v) (hd : D.Describes f { st with stack := rest })
    (hl : f.setLocal n t = .ok f') : Proceeds D f' st (Machine.store st n) := by
  obtain ⟨hn, hstack, hlocals⟩ := hd.setLocal hl hv
  unfold Machine.store
  rw [hst]
  simp only
  rw [if_pos hn]
  exact ⟨_, rfl, rfl, rfl, ⟨hstack ▸ hd.stack, hlocals⟩⟩

/-- Two values of one type are taken from the stack, and an integer is put there. -/
theorem proceeds_binary {t : SlotType} {room : UInt16} {g : Frame} {out : Outcome ρ}
    (hd : D.Describes f st) (hp : s.file.popAll f [t, t] = .ok g) (hr : g.push .int room = .ok f')
    (hout : ∀ {v w : Value ρ} {rest : List (Value ρ)}, st.stack = v :: w :: rest → D.Holds t v →
      D.Holds t w → ∃ n, out = Machine.advance st (.int n :: rest)) : Proceeds D f' st out := by
  obtain ⟨v, w, rest, hst, hv, hw, hg⟩ := hd.popTwo hp
  obtain ⟨n, rfl⟩ := hout hst hv hw
  exact proceeds_advance (hg.push hr (Discipline.holds_int.mpr ⟨n, rfl⟩))

theorem proceeds_arithmetic (op : Int32 → Int32 → Int32) {room : UInt16} {g : Frame}
    (hd : D.Describes f st) (hp : s.file.popAll f [.int, .int] = .ok g)
    (hr : g.push .int room = .ok f') : Proceeds D f' st (Machine.arithmetic st op) := by
  refine proceeds_binary hd hp hr fun hst hv hw => ?_
  obtain ⟨b, rfl⟩ := Discipline.holds_int.mp hv
  obtain ⟨a, rfl⟩ := Discipline.holds_int.mp hw
  exact ⟨op a b, by rw [Machine.arithmetic, hst]⟩

/-- An integer is replaced by what is made of it. -/
theorem proceeds_unary {t : SlotType} {room : UInt16} {g : Frame} {out : Outcome ρ}
    {result : Int32 → Value ρ} (hd : D.Describes f st) (hp : s.file.popExpecting f .int = .ok g)
    (hr : g.push t room = .ok f') (hresult : ∀ a, D.Holds t (result a))
    (hout : ∀ {a : Int32} {rest : List (Value ρ)}, st.stack = .int a :: rest →
      out = Machine.advance st (result a :: rest)) : Proceeds D f' st out := by
  obtain ⟨v, rest, hst, hv, hg⟩ := hd.popExpecting hp
  obtain ⟨a, rfl⟩ := Discipline.holds_int.mp hv
  rw [hout hst]
  exact proceeds_advance (hg.push hr (hresult a))

/-- A reference through which a field is reached is the instance, or the access traps. -/
theorem explains_checkSelf {r : Reference ρ} {cause : TrapCause}
    (hr : D.allows s.file.thisClass r) (h : r.checkSelf = .error cause) :
    D.Explains s.method.type (.trapped cause) := by
  cases r with
  | null =>
    cases h
    trivial
  | this => cases h
  | shared record =>
    cases h
    exact Or.inr ⟨record, Or.inl hr⟩
  | borrowed record =>
    cases h
    exact Or.inr ⟨record, Or.inr hr⟩

theorem eq_this_of_checkSelf {r : Reference ρ} (h : r.checkSelf = .ok ()) : r = .this := by
  cases r with
  | this => rfl
  | _ => cases h

/-- **Reading a field** goes on with a value of its type, or traps on the reference. -/
theorem sound_getField (h : cert.At st.next pc instr f f') (hu : instr.isUnconditional = false)
    (hd : D.Describes f st) (hfields : D.FieldsFit st.fields) {slot : Nat} {d : FieldDecl}
    (hslot : s.file.fields[slot]? = some d)
    (hc : s.checkGet f s.file.thisClass d.type = .ok f') :
    cert.Sound D st (Machine.getField st slot) := by
  obtain ⟨g, hp, hr⟩ := except_bind_eq_ok.mp hc
  obtain ⟨v, rest, hst, hv, hg⟩ := hd.popExpecting hp
  obtain ⟨r, rfl, hallow⟩ := Discipline.holds_object.mp hv
  unfold Machine.getField
  rw [hst]
  simp only
  split
  · rename_i cause hcause
    exact ⟨rfl, explains_checkSelf hallow hcause⟩
  · rename_i hself
    rw [eq_this_of_checkSelf hself] at hallow
    obtain ⟨w, hw, hkeep⟩ := forall₂_getElem? (hfields _ hallow) hslot
    rw [Array.getElem?_toList] at hw
    rw [hw]
    exact h.sound_of_proceeds hu hfields (proceeds_advance (hg.push hr hkeep.1))

/-- What can be kept in a field is the value itself, and not lent. -/
theorem stored_eq_ok {v kept : Value ρ} (h : v.stored = .ok kept) :
    kept = v ∧ ∀ record, v ≠ .ref (.borrowed record) := by
  unfold Value.stored at h
  split at h
  · cases h
  · rename_i hv
    cases h
    exact ⟨rfl, hv⟩

theorem stored_eq_error {v : Value ρ} {cause : TrapCause} (h : v.stored = .error cause) :
    cause = .escapingReference ∧ ∃ record, v = .ref (.borrowed record) := by
  unfold Value.stored at h
  split at h
  · rename_i record
    cases h
    exact ⟨rfl, record, rfl⟩
  · cases h

/-- **Writing a field** keeps the fields in order, or traps on the reference or on the value. -/
theorem sound_putField (h : cert.At st.next pc instr f f') (hu : instr.isUnconditional = false)
    (hd : D.Describes f st) (hfields : D.FieldsFit st.fields) {slot : Nat} {d : FieldDecl}
    (hslot : s.file.fields[slot]? = some d)
    (hc : s.checkPut f s.file.thisClass d.type = .ok f') :
    cert.Sound D st (Machine.putField st slot) := by
  obtain ⟨v, w, rest, hst, hv, hw, hg⟩ := hd.popTwo hc
  obtain ⟨r, rfl, hallow⟩ := Discipline.holds_object.mp hw
  unfold Machine.putField
  rw [hst]
  simp only
  split
  · rename_i cause hcause
    exact ⟨rfl, explains_checkSelf hallow hcause⟩
  · rename_i hself
    rw [eq_this_of_checkSelf hself] at hallow
    split
    · rename_i cause hcause
      obtain ⟨rfl, record, rfl⟩ := stored_eq_error hcause
      obtain ⟨name, hname⟩ := Discipline.allows_of_holds hv
      exact ⟨rfl, name, record, hname⟩
    · rename_i kept hkept
      obtain ⟨rfl, hlent⟩ := stored_eq_ok hkept
      have hfit := hfields _ hallow
      have hsize : slot < st.fields.size := by
        have hlt := (List.getElem?_eq_some_iff.mp hslot).1
        rw [hfit.length_eq, Array.length_toList] at hlt
        exact hlt
      rw [if_pos hsize]
      refine h.next hu ⟨hg.stack, hg.locals⟩ rfl fun name hname => ?_
      rw [Array.toList_setIfInBounds]
      exact forall₂_set_right (hfields name hname) hslot ⟨hv, hlent⟩

/-! ## 3. Calls -/

variable [Record ρ]

theorem sound_objectInit (h : cert.At st.next pc instr f f') (hu : instr.isUnconditional = false)
    (hd : D.Describes f st) (hfields : D.FieldsFit st.fields) {slots : Option UInt8} {owner : String}
    (hc : s.checkCall f slots owner ⟨[], none⟩ = .ok f') :
    cert.Sound D st (Machine.call st .objectInit) := by
  unfold checkCall at hc
  split at hc
  · cases hc
  · obtain ⟨g, hg, hreceiver⟩ := except_bind_eq_ok.mp hc
    obtain ⟨g', hg', hresult⟩ := except_bind_eq_ok.mp hreceiver
    cases hg
    cases hresult
    obtain ⟨v, rest, hst, hv, hd'⟩ := hd.popExpecting hg'
    obtain ⟨r, rfl, _⟩ := Discipline.holds_object.mp hv
    unfold Machine.call
    rw [hst]
    cases r with
    | null => exact ⟨rfl, trivial⟩
    | _ => exact h.sound_of_proceeds hu hfields (proceeds_advance hd')

/-- What an accessor answers is of the type of its result. -/
theorem holds_readColumn {kind : ColumnKind} {record : ρ} {column : Int32} {v : Value ρ}
    (h : Machine.readColumn kind record column = some v) :
    D.Holds (.ofField (.base kind.base)) v := by
  cases kind with
  | int =>
    obtain ⟨n, _, rfl⟩ := Option.map_eq_some_iff.mp h
    trivial
  | long =>
    obtain ⟨n, _, rfl⟩ := Option.map_eq_some_iff.mp h
    trivial
  | double =>
    obtain ⟨x, _, rfl⟩ := Option.map_eq_some_iff.mp h
    trivial

theorem sound_accessor (h : cert.At st.next pc instr f f') (hu : instr.isUnconditional = false)
    (hd : D.Describes f st) (hfields : D.FieldsFit st.fields) {slots : Option UInt8}
    {kind : ColumnKind} (hc : s.checkCall f slots recordClass kind.accessorType = .ok f') :
    cert.Sound D st (Machine.call st (.accessor kind)) := by
  unfold checkCall at hc
  split at hc
  · cases hc
  · obtain ⟨g, hg, hreceiver⟩ := except_bind_eq_ok.mp hc
    obtain ⟨g', hg', hresult⟩ := except_bind_eq_ok.mp hreceiver
    have hpop : s.file.popAll f [.int, .object recordClass] = .ok g' := by
      have hargs : kind.accessorType.parameters.reverse.map SlotType.ofField = [.int] := rfl
      rw [hargs] at hg
      unfold ClassFile.popAll at hg ⊢
      split at hg
      · cases hg
        simp only [ClassFile.popAll, hg']
      · cases hg
    obtain ⟨v, w, rest, hst, hv, hw, hd'⟩ := hd.popTwo hpop
    obtain ⟨column, rfl⟩ := Discipline.holds_int.mp hv
    obtain ⟨r, rfl, hallow⟩ := Discipline.holds_object.mp hw
    unfold Machine.call
    rw [hst]
    simp only
    cases r with
    | null => exact ⟨rfl, trivial⟩
    | this => exact ⟨rfl, Or.inl hallow⟩
    | shared record =>
      simp only [Reference.record]
      split
      · rename_i x hx
        exact h.sound_of_proceeds hu hfields (proceeds_advance (hd'.push hresult (holds_readColumn hx)))
      · exact ⟨rfl, trivial⟩
    | borrowed record =>
      simp only [Reference.record]
      split
      · rename_i x hx
        exact h.sound_of_proceeds hu hfields (proceeds_advance (hd'.push hresult (holds_readColumn hx)))
      · exact ⟨rfl, trivial⟩

/-! ## 4. Steps and runs -/

/-- **One checked instruction**, from a state that its frame describes. -/
theorem Certificate.At.perform_sound (h : cert.At st.next pc instr f f')
    (htypes : ∀ d ∈ s.file.fields, ∃ text, FieldType.parse text = .ok d.type)
    (hd : D.Describes f st) (hfields : D.FieldsFit st.fields) {b : Bound}
    (hb : ClassFile.bindInstr s (Listing.indexTable s.code.bytes.length cert.listing) pc instr =
      .ok b) : cert.Sound D st (Machine.perform st b) := by
  have hc := h.checked
  cases instr with
  | push v =>
    cases hb
    exact h.sound_of_proceeds rfl hfields (proceeds_advance
      (hd.push (codeDefect_eq_ok.mp hc) (Discipline.holds_int.mpr ⟨v, rfl⟩)))
  | iload n =>
    cases hb
    obtain ⟨t, hl, hp⟩ := except_bind_eq_ok.mp (codeDefect_eq_ok.mp hc)
    split at hp
    · rename_i ht
      subst ht
      exact h.sound_of_proceeds rfl hfields (proceeds_load hd hl hp)
    · cases hp
  | aload n =>
    cases hb
    obtain ⟨t, hl, hp⟩ := except_bind_eq_ok.mp (codeDefect_eq_ok.mp hc)
    split at hp
    · exact h.sound_of_proceeds rfl hfields (proceeds_load hd hl hp)
    · cases hp
  | istore n =>
    cases hb
    obtain ⟨g, hp, hl⟩ := except_bind_eq_ok.mp (codeDefect_eq_ok.mp hc)
    obtain ⟨v, rest, hst, hv, hg⟩ := hd.popExpecting hp
    exact h.sound_of_proceeds rfl hfields (proceeds_store hst hv hg hl)
  | astore n =>
    cases hb
    obtain ⟨⟨t, g⟩, hp, hl⟩ := except_bind_eq_ok.mp (codeDefect_eq_ok.mp hc)
    obtain ⟨v, rest, hst, hv, hg⟩ := hd.pop hp
    simp only at hl
    split at hl
    · exact h.sound_of_proceeds rfl hfields (proceeds_store hst hv hg hl)
    · cases hl
  | pop =>
    cases hb
    obtain ⟨⟨t, g⟩, hp, hr⟩ := except_bind_eq_ok.mp (codeDefect_eq_ok.mp hc)
    cases hr
    obtain ⟨v, rest, hst, _, hg⟩ := hd.popNarrow hp
    unfold Machine.perform
    rw [hst]
    exact h.sound_of_proceeds rfl hfields (proceeds_advance hg)
  | dup =>
    cases hb
    obtain ⟨⟨t, g⟩, hp, hr⟩ := except_bind_eq_ok.mp (codeDefect_eq_ok.mp hc)
    obtain ⟨g', hp', hr'⟩ := except_bind_eq_ok.mp hr
    obtain ⟨v, rest, hst, hv, hg⟩ := hd.popNarrow hp
    unfold Machine.perform
    rw [hst]
    exact h.sound_of_proceeds rfl hfields (proceeds_advance ((hg.push hp' hv).push hr' hv))
  | swap =>
    cases hb
    obtain ⟨⟨t, g⟩, hp, hr⟩ := except_bind_eq_ok.mp (codeDefect_eq_ok.mp hc)
    obtain ⟨⟨u, g₁⟩, hp₁, hr₁⟩ := except_bind_eq_ok.mp hr
    obtain ⟨g₂, hp₂, hr₂⟩ := except_bind_eq_ok.mp hr₁
    obtain ⟨v, rest, hst, hv, hg⟩ := hd.popNarrow hp
    obtain ⟨w, rest', hst', hw, hg'⟩ := hg.popNarrow hp₁
    have hst₂ : st.stack = v :: w :: rest' := by
      rw [hst]
      exact congrArg (v :: ·) hst'
    unfold Machine.perform
    rw [hst₂]
    exact h.sound_of_proceeds rfl hfields (proceeds_advance ((hg'.push hp₂ hv).push hr₂ hw))
  | iadd =>
    cases hb
    obtain ⟨g, hp, hr⟩ := except_bind_eq_ok.mp (codeDefect_eq_ok.mp hc)
    exact h.sound_of_proceeds rfl hfields (proceeds_arithmetic _ hd hp hr)
  | isub =>
    cases hb
    obtain ⟨g, hp, hr⟩ := except_bind_eq_ok.mp (codeDefect_eq_ok.mp hc)
    exact h.sound_of_proceeds rfl hfields (proceeds_arithmetic _ hd hp hr)
  | imul =>
    cases hb
    obtain ⟨g, hp, hr⟩ := except_bind_eq_ok.mp (codeDefect_eq_ok.mp hc)
    exact h.sound_of_proceeds rfl hfields (proceeds_arithmetic _ hd hp hr)
  | ineg =>
    cases hb
    obtain ⟨g, hp, hr⟩ := except_bind_eq_ok.mp (codeDefect_eq_ok.mp hc)
    refine h.sound_of_proceeds rfl hfields (proceeds_unary hd hp hr
      (fun a => Discipline.holds_int.mpr ⟨-a, rfl⟩) fun hst => ?_)
    rw [Machine.perform, hst]
  | i2l =>
    cases hb
    obtain ⟨g, hp, hr⟩ := except_bind_eq_ok.mp (codeDefect_eq_ok.mp hc)
    refine h.sound_of_proceeds rfl hfields (proceeds_unary hd hp hr
      (fun a => Discipline.holds_long.mpr ⟨a.toInt64, rfl⟩) fun hst => ?_)
    rw [Machine.perform, hst]
  | lcmp =>
    cases hb
    obtain ⟨g, hp, hr⟩ := except_bind_eq_ok.mp (codeDefect_eq_ok.mp hc)
    refine h.sound_of_proceeds rfl hfields (proceeds_binary hd hp hr fun hst hv hw => ?_)
    obtain ⟨b, rfl⟩ := Discipline.holds_long.mp hv
    obtain ⟨a, rfl⟩ := Discipline.holds_long.mp hw
    exact ⟨_, by rw [Machine.perform, hst]⟩
  | dcmp unordered =>
    cases hb
    obtain ⟨g, hp, hr⟩ := except_bind_eq_ok.mp (codeDefect_eq_ok.mp hc)
    refine h.sound_of_proceeds rfl hfields (proceeds_binary hd hp hr fun hst hv hw => ?_)
    obtain ⟨b, rfl⟩ := Discipline.holds_double.mp hv
    obtain ⟨a, rfl⟩ := Discipline.holds_double.mp hw
    exact ⟨_, by rw [Machine.perform, hst]⟩
  | ifZero c target =>
    obtain ⟨j, hj, rfl⟩ := except_map_eq_ok.mp hb
    obtain ⟨g, hp, hr⟩ := except_bind_eq_ok.mp (codeDefect_eq_ok.mp hc)
    obtain ⟨⟨⟩, hcj, hr'⟩ := except_bind_eq_ok.mp hr
    cases hr'
    obtain ⟨v, rest, hst, hv, hg⟩ := hd.popExpecting hp
    obtain ⟨a, rfl⟩ := Discipline.holds_int.mp hv
    rw [Machine.perform, hst]
    exact h.sound_branch rfl hfields hcj (congrArg (Except.map Instr.goto) hj) hg _
  | ifInts c target =>
    obtain ⟨j, hj, rfl⟩ := except_map_eq_ok.mp hb
    obtain ⟨g, hp, hr⟩ := except_bind_eq_ok.mp (codeDefect_eq_ok.mp hc)
    obtain ⟨⟨⟩, hcj, hr'⟩ := except_bind_eq_ok.mp hr
    cases hr'
    obtain ⟨v, w, rest, hst, hv, hw, hg⟩ := hd.popTwo hp
    obtain ⟨b, rfl⟩ := Discipline.holds_int.mp hv
    obtain ⟨a, rfl⟩ := Discipline.holds_int.mp hw
    rw [Machine.perform, hst]
    exact h.sound_branch rfl hfields hcj (congrArg (Except.map Instr.goto) hj) hg _
  | goto target =>
    obtain ⟨j, hj, rfl⟩ := except_map_eq_ok.mp hb
    obtain ⟨⟨⟩, hcj, _⟩ := except_bind_eq_ok.mp (codeDefect_eq_ok.mp hc)
    exact Certificate.fits_jump hcj (indexAt_of_bound hb) ⟨hd.stack, hd.locals⟩ rfl hfields
  | ireturn =>
    cases hb
    have hc' := codeDefect_eq_ok.mp hc
    split at hc'
    · rename_i hresult
      obtain ⟨v, rest, hst, hv, _⟩ := hd.popExpecting hc'
      unfold Machine.perform
      rw [hst]
      exact ⟨rfl, hresult, Discipline.holds_int.mp hv⟩
    · cases hc'
  | vreturn =>
    cases hb
    have hc' := codeDefect_eq_ok.mp hc
    split at hc'
    · rename_i hresult
      exact ⟨rfl, Option.isNone_iff_eq_none.mp hresult⟩
    · cases hc'
  | getfield index =>
    obtain ⟨slot, hslot, rfl⟩ := except_map_eq_ok.mp hb
    unfold checkInstr at hc
    simp only at hc
    split at hc
    · rename_i owner t hfield
      obtain ⟨rfl, d, hd', rfl⟩ := ClassFile.field_of_bindField htypes hfield hslot
      exact sound_getField h rfl hd hfields hd' (codeDefect_eq_ok.mp hc)
    · cases hc
  | putfield index =>
    obtain ⟨slot, hslot, rfl⟩ := except_map_eq_ok.mp hb
    unfold checkInstr at hc
    simp only at hc
    split at hc
    · rename_i owner t hfield
      obtain ⟨rfl, d, hd', rfl⟩ := ClassFile.field_of_bindField htypes hfield hslot
      exact sound_putField h rfl hd hfields hd' (codeDefect_eq_ok.mp hc)
    · cases hc
  | invokespecial operand =>
    obtain ⟨callee, hcallee, rfl⟩ := except_map_eq_ok.mp hb
    unfold checkInstr at hc
    simp only at hc
    split at hc
    · rename_i owner t hmethod
      obtain ⟨rfl, rfl, rfl⟩ := ClassFile.special_of_bindMethod hmethod hcallee
      exact sound_objectInit h rfl hd hfields (codeDefect_eq_ok.mp hc)
    · cases hc
  | invokeinterface operand =>
    obtain ⟨callee, hcallee, rfl⟩ := except_map_eq_ok.mp hb
    unfold checkInstr at hc
    simp only at hc
    split at hc
    · rename_i owner t hmethod
      obtain ⟨kind, rfl, rfl, rfl⟩ := ClassFile.accessor_of_bindMethod hmethod hcallee
      exact sound_accessor h rfl hd hfields (codeDefect_eq_ok.mp hc)
    · cases hc

/-- **One step** from a state that fits. -/
theorem Certificate.step_sound
    (htypes : ∀ d ∈ s.file.fields, ∃ text, FieldType.parse text = .ok d.type)
    (hst : cert.Fits D st) : cert.Sound D st (Machine.step body.code st) := by
  obtain ⟨f, hf, hd⟩ := hst.frame
  obtain ⟨pc, instr, f', hat⟩ := cert.exists_at hf
  obtain ⟨⟨pc', b⟩, hb, _, hbind⟩ := forall₂_getElem? cert.bound hat.listed
  rw [Array.getElem?_toList] at hb
  unfold Machine.step
  rw [hb]
  exact hat.perform_sound htypes hd hst.fields hbind

/-- **A whole run** from a state that fits: it stops for a reason that is explained, in a state
    that fits. -/
theorem Certificate.run_sound
    (htypes : ∀ d ∈ s.file.fields, ∃ text, FieldType.parse text = .ok d.type) (fuel : Nat)
    (hst : cert.Fits D st) :
    D.Explains s.method.type (Machine.run body.code fuel st).1 ∧
      cert.Fits D (Machine.run body.code fuel st).2 := by
  induction fuel generalizing st with
  | zero => exact ⟨trivial, hst⟩
  | succ fuel ih =>
    have hs := Certificate.step_sound htypes hst
    unfold Machine.run
    split
    · rename_i st' hstep
      rw [hstep] at hs
      exact ih hs
    · rename_i halt st' hstep
      rw [hstep] at hs
      obtain ⟨rfl, he⟩ := hs
      exact ⟨he, hst⟩

end Subject

end Collation
