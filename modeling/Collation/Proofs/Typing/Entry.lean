/-
  File:      Collation/Proofs/Typing/Entry.lean
  Subject:   Where a call of a checked method begins, and where it may end.

  The frame with which the check of a method begins lists its parameters, each with the slots it
  takes.  The machine puts the arguments into the locals by their widths.  The two agree.

  * `Discipline.placeArguments_holds` -- arguments land in the slots of their parameters;
  * `Subject.Certificate.frame_entry`, `Subject.Certificate.fits_entry` -- a call begins in a state
    that fits;
  * `ClassFile.Accepted.execute_sound` -- how a call of a method of a loaded class ends.
-/
import Collation.Machine.Instance
import Collation.Proofs.Typing.Soundness

namespace Collation

variable {ρ : Type}

/-! ## 1. Arguments in the locals -/

/-- A value takes its own slot, and the slots behind it up to its width. -/
theorem slotsOf_cons (t : SlotType) (ts : List SlotType) :
    slotsOf (t :: ts) = t :: List.replicate (t.width - 1) .top ++ slotsOf ts := by
  rw [slotsOf, List.flatMap_cons]
  cases t <;> rfl

theorem slotsOf_object (name : String) (ts : List SlotType) :
    slotsOf (.object name :: ts) = .object name :: slotsOf ts := by
  rw [slotsOf_cons]
  rfl

namespace Discipline

variable {file : ClassFile} {D : Discipline ρ file}

/-- **Arguments land in the slots of their parameters.**  Before the first of them is placed the
    types of the slots from there on are not known; the induction moves that border. -/
theorem placeArguments_holds {ts : List SlotType} {vs : List (Value ρ)}
    (h : List.Forall₂ (fun t v => D.Holds t v ∧ v.width = t.width) ts vs) :
    ∀ (known : List SlotType) {k : Nat} {locals : Array (Value ρ)},
      List.Forall₂ D.Holds (known ++ List.replicate ((slotsOf ts).length + k) .top) locals.toList →
      List.Forall₂ D.Holds (known ++ slotsOf ts ++ List.replicate k .top)
        (Machine.placeArguments locals known.length vs).toList := by
  induction h with
  | nil =>
    intro known k locals hl
    simpa [slotsOf, Machine.placeArguments] using hl
  | @cons t v ts vs hv _ ih =>
    intro known k locals hl
    have hw : 0 < t.width := by cases t <;> exact Nat.succ_pos _
    have hlen : (slotsOf (t :: ts)).length + k = (t.width - 1) + ((slotsOf ts).length + k) + 1 := by
      simp only [slotsOf_cons, List.cons_append, List.length_cons, List.length_append,
        List.length_replicate]
      omega
    have hplaced : List.Forall₂ D.Holds
        ((known ++ t :: List.replicate (t.width - 1) .top) ++
          List.replicate ((slotsOf ts).length + k) .top)
        (locals.setIfInBounds known.length v).toList := by
      rw [hlen, List.replicate_succ, List.replicate_add] at hl
      have hs := forall₂_set hl known.length hv.1
      rw [List.set_append_right _ _ (Nat.le_refl _), Nat.sub_self, List.set_cons_zero] at hs
      rw [Array.toList_setIfInBounds, List.append_assoc]
      exact hs
    have hnext : (known ++ t :: List.replicate (t.width - 1) .top).length =
        known.length + v.width := by
      simp only [List.length_append, List.length_cons, List.length_replicate, hv.2]
      omega
    have hrest := ih _ hplaced
    rw [hnext] at hrest
    unfold Machine.placeArguments
    rw [slotsOf_cons, ← List.append_assoc known]
    exact hrest

end Discipline

/-! ## 2. The first state of a call -/

theorem locals_of_layOut {code : CodeBody} {types : List SlotType} {entry : Frame}
    (h : Frame.layOut code types [] = .ok entry) :
    ∃ k, (slotsOf types).length + k = code.maxLocals.toNat ∧ entry.stack = [] ∧
      entry.locals.toList = slotsOf types ++ List.replicate k .top := by
  unfold Frame.layOut at h
  simp only at h
  split at h
  · cases h
  · rename_i hlen
    split at h
    · cases h
    · cases h
      exact ⟨code.maxLocals.toNat - (slotsOf types).length, by omega, rfl, rfl⟩

namespace Subject

variable {s : Subject} {body : LinkedBody}

/-- **A call begins with the stack and the locals that the check began with.** -/
theorem Certificate.frame_entry (cert : s.Certificate body) {D : Discipline ρ s.file}
    (fields : Array (Value ρ)) {arguments : List (Value ρ)}
    (hargs : List.Forall₂ (fun t v => D.Holds (.ofField t) v) s.method.type.parameters arguments)
    (hthis : s.method.flags.isStatic = false → D.allows s.file.thisClass .this) :
    let st := Machine.entry body s.method.flags.isStatic fields arguments
    ∃ f, cert.along[st.next]? = some f ∧ D.Describes f st := by
  obtain ⟨k, hk, hstack, hlocals⟩ := locals_of_layOut cert.layOut_entry
  have hparams : List.Forall₂ (fun t v => D.Holds t v ∧ v.width = t.width)
      (s.method.type.parameters.map SlotType.ofField) arguments := by
    rw [List.forall₂_map_left_iff]
    refine hargs.imp fun t v hv => ⟨hv, ?_⟩
    rw [Discipline.width_of_hasType (Discipline.hasType_of_holds hv), SlotType.width_ofField]
  have hblank : ∀ n, List.Forall₂ D.Holds (List.replicate n .top)
      (Array.replicate n (Value.int 0 : Value ρ)).toList := by
    intro n
    rw [Array.toList_replicate]
    induction n with
    | zero => exact .nil
    | succ n ih => exact .cons trivial ih
  have hentry : D.Describes cert.entry
      (Machine.entry body s.method.flags.isStatic fields arguments) := by
    unfold Machine.entry
    rw [cert.maxLocals_eq, ← hk]
    cases hst : s.method.flags.isStatic with
    | true =>
      have htypes : s.file.entryTypes s.method =
          s.method.type.parameters.map SlotType.ofField := by
        rw [ClassFile.entryTypes, hst]
        rfl
      refine ⟨hstack ▸ .nil, ?_⟩
      rw [hlocals, htypes]
      exact Discipline.placeArguments_holds hparams [] (hblank _)
    | false =>
      have htypes : s.file.entryTypes s.method =
          .object s.file.thisClass :: s.method.type.parameters.map SlotType.ofField := by
        rw [ClassFile.entryTypes, hst]
        rfl
      refine ⟨hstack ▸ .nil, ?_⟩
      rw [hlocals, htypes, slotsOf_object, List.length_cons, Nat.add_right_comm]
      refine Discipline.placeArguments_holds hparams [.object s.file.thisClass] ?_
      rw [Array.toList_setIfInBounds]
      exact forall₂_set (hblank (_ + 1)) 0 (a := .object s.file.thisClass) (hthis hst)
  obtain ⟨pc, f, hf, hframe⟩ := cert.walk.head
  refine ⟨f, ?_, ?_⟩
  · unfold Machine.entry
    split <;> exact hf
  · rcases frameAt_some hframe with rfl | ha
    · exact hentry
    · exact hentry.of_frameAssignable ha

/-- **A call begins in a state that fits.** -/
theorem Certificate.fits_entry (cert : s.Certificate body) {D : Discipline ρ s.file}
    {fields : Array (Value ρ)} {arguments : List (Value ρ)}
    (hargs : List.Forall₂ (fun t v => D.Holds (.ofField t) v) s.method.type.parameters arguments)
    (hthis : s.method.flags.isStatic = false → D.allows s.file.thisClass .this)
    (hfields : D.FieldsFit (if s.method.flags.isStatic then #[] else fields)) :
    cert.Fits D (Machine.entry body s.method.flags.isStatic fields arguments) := by
  refine ⟨cert.frame_entry fields hargs hthis, ?_⟩
  unfold Machine.entry
  split
  · rename_i hst
    rwa [if_pos hst] at hfields
  · rename_i hst
    rwa [if_neg hst] at hfields

/-- A state that fits stands before an instruction of the body. -/
theorem Certificate.Fits.offset_mem {cert : s.Certificate body} {D : Discipline ρ s.file}
    {st : State ρ} (h : cert.Fits D st) :
    ∃ instr, (Machine.offsetOf body st.next, instr) ∈ body.code := by
  obtain ⟨f, hf, _⟩ := h.frame
  obtain ⟨pc, instr, f', hat⟩ := cert.exists_at hf
  obtain ⟨⟨pc', b⟩, hb, _⟩ := forall₂_getElem? cert.bound hat.listed
  rw [Array.getElem?_toList] at hb
  refine ⟨b, ?_⟩
  rw [Machine.offsetOf, hb]
  exact Array.mem_of_getElem? hb

end Subject

/-! ## 3. Calls -/

/-- **How a call of a method of a loaded class ends**: for a reason that the discipline explains,
    at an instruction of the method, with the fields in order. -/
theorem ClassFile.Accepted.execute_sound [Record ρ] {file : ClassFile} {c : LinkedClass}
    (h : file.Accepted c) {name descriptor : String} {m : LinkedMethod} {body : LinkedBody}
    (hm : c.findMethod? name descriptor = some m) (hb : m.body = some body)
    {D : Discipline ρ file} {fields : Array (Value ρ)} {arguments : List (Value ρ)}
    (hargs : List.Forall₂ (fun t v => D.Holds (.ofField t) v) m.type.parameters arguments)
    (hthis : m.isStatic = false → D.allows file.thisClass .this)
    (hfields : D.FieldsFit (if m.isStatic then #[] else fields)) {halt : Halt ρ} {stopped : State ρ}
    (hrun : Machine.run body.code Machine.stepLimit
      (Machine.entry body m.isStatic fields arguments) = (halt, stopped)) :
    D.Explains m.type halt ∧ D.FieldsFit stopped.fields ∧
      ∃ instr, (Machine.offsetOf body stopped.next, instr) ∈ body.code := by
  obtain ⟨d, code, htype, hstatic, ⟨cert⟩⟩ := h.certificate hm hb
  rw [htype] at hargs ⊢
  rw [hstatic] at hthis hfields hrun
  have hsound := Subject.Certificate.run_sound h.types Machine.stepLimit
    (cert.fits_entry hargs hthis hfields)
  rw [hrun] at hsound
  exact ⟨hsound.1, hsound.2.fields, hsound.2.offset_mem⟩

end Collation
