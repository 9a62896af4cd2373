/-
  File:      Collation/Proofs/Typing/Static.lean
  Subject:   Calls of methods that belong to no instance.

  Such a call runs without fields, and whatever it does, the instance through which it was made
  stays as it is.  The check of its code does not know that there are no fields.  It trusts a
  parameter of the class itself to be an instance of the class; and the instance may be passed.

  A run without fields does what the same run would do on fields that are in order, up to the first
  access to a field of the instance.

  * `Machine.AtField` -- the next instruction would read or write a field of the instance;
  * `Machine.step_withFields` -- no other instruction depends on the fields;
  * `Subject.Certificate.run_stuck_iff` -- checked code that runs without fields gets stuck exactly at
    such an access;
  * **`Instance.static_call_contained`** -- what a call of such a method can do;
  * `Instance.static_call_stuck` -- a call that gets stuck.
-/
import Collation.Proofs.Typing.Calls

namespace Collation

variable {ρ : Type}

/-! ## 1. Steps and fields -/

/-- The outcome with other fields. -/
def Outcome.withFields (fields : Array (Value ρ)) : Outcome ρ → Outcome ρ
  | .running s => .running { s with fields := fields }
  | .halted h s => .halted h { s with fields := fields }

namespace Machine

/-- The instruction comes to a field of the instance.  A record that is only lent is not written, so
    it never comes to that. -/
def Touches (s : State ρ) : Bound → Prop
  | .getfield _ => ∃ rest, s.stack = .ref .this :: rest
  | .putfield _ => ∃ v rest, s.stack = v :: .ref .this :: rest ∧ ∀ record, v ≠ .ref (.borrowed record)
  | _ => False

/-- The next instruction of the body does. -/
def AtField (code : Array (Nat × Bound)) (s : State ρ) : Prop :=
  ∃ pc b, code[s.next]? = some (pc, b) ∧ Touches s b

variable {code : Array (Nat × Bound)} {s : State ρ} {b : Bound}

theorem getField_withFields {slot : Nat} (h : ¬ Touches s (.getfield slot))
    (fields : Array (Value ρ)) :
    getField { s with fields := fields } slot = (getField s slot).withFields fields := by
  unfold getField
  dsimp only
  split
  · rename_i r rest hstack
    cases r with
    | this => exact absurd ⟨rest, hstack⟩ h
    | _ => rfl
  · rfl

theorem putField_withFields {slot : Nat} (h : ¬ Touches s (.putfield slot))
    (fields : Array (Value ρ)) :
    putField { s with fields := fields } slot = (putField s slot).withFields fields := by
  unfold putField
  dsimp only
  split
  · rename_i v r rest hstack
    cases r with
    | this =>
      cases hv : v.stored with
      | error cause => rfl
      | ok kept => exact absurd ⟨v, rest, hstack, (Subject.stored_eq_ok hv).2⟩ h
    | _ => rfl
  · rfl

theorem load_withFields (slot : Nat) (fields : Array (Value ρ)) :
    load { s with fields := fields } slot = (load s slot).withFields fields := by
  unfold load
  dsimp only
  split <;> rfl

theorem store_withFields (slot : Nat) (fields : Array (Value ρ)) :
    store { s with fields := fields } slot = (store s slot).withFields fields := by
  unfold store
  dsimp only
  split
  · split <;> rfl
  · rfl

theorem arithmetic_withFields (op : Int32 → Int32 → Int32) (fields : Array (Value ρ)) :
    arithmetic { s with fields := fields } op = (arithmetic s op).withFields fields := by
  unfold arithmetic
  dsimp only
  split <;> rfl

variable [Record ρ]

theorem call_withFields (callee : Callee) (fields : Array (Value ρ)) :
    call { s with fields := fields } callee = (call s callee).withFields fields := by
  cases callee with
  | objectInit =>
    unfold call
    dsimp only
    split <;> rfl
  | accessor kind =>
    unfold call
    dsimp only
    split
    · split
      · rfl
      · split <;> rfl
    · rfl

/-- **An instruction that comes to no field of the instance does the same on other fields**, and
    leaves them alone. -/
theorem perform_withFields (h : ¬ Touches s b) (fields : Array (Value ρ)) :
    perform { s with fields := fields } b = (perform s b).withFields fields := by
  cases b with
  | getfield slot => exact getField_withFields h fields
  | putfield slot => exact putField_withFields h fields
  | iload n => exact load_withFields n fields
  | aload n => exact load_withFields n fields
  | istore n => exact store_withFields n fields
  | astore n => exact store_withFields n fields
  | iadd => exact arithmetic_withFields _ fields
  | isub => exact arithmetic_withFields _ fields
  | imul => exact arithmetic_withFields _ fields
  | invokespecial callee => exact call_withFields callee fields
  | invokeinterface callee => exact call_withFields callee fields
  | push v => rfl
  | goto target => rfl
  | vreturn => rfl
  | _ =>
    -- what is left looks at the stack only
    obtain ⟨next, stack, locals, fields'⟩ := s
    unfold perform
    dsimp only
    split <;> rfl

theorem step_withFields (h : ¬ AtField code s) (fields : Array (Value ρ)) :
    step code { s with fields := fields } = (step code s).withFields fields := by
  unfold step
  dsimp only
  split
  · rename_i pc b hb
    exact perform_withFields (fun ht => h ⟨pc, b, hb, ht⟩) fields
  · rfl

/-- Without fields, such an access gets stuck. -/
theorem step_atField (h : AtField code s) (hs : s.fields = #[]) :
    step code s = trap s .badOperands := by
  obtain ⟨pc, b, hb, ht⟩ := h
  unfold step
  rw [hb]
  dsimp only
  cases b with
  | getfield slot =>
    obtain ⟨rest, hstack⟩ := ht
    change getField s slot = _
    unfold getField
    rw [hstack, hs]
    rfl
  | putfield slot =>
    obtain ⟨v, rest, hstack, hv⟩ := ht
    change putField s slot = _
    unfold putField
    rw [hstack, hs]
    cases hstored : v.stored with
    | error cause =>
      obtain ⟨_, record, rfl⟩ := Subject.stored_eq_error hstored
      exact absurd rfl (hv record)
    | ok kept =>
      dsimp only [Reference.checkSelf]
      rw [hstored]
      exact if_neg (Nat.not_lt_zero slot)
  | _ => exact ht.elim

end Machine

/-! ## 2. Runs without fields -/

/-- **Checked code that runs without fields** gets stuck exactly when it comes to a field of the
    instance.  Up to there it does what it would do on the fields of an instance; and on these it
    does not get stuck. -/
theorem Subject.Certificate.run_stuck_iff [Record ρ] {s : Subject} {body : LinkedBody}
    {cert : s.Certificate body} {D : Discipline ρ s.file}
    (htypes : ∀ d ∈ s.file.fields, ∃ text, FieldType.parse text = .ok d.type)
    (fields : Array (Value ρ)) {st : State ρ} (hnone : st.fields = #[])
    (hfits : cert.Fits D { st with fields := fields }) (fuel : Nat) :
    (Machine.run body.code fuel st).1 = .trapped .badOperands ↔
      ∃ steps < fuel, Machine.AtField body.code (Machine.run body.code steps st).2 := by
  induction fuel generalizing st with
  | zero =>
    constructor
    · intro h
      cases h
    · rintro ⟨steps, hlt, _⟩
      exact absurd hlt (Nat.not_lt_zero steps)
  | succ fuel ih =>
    by_cases hat : Machine.AtField body.code st
    · have hstep := Machine.step_atField hat hnone
      refine iff_of_true ?_ ⟨0, Nat.succ_pos fuel, hat⟩
      rw [Machine.run, hstep]
      rfl
    · have hsound := Certificate.step_sound htypes hfits
      rw [Machine.step_withFields hat] at hsound
      have hown := Machine.step_withFields hat st.fields
      cases hstep : Machine.step body.code st with
      | running st' =>
        rw [hstep] at hsound hown
        have hkeeps : st' = { st' with fields := st.fields } := Outcome.running.inj hown
        have hnone' : st'.fields = #[] := by
          rw [hkeeps]
          exact hnone
        have hrun : ∀ n, Machine.run body.code (n + 1) st = Machine.run body.code n st' := by
          intro n
          rw [Machine.run, hstep]
        rw [hrun, ih hnone' hsound]
        constructor
        · rintro ⟨steps, hlt, hfield⟩
          exact ⟨steps + 1, Nat.succ_lt_succ hlt, by rw [hrun]; exact hfield⟩
        · rintro ⟨steps, hlt, hfield⟩
          cases steps with
          | zero => exact absurd hfield hat
          | succ steps =>
            rw [hrun] at hfield
            exact ⟨steps, Nat.lt_of_succ_lt_succ hlt, hfield⟩
      | halted halt st' =>
        rw [hstep] at hsound hown
        have hstays : st' = st := (Outcome.halted.inj hown).2.trans
          (congrArg (fun x : State ρ => { x with fields := st.fields }) hsound.1)
        have hrun : ∀ n, Machine.run body.code (n + 1) st = (halt, st') := by
          intro n
          rw [Machine.run, hstep]
        refine iff_of_false ?_ ?_
        · rw [hrun]
          rintro rfl
          exact hsound.2
        · rintro ⟨steps, _, hfield⟩
          cases steps with
          | zero => exact hat hfield
          | succ steps =>
            rw [hrun, hstays] at hfield
            exact hat hfield

/-! ## 3. Calls -/

namespace Instance

variable [Record ρ] {c : LinkedClass} {i : Instance ρ} {m : LinkedMethod} {body : LinkedBody}
  {name descriptor : String} {arguments : List (Value ρ)}

/-- A call of a body traps for a reason exactly if its run does. -/
theorem execute_traps_iff {cause : TrapCause} :
    (∃ signature offset, (i.execute m body arguments).1 =
      .error (.fault (.trap signature offset cause))) ↔
    (Machine.run body.code Machine.stepLimit
      (Machine.entry body m.isStatic i.fields arguments)).1 = .trapped cause := by
  obtain ⟨halt, stopped, hrun, hexecute⟩ := i.exists_run m body arguments
  rw [hexecute, hrun]
  dsimp only
  constructor
  · rintro ⟨signature, offset, h⟩
    cases halt with
    | trapped cause' =>
      cases h
      rfl
    | returned result => cases h
    | unreadable => cases h
  · rintro rfl
    exact ⟨_, _, rfl⟩

/-- **What a call of a method without an instance can do**, on every instance that calls lead to and
    for all arguments that are accepted.  It leaves the instance as it is.  It gets stuck exactly if
    its run comes to a field of the instance; and it never does if the instance is not among its
    arguments. -/
theorem static_call_contained {input : List UInt8} (hload : LinkedClass.load input = .ok c)
    (hi : Reached c (fun _ _ => True) i) (hm : c.findMethod? name descriptor = some m)
    (hb : m.body = some body) (hstatic : m.isStatic = true)
    (ha : accepts arguments m.type.parameters = true) :
    (i.invoke name descriptor arguments).2 = i ∧
    ((∃ signature offset, (i.invoke name descriptor arguments).1 =
        .error (.fault (.trap signature offset .badOperands))) ↔
      ∃ steps < Machine.stepLimit, Machine.AtField body.code
        (Machine.run body.code steps (Machine.entry body m.isStatic i.fields arguments)).2) ∧
    (Value.ref .this ∉ arguments → ∀ signature offset, (i.invoke name descriptor arguments).1 ≠
      .error (.fault (.trap signature offset .badOperands))) := by
  obtain ⟨file, h⟩ := LinkedClass.accepted_of_load hload
  have hkept := kept_of_reached_any h hi
  obtain ⟨d, code, htype, hflag, ⟨cert⟩⟩ := h.certificate hm hb
  have hcall : i.invoke name descriptor arguments = i.execute m body arguments :=
    invoke_of_accepts (hkept.cls_eq ▸ hm) hb ha
  refine ⟨?_, ?_, fun hthis signature offset htrap => ?_⟩
  · rw [hcall, execute_of_run rfl, if_pos hstatic]
  · rw [hcall, execute_traps_iff]
    have hnone : (Machine.entry body m.isStatic i.fields arguments).fields = #[] := by
      rw [hstatic]
      rfl
    -- the check goes through on the fields of the instance, so these stand in for the missing ones
    have hfits : cert.Fits (Discipline.kindOnly ρ file)
        { Machine.entry body m.isStatic i.fields arguments with fields := i.fields } := by
      obtain ⟨f, hf, hd⟩ := cert.frame_entry i.fields (kindOnly_of_accepts (htype ▸ ha)) fun _ => trivial
      rw [← hflag] at hf hd
      exact ⟨⟨f, hf, hd.stack, hd.locals⟩, fun _ _ => hkept.fields⟩
    exact Subject.Certificate.run_stuck_iff h.types i.fields hnone hfits Machine.stepLimit
  · rcases exists_explained_of_reached hload hi hm fun _ => hthis with
      ⟨cause, he, hc⟩ | ⟨_, D, halt, offset', hx, he⟩
    · rw [he] at htrap
      rcases hc with rfl | rfl <;> cases htrap
    · rw [he] at htrap
      cases halt with
      | trapped cause =>
        cases htrap
        exact hx
      | returned result => cases htrap
      | unreadable => cases htrap

/-! ### A method that reads a field of its argument

The class has one field, and a method without an instance that takes an instance of the class and
reads the field. -/

/-- The bytes of the class. -/
def peekerBytes : List UInt8 := [
  -- magic number, version, size of the pool
  202, 254, 186, 190, 0, 0, 0, 52, 0, 16,
  -- the pool
  1, 0, 1, 72, 7, 0, 1, 1, 0, 16, 106, 97, 118, 97, 47, 108, 97, 110, 103, 47, 79, 98, 106, 101, 99,
  116, 7, 0, 3, 1, 0, 6, 60, 105, 110, 105, 116, 62, 1, 0, 3, 40, 41, 86, 12, 0, 5, 0, 6, 10, 0, 4,
  0, 7, 1, 0, 4, 67, 111, 100, 101, 1, 0, 1, 120, 1, 0, 1, 73, 12, 0, 10, 0, 11, 9, 0, 2, 0, 12, 1,
  0, 4, 112, 101, 101, 107, 1, 0, 6, 40, 76, 72, 59, 41, 73,
  -- flags, names, no interfaces, one field, two methods
  0, 33, 0, 2, 0, 4, 0, 0, 0, 1, 0, 2, 0, 10, 0, 11, 0, 0, 0, 2,
  -- the constructor
  0, 1, 0, 5, 0, 6, 0, 1, 0, 9, 0, 0, 0, 17, 0, 1, 0, 1, 0, 0, 0, 5, 42, 183, 0, 8, 177, 0, 0, 0, 0,
  -- the method
  0, 9, 0, 14, 0, 15, 0, 1, 0, 9, 0, 0, 0, 17, 0, 1, 0, 1, 0, 0, 0, 5, 42, 180, 0, 13, 172, 0, 0, 0,
  0,
  0, 0]

def peekDescriptor : String := "(LH;)I"

def peekBody : LinkedBody := ⟨1, 1, #[(0, .aload 0), (1, .getfield 0), (4, .ireturn)]⟩

def peekMethod : LinkedMethod :=
  ⟨"peek", peekDescriptor, ⟨[.object "H"], some (.base .int)⟩, true, some peekBody⟩

def peeker : LinkedClass :=
  ⟨"H", objectClass, [], ⟨0, 52⟩, [⟨"x", .base .int⟩],
    [⟨initName, initDescriptor, ⟨[], none⟩, false,
      some ⟨1, 1, #[(0, .aload 0), (1, .invokespecial .objectInit), (4, .vreturn)]⟩⟩, peekMethod]⟩

theorem load_peeker : LinkedClass.load peekerBytes = .ok peeker := by decide +kernel

theorem reached_peeker :
    Reached peeker (fun _ _ => True) (⟨peeker, #[.int 0]⟩ : Instance Row) := .new (by decide)

theorem findMethod?_peeker : peeker.findMethod? "peek" peekDescriptor = some peekMethod := by
  decide

/-- **A call that gets stuck**: the class is loaded, the instance is accepted as the argument, and
    reading its field finds no field. -/
theorem static_call_stuck :
    LinkedClass.load peekerBytes = .ok peeker ∧
    Reached peeker (fun _ _ => True) (⟨peeker, #[.int 0]⟩ : Instance Row) ∧
    peekMethod.isStatic = true ∧
    accepts ([.ref .this] : List (Value Row)) peekMethod.type.parameters = true ∧
    ((⟨peeker, #[.int 0]⟩ : Instance Row).invoke "peek" peekDescriptor [.ref .this]).1 =
      .error (.fault (.trap peekMethod.signature 1 .badOperands)) := by
  refine ⟨load_peeker, reached_peeker, rfl, rfl, ?_⟩
  decide

theorem static_call_contained_peeker :
    let i : Instance Row := ⟨peeker, #[.int 0]⟩
    (i.invoke "peek" peekDescriptor [.ref .this]).2 = i ∧
    Machine.AtField peekBody.code (Machine.run peekBody.code 1
      (Machine.entry peekBody true i.fields [.ref .this])).2 ∧
    (∃ signature offset, (i.invoke "peek" peekDescriptor [.ref .this]).1 =
      .error (.fault (.trap signature offset .badOperands))) ∧
    ∀ signature offset, (i.invoke "peek" peekDescriptor [.ref .null]).1 ≠
      .error (.fault (.trap signature offset .badOperands)) := by
  intro i
  have hfield : Machine.AtField peekBody.code (Machine.run peekBody.code 1
      (Machine.entry peekBody true i.fields [.ref .this])).2 := ⟨1, .getfield 0, rfl, [], rfl⟩
  have haccepts : ∀ r : Reference Row, accepts [.ref r] peekMethod.type.parameters = true :=
    fun _ => rfl
  have hthis := static_call_contained load_peeker reached_peeker findMethod?_peeker rfl rfl
    (haccepts .this)
  have hnull := static_call_contained load_peeker reached_peeker findMethod?_peeker rfl rfl
    (haccepts .null)
  exact ⟨hthis.1, hfield, hthis.2.1.mpr ⟨1, by decide, hfield⟩, hnull.2.2 (by simp)⟩

end Instance

end Collation
