/-
  File:      Collation/Proofs/Machine/Forward.lean
  Subject:   Code without backward jumps.

  A step goes on with the next instruction or with the target of a jump.  If all jumps lead to later
  instructions, the number of the instruction grows from step to step, so none is run twice; and since
  the code of a loaded method has fewer than 65536 bytes, and an instruction takes at least one of them,
  a call ends long before the limit of steps.

  * `LinkedBody.Forward` -- every jump leads to a later instruction;
  * `Machine.visited` -- the instructions that a run goes through;
  * `Machine.perform_goesOn` -- where one instruction can lead;
  * `Machine.ascending_visited` -- forward code is gone through in ascending order;
  * `LinkedClass.size_of_load` -- how many instructions a loaded method can have;
  * **`Instance.forward_call_bounded`** -- calls of forward code never come to the limit.
-/
import Collation.Proofs.Typing.Calls
import Mathlib.Data.List.Perm.Subperm

namespace Collation

variable {ρ : Type}

/-- Every jump of the body leads to a later instruction. -/
def LinkedBody.Forward (body : LinkedBody) : Prop :=
  ∀ i (h : i < body.code.size), ∀ target ∈ body.code[i].2.target?, i < target

instance (body : LinkedBody) : Decidable body.Forward :=
  inferInstanceAs (Decidable (∀ i (h : i < body.code.size), ∀ target ∈ body.code[i].2.target?, i < target))

namespace Machine

/-! ## 1. One instruction -/

/-- The step goes on with the next instruction or where the instruction jumps, or it stops, and not for
    the limit of steps. -/
def GoesOn (s : State ρ) (b : Bound) : Outcome ρ → Prop
  | .running t => t.next = s.next + 1 ∨ b.target? = some t.next
  | .halted halt _ => halt ≠ .trapped .stepLimit

variable {s : State ρ} {b : Bound}

theorem goesOn_advance (stack : List (Value ρ)) : GoesOn s b (advance s stack) := .inl rfl

theorem goesOn_trap {cause : TrapCause} (h : cause ≠ .stepLimit) : GoesOn s b (trap s cause) :=
  fun he => h (by cases he; rfl)

theorem goesOn_branch {target : Nat} (hb : b.target? = some target) (taken : Bool)
    (stack : List (Value ρ)) : GoesOn s b (branch s taken target stack) := by
  cases taken with
  | false => exact .inl rfl
  | true => exact .inr hb

theorem checkSelf_ne_stepLimit {r : Reference ρ} {cause : TrapCause}
    (h : r.checkSelf = .error cause) : cause ≠ .stepLimit := by
  cases r <;> cases h <;> decide

theorem record_ne_stepLimit {r : Reference ρ} {cause : TrapCause} (h : r.record = .error cause) :
    cause ≠ .stepLimit := by
  cases r <;> cases h <;> decide

theorem goesOn_load (slot : Nat) : GoesOn s b (load s slot) := by
  unfold load
  split
  · exact goesOn_advance _
  · exact goesOn_trap (by decide)

theorem goesOn_store (slot : Nat) : GoesOn s b (store s slot) := by
  unfold store
  split
  · split
    · exact .inl rfl
    · exact goesOn_trap (by decide)
  · exact goesOn_trap (by decide)

theorem goesOn_arithmetic (op : Int32 → Int32 → Int32) : GoesOn s b (arithmetic s op) := by
  unfold arithmetic
  split
  · exact goesOn_advance _
  · exact goesOn_trap (by decide)

theorem goesOn_getField (slot : Nat) : GoesOn s b (getField s slot) := by
  unfold getField
  split
  · split
    · rename_i cause hself
      exact goesOn_trap (checkSelf_ne_stepLimit hself)
    · split
      · exact goesOn_advance _
      · exact goesOn_trap (by decide)
  · exact goesOn_trap (by decide)

theorem goesOn_putField (slot : Nat) : GoesOn s b (putField s slot) := by
  unfold putField
  split
  · split
    · rename_i cause hself
      exact goesOn_trap (checkSelf_ne_stepLimit hself)
    · split
      · rename_i cause hstored
        obtain ⟨rfl, -⟩ := Subject.stored_eq_error hstored
        exact goesOn_trap (by decide)
      · split
        · exact .inl rfl
        · exact goesOn_trap (by decide)
  · exact goesOn_trap (by decide)

variable [Record ρ]

theorem goesOn_call (callee : Callee) : GoesOn s b (call s callee) := by
  cases callee with
  | objectInit =>
    unfold call
    dsimp only
    split
    · exact goesOn_trap (by decide)
    · exact goesOn_advance _
    · exact goesOn_trap (by decide)
  | accessor kind =>
    unfold call
    dsimp only
    split
    · split
      · rename_i cause hrecord
        exact goesOn_trap (record_ne_stepLimit hrecord)
      · split
        · exact goesOn_advance _
        · exact fun he => by cases he
    · exact goesOn_trap (by decide)

/-- **Where one instruction can lead.** -/
theorem perform_goesOn (s : State ρ) (b : Bound) : GoesOn s b (perform s b) := by
  cases b with
  | iload n | aload n => exact goesOn_load n
  | istore n | astore n => exact goesOn_store n
  | iadd | isub | imul => exact goesOn_arithmetic _
  | getfield slot => exact goesOn_getField slot
  | putfield slot => exact goesOn_putField slot
  | invokespecial callee | invokeinterface callee => exact goesOn_call callee
  | push v => exact goesOn_advance _
  | goto target => exact goesOn_branch rfl true _
  | vreturn => exact fun he => by cases he
  | ireturn =>
    unfold perform
    dsimp only
    split
    · exact fun he => by cases he
    · exact goesOn_trap (by decide)
  | ifZero c target | ifInts c target =>
    unfold perform
    dsimp only
    split
    · exact goesOn_branch rfl _ _
    · exact goesOn_trap (by decide)
  | _ =>
    -- what is left takes operands and goes on, or finds none
    unfold perform
    dsimp only
    split
    · exact goesOn_advance _
    · exact goesOn_trap (by decide)

/-! ## 2. Runs -/

/-- The numbers of the instructions that a run of at most `fuel` steps goes through, in order. -/
def visited (code : Array (Nat × Bound)) : Nat → State ρ → List Nat
  | 0, _ => []
  | fuel + 1, s =>
    match code[s.next]? with
    | none => []
    | some (_, b) =>
      s.next ::
        match perform s b with
        | .running t => visited code fuel t
        | .halted _ _ => []

variable {body : LinkedBody} {fuel : Nat}

/-- **The first step of a run**: there is no instruction, or one is run and the run stops with it or
    goes on from another state.  It does not stop for the limit of steps. -/
theorem first_step (code : Array (Nat × Bound)) (fuel : Nat) (s : State ρ) :
    (visited code (fuel + 1) s = [] ∧ (run code (fuel + 1) s).1 ≠ .trapped .stepLimit) ∨
    ∃ h : s.next < code.size,
      (visited code (fuel + 1) s = [s.next] ∧ (run code (fuel + 1) s).1 ≠ .trapped .stepLimit) ∨
      ∃ t : State ρ, (t.next = s.next + 1 ∨ code[s.next].2.target? = some t.next) ∧
        visited code (fuel + 1) s = s.next :: visited code fuel t ∧
        run code (fuel + 1) s = run code fuel t := by
  rw [visited, run, step]
  by_cases h : s.next < code.size
  · refine .inr ⟨h, ?_⟩
    rw [Array.getElem?_eq_getElem h]
    dsimp only
    have hgoes := perform_goesOn s code[s.next].2
    cases hstep : perform s code[s.next].2 with
    | running t =>
      rw [hstep] at hgoes
      exact .inr ⟨t, hgoes, rfl, rfl⟩
    | halted halt t =>
      rw [hstep] at hgoes
      exact .inl ⟨rfl, hgoes⟩
  · rw [Array.getElem?_eq_none (Nat.le_of_not_lt h)]
    exact .inl ⟨rfl, fun he => by cases he⟩

/-- **A run that comes to the limit has used up its steps**, each of them on an instruction. -/
theorem length_visited_of_limit {code : Array (Nat × Bound)}
    (h : (run code fuel s).1 = .trapped .stepLimit) : (visited code fuel s).length = fuel := by
  induction fuel generalizing s with
  | zero => rfl
  | succ fuel ih =>
    rcases first_step code fuel s with ⟨-, hne⟩ | ⟨-, ⟨-, hne⟩ | ⟨t, -, hvisited, hrun⟩⟩
    · exact absurd h hne
    · exact absurd h hne
    · rw [hrun] at h
      rw [hvisited, List.length_cons, ih h]

/-- **Forward code is gone through in ascending order.** -/
theorem ascending_visited (hforward : body.Forward) :
    (visited body.code fuel s).Pairwise (· < ·) ∧
      ∀ i ∈ visited body.code fuel s, s.next ≤ i ∧ i < body.code.size := by
  induction fuel generalizing s with
  | zero => exact ⟨.nil, by simp [visited]⟩
  | succ fuel ih =>
    rcases first_step body.code fuel s with
      ⟨hvisited, -⟩ | ⟨h, ⟨hvisited, -⟩ | ⟨t, hnext, hvisited, -⟩⟩
    · rw [hvisited]
      exact ⟨.nil, by simp⟩
    · rw [hvisited]
      exact ⟨List.pairwise_singleton _ _, by simpa using h⟩
    · -- the next instruction is a later one, and all that follow are later than that
      have hlater : s.next < t.next := by
        rcases hnext with hnext | hjump
        · omega
        · exact hforward s.next h t.next hjump
      obtain ⟨hascending, hbounds⟩ := ih (s := t)
      rw [hvisited]
      refine ⟨List.pairwise_cons.mpr ⟨fun i hi => ?_, hascending⟩, fun i hi => ?_⟩
      · exact Nat.lt_of_lt_of_le hlater (hbounds i hi).1
      · rcases List.mem_cons.mp hi with rfl | hi
        · exact ⟨Nat.le_refl _, h⟩
        · have := hbounds i hi
          omega

theorem nodup_visited (hforward : body.Forward) : (visited body.code fuel s).Nodup :=
  (ascending_visited hforward).1.imp Nat.ne_of_lt

/-- **A run of forward code does not come to a limit beyond the number of its instructions.** -/
theorem run_ne_limit (hforward : body.Forward) (hfuel : body.code.size < fuel) :
    (run body.code fuel s).1 ≠ .trapped .stepLimit := by
  intro hlimit
  have hrange : visited body.code fuel s ⊆ List.range body.code.size := by
    intro i hi
    exact List.mem_range.mpr ((ascending_visited hforward).2 i hi).2
  have hfew := (List.subperm_of_subset (nodup_visited hforward) hrange).length_le
  rw [length_visited_of_limit hlimit, List.length_range] at hfew
  omega

end Machine

/-! ## 3. The size of loaded code -/

namespace Code

theorem size_of_decodeAll {size pc : Nat} {acc all : Array (Nat × Decoded)} {code : List UInt8}
    (h : decodeAll size pc acc code = .ok all) : all.size ≤ acc.size + code.length := by
  fun_induction decodeAll size pc acc code with
  | case1 pc acc =>
    cases h
    simp
  | case2 pc acc opcode rest instr operands hone ih =>
    have hall := ih h
    rw [Array.size_push, List.length_drop] at hall
    rw [List.length_cons]
    omega
  | case3 => cases h

/-- An instruction takes at least one byte. -/
theorem length_of_decode {code : List UInt8} {listing : Listing} (h : decode code = .ok listing) :
    listing.length ≤ code.length := by
  unfold decode at h
  dsimp only at h
  split at h
  · cases h
  · rename_i all hall
    split at h
    · cases h
    · cases h
      simpa using size_of_decodeAll hall

end Code

/-- **A loaded method has fewer than 65536 instructions.** -/
theorem LinkedClass.size_of_load {input : List UInt8} {c : LinkedClass}
    (hload : LinkedClass.load input = .ok c) {m : LinkedMethod} (hm : m ∈ c.methods)
    {body : LinkedBody} (hb : m.body = some body) : body.code.size < 65536 := by
  cases hparse : ClassFile.parse input with
  | error e =>
    rw [LinkedClass.load, hparse] at hload
    cases hload
  | ok file =>
    have haccepted := LinkedClass.accepted_of_parse hparse hload
    obtain ⟨i, hi⟩ := List.mem_iff_getElem?.mp hm
    obtain ⟨d, hd, hlink⟩ := forall₂_getElem?_right haccepted.methods hi
    obtain ⟨-, -, -, -, hbody⟩ := ClassFile.certificate_of_linkMethod hlink
    obtain ⟨code, hcode, ⟨cert⟩⟩ := hbody body hb
    have hbytes : code.bytes.length < 65536 :=
      ClassFile.length_code_of_mem_methods hparse (List.mem_of_getElem? hd) hcode
    have hlisting : cert.listing.length ≤ code.bytes.length := Code.length_of_decode cert.decoded
    have hsize : cert.listing.length = body.code.size := by
      rw [cert.bound.length_eq, Array.length_toList]
    omega

/-! ## 4. Calls -/

namespace Instance

variable {c : LinkedClass} {i : Instance ρ} {m : LinkedMethod} {body : LinkedBody}
  {name descriptor : String} {arguments : List (Value ρ)}

/-- **Calls of forward code never come to the limit.**  If in a method of a loaded class every jump leads
    to a later instruction, then a call on any instance of the class, with arguments that are accepted,
    runs the code of the method, goes through each instruction at most once, and does not trap for the
    limit of steps. -/
theorem forward_call_bounded [Record ρ] {input : List UInt8}
    (hload : LinkedClass.load input = .ok c) (hcls : i.cls = c)
    (hm : c.findMethod? name descriptor = some m) (hb : m.body = some body)
    (hforward : body.Forward) (haccepts : accepts arguments m.type.parameters = true) :
    i.invoke name descriptor arguments = i.execute m body arguments ∧
    (Machine.visited body.code Machine.stepLimit
      (Machine.entry body m.isStatic i.fields arguments)).Nodup ∧
    ∀ signature offset, (i.invoke name descriptor arguments).1 ≠
      .error (.fault (.trap signature offset .stepLimit)) := by
  have hcall := invoke_of_accepts (hcls ▸ hm) hb haccepts
  refine ⟨hcall, Machine.nodup_visited hforward, fun signature offset htrap => ?_⟩
  have hsize : body.code.size < Machine.stepLimit :=
    Nat.lt_trans (LinkedClass.size_of_load hload (List.mem_of_find?_eq_some hm) hb) (by decide)
  obtain ⟨halt, stopped, hrun, hexecute⟩ := i.exists_run m body arguments
  have hne := Machine.run_ne_limit (s := Machine.entry body m.isStatic i.fields arguments)
    hforward hsize
  rw [hrun] at hne
  rw [hcall, hexecute] at htrap
  cases halt with
  | returned result => cases htrap
  | unreadable => cases htrap
  | trapped cause =>
    cases htrap
    exact hne rfl

/-! ### A method with a jump

It answers one or zero, by whether its argument is zero. -/

/-- The bytes of the class. -/
def pickerBytes : List UInt8 := [
  -- magic number, version, size of the pool
  202, 254, 186, 190, 0, 0, 0, 52, 0, 13,
  -- the pool
  1, 0, 1, 80, 7, 0, 1, 1, 0, 16, 106, 97, 118, 97, 47, 108, 97, 110, 103, 47, 79, 98, 106, 101,
  99, 116, 7, 0, 3, 1, 0, 6, 60, 105, 110, 105, 116, 62, 1, 0, 3, 40, 41, 86, 12, 0, 5, 0, 6, 10,
  0, 4, 0, 7, 1, 0, 4, 67, 111, 100, 101, 1, 0, 4, 112, 105, 99, 107, 1, 0, 4, 40, 73, 41, 73, 1,
  0, 13, 83, 116, 97, 99, 107, 77, 97, 112, 84, 97, 98, 108, 101,
  -- flags, names, no interfaces, no fields, two methods
  0, 33, 0, 2, 0, 4, 0, 0, 0, 0, 0, 2,
  -- the constructor
  0, 1, 0, 5, 0, 6, 0, 1, 0, 9, 0, 0, 0, 17, 0, 1, 0, 1, 0, 0, 0, 5, 42, 183, 0, 8, 177, 0, 0, 0,
  0,
  -- the method, with a frame where its jump leads
  0, 1, 0, 10, 0, 11, 0, 1, 0, 9, 0, 0, 0, 29, 0, 1, 0, 2, 0, 0, 0, 8, 27, 153, 0, 5, 4, 172, 3,
  172, 0, 0, 0, 1, 0, 12, 0, 0, 0, 3, 0, 1, 6,
  0, 0]

def pickBody : LinkedBody :=
  ⟨1, 2, #[(0, .iload 1), (1, .ifZero .eq 4), (4, .push 1), (5, .ireturn), (6, .push 0), (7, .ireturn)]⟩

def pickMethod : LinkedMethod :=
  ⟨"pick", "(I)I", ⟨[.base .int], some (.base .int)⟩, false, some pickBody⟩

/-- The class that is made from them. -/
def picker : LinkedClass :=
  ⟨"P", objectClass, [], ⟨0, 52⟩, [],
    [⟨initName, initDescriptor, ⟨[], none⟩, false,
      some ⟨1, 1, #[(0, .aload 0), (1, .invokespecial .objectInit), (4, .vreturn)]⟩⟩, pickMethod]⟩

theorem load_picker : LinkedClass.load pickerBytes = .ok picker := by decide +kernel

/-- The jump is taken, and two instructions are passed over. -/
theorem forward_call_bounded_picker :
    let start : State Row := Machine.entry pickBody false #[] [.int 0]
    let call := (⟨picker, #[]⟩ : Instance Row).invoke "pick" "(I)I" [.int 0]
    pickBody.Forward ∧ Machine.visited pickBody.code 10 start = [0, 1, 4, 5] ∧
    (Machine.visited pickBody.code Machine.stepLimit start).Nodup ∧
    ∀ signature offset, call.1 ≠ .error (.fault (.trap signature offset .stepLimit)) := by
  intro start call
  have hforward : pickBody.Forward := by decide
  have hfound : picker.findMethod? "pick" "(I)I" = some pickMethod := by decide
  have haccepts : accepts [(.int 0 : Value Row)] pickMethod.type.parameters = true := by decide
  have h := forward_call_bounded (i := (⟨picker, #[]⟩ : Instance Row)) load_picker rfl hfound rfl
    hforward haccepts
  exact ⟨hforward, by decide, h.2⟩

end Instance

end Collation
