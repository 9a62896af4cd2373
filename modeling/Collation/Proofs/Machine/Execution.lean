/-
  File:      Collation/Proofs/Machine/Execution.lean
  Subject:   Running pieces of bound code.

  A piece of code that stands somewhere in a body takes the machine from one state to another in
  a number of steps, or makes it halt.  The rest of the steps that a call may take is left open,
  so pieces are put together without counting down.

  * `Machine.Stands` -- where a piece stands in a body;
  * `Machine.Runs`, `Machine.Halts` -- what a number of steps leads to, however many more follow;
  * `Machine.pendingRead?` -- the column that a machine is about to read;
  * `Instance.execute_of_run` -- how a call answers, given how its run stopped.
-/
import Collation.Machine.Instance

namespace Collation

/-- A column of a record, read as a value of some kind. -/
structure ColumnRead (ρ : Type) where
  record : ρ
  kind : ColumnKind
  column : Int32
  deriving DecidableEq, Repr

namespace Machine

variable {ρ : Type} {code : Array (Nat × Bound)} {i : Nat} {b : Bound} {seg more : List Bound}

/-! ## 1. Where code stands -/

/-- From instruction `i` on, the body goes on with these instructions. -/
def Stands (code : Array (Nat × Bound)) (i : Nat) (seg : List Bound) : Prop :=
  ∃ before after, code.toList.map Prod.snd = before ++ (seg ++ after) ∧ before.length = i

theorem stands_all {bound : List Bound} (h : code.toList.map Prod.snd = bound) :
    Stands code 0 bound :=
  ⟨[], [], by simpa using h, rfl⟩

theorem Stands.left (h : Stands code i (seg ++ more)) : Stands code i seg := by
  obtain ⟨before, after, hcode, hi⟩ := h
  exact ⟨before, more ++ after, by rw [hcode, List.append_assoc], hi⟩

theorem Stands.right (h : Stands code i (seg ++ more)) : Stands code (i + seg.length) more := by
  obtain ⟨before, after, hcode, rfl⟩ := h
  exact ⟨before ++ seg, after, by simp [hcode], by simp⟩

theorem Stands.tail (h : Stands code i (b :: seg)) : Stands code (i + 1) seg := by
  rw [← List.singleton_append] at h
  exact h.right

theorem Stands.head (h : Stands code i (b :: seg)) : ∃ pc, code[i]? = some (pc, b) := by
  obtain ⟨before, after, hcode, rfl⟩ := h
  have hget : (code.toList.map Prod.snd)[before.length]? = some b := by
    rw [hcode]
    simp
  rw [List.getElem?_map, Option.map_eq_some_iff, Array.getElem?_toList] at hget
  obtain ⟨⟨pc, b'⟩, hat, rfl⟩ := hget
  exact ⟨pc, hat⟩

/-! ## 2. Steps -/

section Steps

variable [Record ρ] {s t u : State ρ} {m n : Nat} {halt : Halt ρ}

/-- After `n` steps from `s`, the call goes on from `t`. -/
def Runs (code : Array (Nat × Bound)) (n : Nat) (s t : State ρ) : Prop :=
  ∀ fuel, run code (n + fuel) s = run code fuel t

/-- Within `n` steps from `s`, the call stops in `t`. -/
def Halts (code : Array (Nat × Bound)) (n : Nat) (s : State ρ) (halt : Halt ρ) (t : State ρ) : Prop :=
  ∀ fuel, run code (n + fuel) s = (halt, t)

theorem runs_zero (code : Array (Nat × Bound)) (s : State ρ) : Runs code 0 s s := by
  intro fuel
  rw [Nat.zero_add]

theorem Runs.trans (hst : Runs code m s t) (htu : Runs code n t u) : Runs code (m + n) s u := by
  intro fuel
  rw [Nat.add_assoc, hst, htu]

theorem Runs.halts (hst : Runs code m s t) (ht : Halts code n t halt u) :
    Halts code (m + n) s halt u := by
  intro fuel
  rw [Nat.add_assoc, hst, ht]

theorem Halts.mono (h : Halts code m s halt t) (hle : m ≤ n) : Halts code n s halt t := by
  intro fuel
  obtain ⟨k, rfl⟩ := Nat.exists_eq_add_of_le hle
  rw [Nat.add_assoc, h]

theorem step_of_stands (h : Stands code s.next (b :: seg)) : step code s = perform s b := by
  obtain ⟨pc, hat⟩ := h.head
  rw [step, hat]

theorem runs_one (h : Stands code s.next (b :: seg)) (hstep : perform s b = .running t) :
    Runs code 1 s t := by
  intro fuel
  rw [Nat.add_comm, run, step_of_stands h, hstep]

theorem halts_one (h : Stands code s.next (b :: seg)) (hstep : perform s b = .halted halt t) :
    Halts code 1 s halt t := by
  intro fuel
  rw [Nat.add_comm, run, step_of_stands h, hstep]

end Steps

/-! ## 3. Reads -/

/-- The column that the next instruction reads, if it reads one. -/
def pendingRead? (code : Array (Nat × Bound)) (s : State ρ) : Option (ColumnRead ρ) :=
  match code[s.next]?, s.stack with
  | some (_, .invokeinterface (.accessor kind)), .int column :: .ref r :: _ =>
    match r.record with
    | .ok record => some ⟨record, kind, column⟩
    | .error _ => none
  | _, _ => none

theorem pendingRead?_of_stands {s : State ρ} {kind : ColumnKind} {column : Int32}
    {r : Reference ρ} {record : ρ} {rest : List (Value ρ)}
    (h : Stands code s.next (.invokeinterface (.accessor kind) :: seg))
    (hstack : s.stack = .int column :: .ref r :: rest) (hrecord : r.record = .ok record) :
    pendingRead? code s = some ⟨record, kind, column⟩ := by
  obtain ⟨pc, hat⟩ := h.head
  unfold pendingRead?
  rw [hat, hstack]
  dsimp only
  rw [hrecord]

end Machine

/-! ## 4. Calls -/

/-- The answer of a call whose run stopped so. -/
def Halt.answer {ρ : Type} (signature : String) (offset : Nat) : Halt ρ →
    Except CallFailure (Option (Value ρ))
  | .returned result => .ok result
  | .trapped cause => .error (.fault (.trap signature offset cause))
  | .unreadable => .error .unreadable

/-- A call that ran its body answers by how and where the run stopped. -/
theorem Instance.execute_of_run {ρ : Type} [Record ρ] {i : Instance ρ} {m : LinkedMethod}
    {body : LinkedBody} {arguments : List (Value ρ)} {halt : Halt ρ} {stopped : State ρ}
    (hrun : Machine.run body.code Machine.stepLimit
      (Machine.entry body m.isStatic i.fields arguments) = (halt, stopped)) :
    i.execute m body arguments =
      (halt.answer m.signature (Machine.offsetOf body stopped.next),
        if m.isStatic then i else { i with fields := stopped.fields }) := by
  unfold execute
  rw [hrun]
  cases halt <;> rfl

/-- A call of a body is a run that stops somehow. -/
theorem Instance.exists_run {ρ : Type} [Record ρ] (i : Instance ρ) (m : LinkedMethod)
    (body : LinkedBody) (arguments : List (Value ρ)) :
    ∃ halt stopped, Machine.run body.code Machine.stepLimit
        (Machine.entry body m.isStatic i.fields arguments) = (halt, stopped) ∧
      i.execute m body arguments =
        (halt.answer m.signature (Machine.offsetOf body stopped.next),
          if m.isStatic then i else { i with fields := stopped.fields }) :=
  ⟨_, _, rfl, i.execute_of_run rfl⟩

/-- The column whose reading stopped the comparison of an instance with a right record, if it was
    stopped by one. -/
def Instance.failedRead? {ρ : Type} [Record ρ] (i : Instance ρ) (right : ρ) :
    Option (ColumnRead ρ) := do
  let method ← i.cls.findMethod? compareName compareDescriptor
  let body ← method.body
  match Machine.run body.code Machine.stepLimit
      (Machine.entry body method.isStatic i.fields [.ref (.borrowed right)]) with
  | (.unreadable, s) => Machine.pendingRead? body.code s
  | _ => none

theorem Instance.failedRead?_of_run {ρ : Type} [Record ρ] {i : Instance ρ} {right : ρ}
    {m : LinkedMethod} {body : LinkedBody} {stopped : State ρ}
    (hmethod : i.cls.findMethod? compareName compareDescriptor = some m)
    (hbody : m.body = some body)
    (hrun : Machine.run body.code Machine.stepLimit
      (Machine.entry body m.isStatic i.fields [.ref (.borrowed right)]) = (.unreadable, stopped)) :
    i.failedRead? right = Machine.pendingRead? body.code stopped := by
  simp only [failedRead?, hmethod, hbody, hrun, Option.bind_eq_bind, Option.bind_some]

end Collation
