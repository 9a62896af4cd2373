/-
  File:      Collation/Machine/Step.lean
  Subject:   Running the body of a method.

  A state holds the number of the next instruction, the stack, the locals and the fields of
  the instance.  `Machine.step` runs one instruction; it goes on, returns, traps, or finds
  that a record has no such column.  `Machine.run` goes on until it stops, for at most a
  given number of steps.
-/
import Collation.Linked
import Collation.Machine.Value

namespace Collation

/-- The state of a call. -/
structure State (ρ : Type) where
  /-- The number of the next instruction. -/
  next : Nat
  /-- The operands, the top first. -/
  stack : List (Value ρ)
  locals : Array (Value ρ)
  /-- The fields of the instance; a call of a static method has none. -/
  fields : Array (Value ρ)
  deriving DecidableEq, Repr

/-- How a call stops. -/
inductive Halt (ρ : Type) where
  | returned (result : Option (Value ρ))
  | trapped (cause : TrapCause)
  /-- A record was asked for a column that it does not have. -/
  | unreadable
  deriving DecidableEq, Repr

/-- What one step leads to; a call that stops leaves the state in which it stopped. -/
inductive Outcome (ρ : Type) where
  | running (state : State ρ)
  | halted (halt : Halt ρ) (state : State ρ)
  deriving DecidableEq, Repr

namespace Machine

variable {ρ : Type}

/-! ## 1. One instruction -/

/-- Stops in the state before the instruction. -/
def trap (s : State ρ) (cause : TrapCause) : Outcome ρ := .halted (.trapped cause) s

/-- Goes on with the next instruction and the given stack. -/
def advance (s : State ρ) (stack : List (Value ρ)) : Outcome ρ :=
  .running { s with next := s.next + 1, stack := stack }

/-- Goes on at the target or with the next instruction. -/
def branch (s : State ρ) (taken : Bool) (target : Nat) (stack : List (Value ρ)) : Outcome ρ :=
  .running { s with next := if taken then target else s.next + 1, stack := stack }

/-- Minus one, zero or one. -/
def signOf : Ordering → Int32
  | .lt => -1
  | .eq => 0
  | .gt => 1

/-- Puts the value of a local on the stack. -/
def load (s : State ρ) (slot : Nat) : Outcome ρ :=
  match s.locals[slot]? with
  | some v => advance s (v :: s.stack)
  | none => trap s .badOperands

/-- Takes the top of the stack into a local. -/
def store (s : State ρ) (slot : Nat) : Outcome ρ :=
  match s.stack with
  | v :: rest =>
    if slot < s.locals.size then
      .running { s with
        next := s.next + 1, stack := rest, locals := s.locals.setIfInBounds slot v }
    else trap s .badOperands
  | [] => trap s .badOperands

/-- Replaces the two integers on top by one. -/
def arithmetic (s : State ρ) (op : Int32 → Int32 → Int32) : Outcome ρ :=
  match s.stack with
  | .int b :: .int a :: rest => advance s (.int (op a b) :: rest)
  | _ => trap s .badOperands

/-- Reads a field of the instance. -/
def getField (s : State ρ) (slot : Nat) : Outcome ρ :=
  match s.stack with
  | .ref r :: rest =>
    match r.checkSelf with
    | .error cause => trap s cause
    | .ok () =>
      match s.fields[slot]? with
      | some v => advance s (v :: rest)
      | none => trap s .badOperands
  | _ => trap s .badOperands

/-- Writes a field of the instance. -/
def putField (s : State ρ) (slot : Nat) : Outcome ρ :=
  match s.stack with
  | v :: .ref r :: rest =>
    match r.checkSelf with
    | .error cause => trap s cause
    | .ok () =>
      match v.stored with
      | .error cause => trap s cause
      | .ok kept =>
        if slot < s.fields.size then
          .running { s with
            next := s.next + 1, stack := rest, fields := s.fields.setIfInBounds slot kept }
        else trap s .badOperands
  | _ => trap s .badOperands

/-- Reads a column of a record. -/
def readColumn [Record ρ] (kind : ColumnKind) (record : ρ) (column : Int32) : Option (Value ρ) :=
  match kind with
  | .int => (Record.getInt record column).map .int
  | .long => (Record.getLong record column).map .long
  | .double => (Record.getDouble record column).map .double

/-- Calls a bound method. -/
def call [Record ρ] (s : State ρ) : Callee → Outcome ρ
  | .objectInit =>
    match s.stack with
    | .ref .null :: _ => trap s .nullReference
    | .ref _ :: rest => advance s rest
    | _ => trap s .badOperands
  | .accessor kind =>
    match s.stack with
    | .int column :: .ref r :: rest =>
      match r.record with
      | .error cause => trap s cause
      | .ok record =>
        match readColumn kind record column with
        | some v => advance s (v :: rest)
        | none => .halted .unreadable s
    | _ => trap s .badOperands

/-- Runs one instruction. -/
def perform [Record ρ] (s : State ρ) : Bound → Outcome ρ
  | .push v => advance s (.int v :: s.stack)
  | .iload n | .aload n => load s n
  | .istore n | .astore n => store s n
  | .pop =>
    match s.stack with
    | _ :: rest => advance s rest
    | [] => trap s .badOperands
  | .dup =>
    match s.stack with
    | v :: rest => advance s (v :: v :: rest)
    | [] => trap s .badOperands
  | .swap =>
    match s.stack with
    | b :: a :: rest => advance s (a :: b :: rest)
    | _ => trap s .badOperands
  | .iadd => arithmetic s (· + ·)
  | .isub => arithmetic s (· - ·)
  | .imul => arithmetic s (· * ·)
  | .ineg =>
    match s.stack with
    | .int a :: rest => advance s (.int (-a) :: rest)
    | _ => trap s .badOperands
  | .i2l =>
    match s.stack with
    | .int a :: rest => advance s (.long a.toInt64 :: rest)
    | _ => trap s .badOperands
  | .lcmp =>
    match s.stack with
    | .long b :: .long a :: rest => advance s (.int (signOf (compare a b)) :: rest)
    | _ => trap s .badOperands
  | .dcmp unordered =>
    match s.stack with
    | .double b :: .double a :: rest =>
      advance s (.int (((a.compare? b).map signOf).getD unordered) :: rest)
    | _ => trap s .badOperands
  | .ifZero c target =>
    match s.stack with
    | .int a :: rest => branch s (c.holds a 0) target rest
    | _ => trap s .badOperands
  | .ifInts c target =>
    match s.stack with
    | .int b :: .int a :: rest => branch s (c.holds a b) target rest
    | _ => trap s .badOperands
  | .goto target => branch s true target s.stack
  | .ireturn =>
    match s.stack with
    | v :: _ => .halted (.returned (some v)) s
    | [] => trap s .badOperands
  | .vreturn => .halted (.returned none) s
  | .getfield slot => getField s slot
  | .putfield slot => putField s slot
  | .invokespecial m | .invokeinterface m => call s m

/-- Runs the next instruction of a body. -/
def step [Record ρ] (code : Array (Nat × Bound)) (s : State ρ) : Outcome ρ :=
  match code[s.next]? with
  | some (_, instr) => perform s instr
  | none => trap s .badOperands

/-! ## 2. A whole call -/

/-- Runs at most `fuel` instructions; then the limit is reached. -/
def run [Record ρ] (code : Array (Nat × Bound)) : Nat → State ρ → Halt ρ × State ρ
  | 0, s => (.trapped .stepLimit, s)
  | fuel + 1, s =>
    match step code s with
    | .running s' => run code fuel s'
    | .halted h s' => (h, s')

/-- How many instructions one call may run. -/
def stepLimit : Nat := 1048576

/-- Puts arguments into the locals from `slot` on, each taking its width; what does not fit
    is left out. -/
def placeArguments (locals : Array (Value ρ)) (slot : Nat) : List (Value ρ) → Array (Value ρ)
  | [] => locals
  | v :: rest => placeArguments (locals.setIfInBounds slot v) (slot + v.width) rest

/-- The state in which a call begins: zeros in the locals, but for the instance, if there is
    one, and the arguments. -/
def entry (body : LinkedBody) (isStatic : Bool) (fields : Array (Value ρ))
    (arguments : List (Value ρ)) : State ρ :=
  let blank : Array (Value ρ) := Array.replicate body.maxLocals.toNat (.int 0)
  if isStatic then ⟨0, [], placeArguments blank 0 arguments, #[]⟩
  else ⟨0, [], placeArguments (blank.setIfInBounds 0 (.ref .this)) 1 arguments, fields⟩

/-- The code offset of an instruction, for messages. -/
def offsetOf (body : LinkedBody) (index : Nat) : Nat :=
  match body.code[index]? with
  | some (offset, _) => offset
  | none => 0

end Machine

end Collation
