/-
  File:      Collation/Proofs/Comparator/Agreement.lean
  Subject:   Generated comparators answer as those that walk their layout.

  The bound code of the comparing method is run key by key.  Under each key it reads the same
  columns in the same order as the walk does; so either it gets the same result, or both are
  stopped by the same read.  The result so far is in a local, and the jump to the end of the
  keys is taken exactly if it is not zero.

  * `Generator.key_cases`, `Generator.keys_cases` -- the code of one key and of all keys;
  * `Generator.compare_cases` -- a whole call of the comparing method;
  * `Comparator.AgreeOn` -- two comparators agree on a sequence of calls;
  * **`Generator.assembled_agrees`** -- the instance of an assembled class agrees with the walk.
-/
import Collation.Comparator.Basic
import Collation.Proofs.Comparator.Loaded
import Collation.Proofs.Machine.Execution

namespace Collation

/-! ## 1. Reads that fail -/

section Reads

variable {ρ : Type} [Record ρ]

/-- The record has no such column. -/
def ColumnRead.Fails (read : ColumnRead ρ) : Prop :=
  Machine.readColumn read.kind read.record read.column = none

instance (read : ColumnRead ρ) : Decidable read.Fails :=
  inferInstanceAs (Decidable (Machine.readColumn read.kind read.record read.column = none))

/-- The read of the left or of the right record under a key. -/
def SortKey.readOf (key : SortKey) (left right : ρ) (ofLeft : Bool) : ColumnRead ρ :=
  ⟨if ofLeft then left else right, key.kind, Int32.ofNat key.column.toNat⟩

/-- The record has every column that the layout reads. -/
def Layout.Readable (layout : Layout) (record : ρ) : Prop :=
  ∀ key ∈ layout.keys, ¬ (key.readOf record record false).Fails

instance (layout : Layout) (record : ρ) : Decidable (layout.Readable record) :=
  inferInstanceAs (Decidable (∀ key ∈ layout.keys, ¬ (key.readOf record record false).Fails))

/-- The value that it gives. -/
def SortKey.valueOf? (key : SortKey) (left right : ρ) (ofLeft : Bool) : Option (Value ρ) :=
  Machine.readColumn key.kind (if ofLeft then left else right) (Int32.ofNat key.column.toNat)

/-- The read that stops the comparison under a key: under a descending one the right record is read
    first. -/
def SortKey.failedRead? (key : SortKey) (left right : ρ) : Option (ColumnRead ρ) :=
  [key.readOf left right (!key.descending), key.readOf left right key.descending].find?
    (decide <| ColumnRead.Fails ·)

theorem SortKey.failedRead?_first {key : SortKey} {left right : ρ}
    (h : (key.readOf left right (!key.descending)).Fails) :
    key.failedRead? left right = some (key.readOf left right (!key.descending)) :=
  List.find?_cons_of_pos (decide_eq_true h)

theorem SortKey.failedRead?_second {key : SortKey} {left right : ρ}
    (hfirst : ¬ (key.readOf left right (!key.descending)).Fails)
    (h : (key.readOf left right key.descending).Fails) :
    key.failedRead? left right = some (key.readOf left right key.descending) := by
  unfold SortKey.failedRead?
  rw [List.find?_cons_of_neg (by simpa using hfirst)]
  exact List.find?_cons_of_pos (decide_eq_true h)

/-- The read that stops the comparison under keys: that of the first key that cannot be compared,
    if no key before it tells the records apart. -/
def failedRead? (left right : ρ) : List SortKey → Option (ColumnRead ρ)
  | [] => none
  | key :: rest =>
    match key.compare? left right with
    | none => key.failedRead? left right
    | some c => if c = 0 then failedRead? left right rest else none

end Reads

/-! ## 2. One key -/

namespace Generator

open Machine

section Keys

variable {ρ : Type} {left right : ρ} {held : Reference ρ} {code : Array (Nat × Bound)} {i : Nat}
  {key : SortKey} {x : Value ρ} {stack : List (Value ρ)}

/-- A state of the comparing method: at instruction `i`, with a stack, with a reference in the field of
    the left record, and with `x` in the local of the result. -/
def stateWith (held : Reference ρ) (right : ρ) (i : Nat) (stack : List (Value ρ)) (x : Value ρ) :
    State ρ :=
  ⟨i, stack, #[.ref .this, .ref (.borrowed right), x], #[.ref held]⟩

/-- A state of the comparing method in which the left record is set. -/
abbrev stateAt (left right : ρ) (i : Nat) (stack : List (Value ρ)) (x : Value ρ) : State ρ :=
  stateWith (.shared left) right i stack x

/-- The reference through which a record is read. -/
def referenceTo (held : Reference ρ) (right : ρ) (ofLeft : Bool) : Reference ρ :=
  if ofLeft then held else .borrowed right

theorem record_referenceTo (ofLeft : Bool) :
    (referenceTo (.shared left) right ofLeft).record = .ok (if ofLeft then left else right) := by
  cases ofLeft <;> rfl

/-- The state in which a column is read at instruction `i`. -/
def readingAt (held : Reference ρ) (right : ρ) (key : SortKey) (ofLeft : Bool) (i : Nat)
    (stack : List (Value ρ)) (x : Value ρ) : State ρ :=
  stateWith held right i
    (.int (Int32.ofNat key.column.toNat) :: .ref (referenceTo held right ofLeft) :: stack) x

/-- A value as it is compared: an integer as a long one. -/
def widened : Value ρ → Value ρ
  | .int n => .long n.toInt64
  | v => v

variable [Record ρ]

/-- The record is put on the stack. -/
theorem runs_record (ofLeft : Bool) (h : Stands code i (recordBound ofLeft)) :
    Runs code (recordBound ofLeft).length (stateWith held right i stack x)
      (stateWith held right (i + (recordBound ofLeft).length)
        (.ref (referenceTo held right ofLeft) :: stack) x) := by
  cases ofLeft with
  | true =>
    have hload : Runs code 1 (stateWith held right i stack x)
        (stateWith held right (i + 1) (.ref .this :: stack) x) := runs_one h rfl
    exact hload.trans (runs_one h.tail rfl)
  | false => exact runs_one h rfl

/-- The record and the column are put on the stack. -/
theorem runs_operands (ofLeft : Bool) (h : Stands code i (valueBound key ofLeft)) :
    Runs code ((recordBound ofLeft).length + 1) (stateWith held right i stack x)
      (readingAt held right key ofLeft (i + (recordBound ofLeft).length + 1) stack x) :=
  (runs_record ofLeft h.left.left).trans (runs_one h.left.right rfl)

/-- What the read of a column leads to. -/
theorem perform_read {record : ρ} (ofLeft : Bool)
    (hrecord : (referenceTo held right ofLeft).record = .ok record) (j : Nat) :
    perform (readingAt held right key ofLeft j stack x) (.invokeinterface (.accessor key.kind)) =
    match readColumn key.kind record (Int32.ofNat key.column.toNat) with
    | some v => .running (stateWith held right (j + 1) (v :: stack) x)
    | none => .halted .unreadable (readingAt held right key ofLeft j stack x) := by
  unfold readingAt stateWith perform call
  dsimp only
  rw [hrecord]
  rfl

/-- A value that was read is widened. -/
theorem runs_widen {record : ρ} {column : Int32} {v : Value ρ} (kind : ColumnKind)
    (h : Stands code i (widenBound kind)) (hread : readColumn kind record column = some v) :
    Runs code (widenBound kind).length (stateWith held right i (v :: stack) x)
      (stateWith held right (i + (widenBound kind).length) (widened v :: stack) x) := by
  cases kind with
  | int =>
    obtain ⟨n, _, rfl⟩ := Option.map_eq_some_iff.mp hread
    exact runs_one h rfl
  | long =>
    obtain ⟨n, _, rfl⟩ := Option.map_eq_some_iff.mp hread
    exact runs_zero code _
  | double =>
    obtain ⟨n, _, rfl⟩ := Option.map_eq_some_iff.mp hread
    exact runs_zero code _

theorem length_valueBound (key : SortKey) (ofLeft : Bool) : (valueBound key ofLeft).length =
    (recordBound ofLeft).length + 1 + 1 + (widenBound key.kind).length := by
  simp only [valueBound, List.length_append, List.length_cons, List.length_nil]

/-- A column that is there is put on the stack, widened. -/
theorem runs_value {record : ρ} (ofLeft : Bool) (h : Stands code i (valueBound key ofLeft))
    (hrecord : (referenceTo held right ofLeft).record = .ok record) {v : Value ρ}
    (hread : readColumn key.kind record (Int32.ofNat key.column.toNat) = some v) :
    Runs code (valueBound key ofLeft).length (stateWith held right i stack x)
      (stateWith held right (i + (valueBound key ofLeft).length) (widened v :: stack) x) := by
  have hget : Runs code 1 (readingAt held right key ofLeft (i + (recordBound ofLeft).length + 1) stack x)
      (stateWith held right (i + (recordBound ofLeft).length + 1 + 1) (v :: stack) x) := by
    refine runs_one h.left.right.tail ((perform_read ofLeft hrecord _).trans ?_)
    rw [hread]
  have hwiden : Runs code (widenBound key.kind).length
      (stateWith held right (i + (recordBound ofLeft).length + 1 + 1) (v :: stack) x)
      (stateWith held right (i + (recordBound ofLeft).length + 1 + 1 + (widenBound key.kind).length)
        (widened v :: stack) x) := by
    refine runs_widen key.kind ?_ hread
    have hright := h.right
    rwa [List.length_append, ← Nat.add_assoc] at hright
  have hall := ((runs_operands ofLeft h).trans hget).trans hwiden
  rw [length_valueBound]
  simpa only [Nat.add_assoc] using hall

/-- What stops a call: a read that fails, before any field was changed. -/
structure StoppedBy (code : Array (Nat × Bound)) (left : ρ) (read : ColumnRead ρ) (t : State ρ) :
    Prop where
  fails : read.Fails
  fields : t.fields = #[.ref (.shared left)]
  pending : pendingRead? code t = some read

/-- A column that is not there stops the call. -/
theorem halts_value (ofLeft : Bool) (h : Stands code i (valueBound key ofLeft))
    (hread : (key.readOf left right ofLeft).Fails) :
    ∃ t, Halts code (valueBound key ofLeft).length (stateAt left right i stack x) .unreadable t ∧
      StoppedBy code left (key.readOf left right ofLeft) t := by
  have hnone : readColumn key.kind (if ofLeft then left else right)
      (Int32.ofNat key.column.toNat) = none := hread
  have hstop : Halts code 1
      (readingAt (.shared left) right key ofLeft (i + (recordBound ofLeft).length + 1) stack x)
      .unreadable
      (readingAt (.shared left) right key ofLeft (i + (recordBound ofLeft).length + 1) stack x) := by
    refine halts_one h.left.right.tail ((perform_read ofLeft (record_referenceTo ofLeft) _).trans ?_)
    rw [hnone]
  refine ⟨_, ((runs_operands ofLeft h).halts hstop).mono ?_, hread, rfl, ?_⟩
  · rw [length_valueBound]
    exact Nat.le_add_right _ _
  · exact pendingRead?_of_stands h.left.right.tail rfl (record_referenceTo ofLeft)

/-- Integers are ordered alike when they are widened. -/
theorem compare_toInt64 (a b : Int32) : compare a.toInt64 b.toInt64 = compare a b := by
  have hlt : a.toInt64 < b.toInt64 ↔ a < b := by
    rw [Int64.lt_iff_toInt_lt, Int32.lt_iff_toInt_lt, Int32.toInt_toInt64, Int32.toInt_toInt64]
  have heq : a.toInt64 = b.toInt64 ↔ a = b := by
    rw [← Int64.toInt_inj, ← Int32.toInt_inj, Int32.toInt_toInt64, Int32.toInt_toInt64]
  show compareOfLessAndEq _ _ = compareOfLessAndEq _ _
  unfold compareOfLessAndEq
  simp only [hlt, heq]

theorem signOf_eq (o : Ordering) : signOf o = signOrLess (some o) := by
  cases o <;> rfl

theorem getD_signOf (o : Option Ordering) : (o.map signOf).getD (-1) = signOrLess o := by
  cases o with
  | none => rfl
  | some o => exact signOf_eq o

/-- The comparing instruction gets the result of the key from the widened values. -/
theorem perform_comparison (left right : ρ) {a b : ρ} {u v : Value ρ}
    (hu : readColumn key.kind a (Int32.ofNat key.column.toNat) = some u)
    (hv : readColumn key.kind b (Int32.ofNat key.column.toNat) = some v) :
    ∃ c, key.compareInOrder? a b = some c ∧ ∀ j stack x,
      perform (stateAt left right j (widened v :: widened u :: stack) x) (comparison key.kind) =
        .running (stateAt left right (j + 1) (.int c :: stack) x) := by
  unfold SortKey.compareInOrder?
  cases hkind : key.kind with
  | int =>
    rw [hkind] at hu hv
    obtain ⟨m, hm, rfl⟩ := Option.map_eq_some_iff.mp hu
    obtain ⟨n, hn, rfl⟩ := Option.map_eq_some_iff.mp hv
    refine ⟨signOrLess (some (compare m n)), ?_, fun j stack x => ?_⟩
    · dsimp only
      rw [hm, hn]
      rfl
    · rw [← signOf_eq, ← compare_toInt64]
      rfl
  | long =>
    rw [hkind] at hu hv
    obtain ⟨m, hm, rfl⟩ := Option.map_eq_some_iff.mp hu
    obtain ⟨n, hn, rfl⟩ := Option.map_eq_some_iff.mp hv
    refine ⟨signOrLess (some (compare m n)), ?_, fun j stack x => ?_⟩
    · dsimp only
      rw [hm, hn]
      rfl
    · rw [← signOf_eq]
      rfl
  | double =>
    rw [hkind] at hu hv
    obtain ⟨m, hm, rfl⟩ := Option.map_eq_some_iff.mp hu
    obtain ⟨n, hn, rfl⟩ := Option.map_eq_some_iff.mp hv
    refine ⟨signOrLess (m.compare? n), ?_, fun j stack x => ?_⟩
    · dsimp only
      rw [hm, hn]
      rfl
    · rw [← getD_signOf]
      rfl

/-- A comparison whose first or second column is not there has no result. -/
theorem compareInOrder?_eq_none {a b : ρ}
    (h : readColumn key.kind a (Int32.ofNat key.column.toNat) = none ∨
      readColumn key.kind b (Int32.ofNat key.column.toNat) = none) :
    key.compareInOrder? a b = none := by
  unfold SortKey.compareInOrder?
  cases hkind : key.kind <;> rw [hkind] at h <;> simp only [readColumn, Option.map_eq_none_iff] at h <;>
    dsimp only <;> rcases h with h | h <;> simp [h]

theorem compare?_eq : key.compare? left right =
    key.compareInOrder? (if !key.descending then left else right)
      (if key.descending then left else right) := by
  unfold SortKey.compare?
  cases key.descending <;> rfl

/-- Under a key, the first read fails, or the second one does, or both give a value and the key has
    a result, which the comparing instruction gets from the widened values. -/
theorem reads_cases (key : SortKey) (left right : ρ) :
    ((key.readOf left right (!key.descending)).Fails ∧ key.compare? left right = none ∧
      key.failedRead? left right = some (key.readOf left right (!key.descending))) ∨
    (∃ u, key.valueOf? left right (!key.descending) = some u ∧
      (key.readOf left right key.descending).Fails ∧ key.compare? left right = none ∧
      key.failedRead? left right = some (key.readOf left right key.descending)) ∨
    (∃ u v c, key.valueOf? left right (!key.descending) = some u ∧
      key.valueOf? left right key.descending = some v ∧ key.compare? left right = some c ∧
      key.failedRead? left right = none ∧ ∀ j stack x,
      perform (stateAt left right j (widened v :: widened u :: stack) x) (comparison key.kind) =
        .running (stateAt left right (j + 1) (.int c :: stack) x)) := by
  have hpassed : ∀ {ofLeft : Bool} {v : Value ρ}, key.valueOf? left right ofLeft = some v →
      ¬ (key.readOf left right ofLeft).Fails := fun hv hnone =>
    Option.some_ne_none _ (hv.symm.trans hnone)
  rw [compare?_eq]
  cases hu : key.valueOf? left right (!key.descending) with
  | none =>
    exact Or.inl ⟨hu, compareInOrder?_eq_none (Or.inl hu), SortKey.failedRead?_first hu⟩
  | some u =>
    cases hv : key.valueOf? left right key.descending with
    | none =>
      exact Or.inr (Or.inl ⟨u, rfl, hv, compareInOrder?_eq_none (Or.inr hv),
        SortKey.failedRead?_second (hpassed hu) hv⟩)
    | some v =>
      obtain ⟨c, hc, hcompare⟩ := perform_comparison left right hu hv
      refine Or.inr (Or.inr ⟨u, v, c, rfl, rfl, hc, ?_, hcompare⟩)
      simp [SortKey.failedRead?, hpassed hu, hpassed hv]

/-- A key has no result exactly if one of its reads fails. -/
theorem compare?_eq_none_iff : key.compare? left right = none ↔
    ∃ read, key.failedRead? left right = some read := by
  rcases reads_cases key left right with
    ⟨_, hnone, hread⟩ | ⟨_, _, _, hnone, hread⟩ | ⟨_, _, c, _, _, hc, hread, _⟩
  · exact iff_of_true hnone ⟨_, hread⟩
  · exact iff_of_true hnone ⟨_, hread⟩
  · rw [hc, hread]
    simp

/-- The walk has no result exactly if one of its reads fails. -/
theorem compareKeys?_eq_none_iff {keys : List SortKey} : compareKeys? left right keys = none ↔
    ∃ read, failedRead? left right keys = some read := by
  induction keys with
  | nil => simp [compareKeys?, failedRead?]
  | cons key rest ih =>
    rw [compareKeys?, failedRead?]
    cases hkey : key.compare? left right with
    | none => exact iff_of_true rfl (compare?_eq_none_iff.mp hkey)
    | some c =>
      dsimp only
      by_cases hzero : c = 0
      · rw [if_pos hzero, if_pos hzero]
        exact ih
      · rw [if_neg hzero, if_neg hzero]
        simp

/-- **The code of a key** stores the result of the key, or is stopped by the read that stops the key. -/
theorem key_cases (left right : ρ) (x : Value ρ) (h : Stands code i (keyBound key)) :
    (∃ c, key.compare? left right = some c ∧
      Runs code (keyBound key).length (stateAt left right i [] x)
        (stateAt left right (i + (keyBound key).length) [] (.int c))) ∨
    (∃ read t, key.compare? left right = none ∧ key.failedRead? left right = some read ∧
      Halts code (keyBound key).length (stateAt left right i [] x) .unreadable t ∧
      StoppedBy code left read t) := by
  have hlength : (keyBound key).length = (valueBound key (!key.descending)).length +
      (valueBound key key.descending).length + 1 + 1 := by
    simp only [keyBound, List.length_append, List.length_cons, List.length_nil]
  rcases reads_cases key left right with
    ⟨hfails, hnone, hread⟩ | ⟨u, hu, hfails, hnone, hread⟩ | ⟨u, v, c, hu, hv, hc, _, hcompare⟩
  · -- the first read fails
    have hstop : ∃ t, Halts code _ (stateAt left right i [] x) .unreadable t ∧ StoppedBy code left _ t :=
      halts_value (!key.descending) h.left.left hfails
    obtain ⟨t, hhalts, hstopped⟩ := hstop
    exact Or.inr ⟨_, t, hnone, hread, hhalts.mono (by omega), hstopped⟩
  · -- the second read fails, with the first value on the stack
    have hfirst : Runs code _ (stateAt left right i [] x) _ :=
      runs_value (!key.descending) h.left.left (record_referenceTo _) hu
    have hstop : ∃ t, Halts code _ (stateAt left right _ [widened u] x) .unreadable t ∧
        StoppedBy code left _ t := halts_value key.descending h.left.right hfails
    obtain ⟨t, hhalts, hstopped⟩ := hstop
    exact Or.inr ⟨_, t, hnone, hread, (hfirst.halts hhalts).mono (by omega), hstopped⟩
  · have hfirst : Runs code _ (stateAt left right i [] x) _ :=
      runs_value (!key.descending) h.left.left (record_referenceTo _) hu
    have hsecond : Runs code _ (stateAt left right _ [widened u] x) _ :=
      runs_value key.descending h.left.right (record_referenceTo _) hv
    have hend := h.right
    rw [List.length_append, ← Nat.add_assoc] at hend
    have hresult : Runs code 1 (stateAt left right _ [widened v, widened u] x)
        (stateAt left right _ [.int c] x) := runs_one hend (hcompare _ _ _)
    have hstore : Runs code 1 (stateAt left right _ [.int c] x)
        (stateAt left right (i + (valueBound key (!key.descending)).length +
          (valueBound key key.descending).length + 1 + 1) [] (.int c)) := runs_one hend.tail rfl
    have hall := ((hfirst.trans hsecond).trans hresult).trans hstore
    refine Or.inl ⟨c, hc, ?_⟩
    rw [hlength]
    simpa only [Nat.add_assoc] using hall

/-! ## 3. All keys -/

/-- The jump behind a key is taken if the result is not zero. -/
theorem runs_exit {stop : Nat} {seg : List Bound} (c : Int32)
    (h : Stands code i (.iload 2 :: .ifZero .ne stop :: seg)) :
    Runs code 2 (stateAt left right i [] (.int c))
      (stateAt left right (if c = 0 then i + 2 else stop) [] (.int c)) := by
  have hload : Runs code 1 (stateAt left right i [] (.int c))
      (stateAt left right (i + 1) [.int c] (.int c)) := runs_one h rfl
  have htaken : (Comparison.ne.holds c 0) = !decide (c = 0) := by
    show (c != 0) = _
    by_cases hc : c = 0 <;> simp [hc]
  have hjump : perform (stateAt left right (i + 1) [.int c] (.int c)) (.ifZero .ne stop) =
      .running (stateAt left right (if c = 0 then i + 2 else stop) [] (.int c)) := by
    show branch _ (Comparison.ne.holds c 0) stop [] = _
    rw [htaken]
    by_cases hc : c = 0
    · simp [branch, stateWith, hc]
    · simp [branch, stateWith, hc]
  exact hload.trans (runs_one h.tail hjump)

/-- **The code of all keys** ends at `stop` with the result of the walk, or is stopped by the read
    that stops the walk. -/
theorem keys_cases {stop : Nat} (left right : ρ) (x : Value ρ) (keys : List SortKey)
    (hne : keys ≠ []) (h : Stands code i (keysBound stop keys)) (hstop : i + (keysBound stop keys).length = stop) :
    (∃ c n, compareKeys? left right keys = some c ∧ n ≤ (keysBound stop keys).length ∧
      Runs code n (stateAt left right i [] x) (stateAt left right stop [] (.int c))) ∨
    (∃ read t, failedRead? left right keys = some read ∧
      Halts code (keysBound stop keys).length (stateAt left right i [] x) .unreadable t ∧
      StoppedBy code left read t) := by
  induction keys generalizing i x with
  | nil => exact absurd rfl hne
  | cons key rest ih =>
    cases rest with
    | nil =>
      rcases key_cases left right x h with ⟨c, hc, hruns⟩ | ⟨read, t, hnone, hread, hhalts, hstopped⟩
      · refine Or.inl ⟨c, _, ?_, Nat.le_refl _, ?_⟩
        · rw [compareKeys?, hc]
          by_cases hzero : c = 0 <;> simp [hzero, compareKeys?]
        · rw [← hstop]
          exact hruns
      · refine Or.inr ⟨read, t, ?_, hhalts, hstopped⟩
        rw [failedRead?, hnone]
        exact hread
    | cons next rest =>
      have hlength : (keysBound stop (key :: next :: rest)).length =
          (keyBound key).length + (2 + (keysBound stop (next :: rest)).length) := by
        simp only [keysBound, List.length_append, List.length_cons, List.length_nil]
      rcases key_cases left right x h.left with ⟨c, hc, hruns⟩ | ⟨read, t, hnone, hread, hhalts, hstopped⟩
      · have hexit : Runs code 2 (stateAt left right (i + (keyBound key).length) [] (.int c)) _ :=
          runs_exit c h.right.left
        have hboth := hruns.trans hexit
        by_cases hzero : c = 0
        · -- the next key is tried
          rw [if_pos hzero] at hboth
          have hrest := ih (.int c) (List.cons_ne_nil _ _) h.right.right
            (by simp only [List.length_cons, List.length_nil]; omega)
          rcases hrest with ⟨d, n, hd, hn, hlater⟩ | ⟨read, t, hread, hhalts, hstopped⟩
          · refine Or.inl ⟨d, _, ?_, ?_, hboth.trans hlater⟩
            · rw [compareKeys?, hc]
              exact (if_pos hzero).trans hd
            · omega
          · refine Or.inr ⟨read, t, ?_, (hboth.halts hhalts).mono (by omega), hstopped⟩
            rw [failedRead?, hc]
            exact (if_pos hzero).trans hread
        · -- this key decides
          rw [if_neg hzero] at hboth
          refine Or.inl ⟨c, _, ?_, ?_, hboth⟩
          · rw [compareKeys?, hc]
            exact if_neg hzero
          · omega
      · refine Or.inr ⟨read, t, ?_, hhalts.mono (by omega), hstopped⟩
        rw [failedRead?, hnone]
        exact hread

/-- **The code of the comparing method** returns the result of the walk, or is stopped by the read
    that stops the walk. -/
theorem compare_cases (left right : ρ) (x : Value ρ) (keys : List SortKey)
    (h : Stands code 0 (compareBound keys)) :
    (∃ c t, compareKeys? left right keys = some c ∧ t.fields = #[.ref (.shared left)] ∧
      Halts code (compareBound keys).length (stateAt left right 0 [] x)
        (.returned (some (.int c))) t) ∨
    (∃ read t, failedRead? left right keys = some read ∧
      Halts code (compareBound keys).length (stateAt left right 0 [] x) .unreadable t ∧
      StoppedBy code left read t) := by
  cases keys with
  | nil =>
    have hpush : Runs code 1 (stateAt left right 0 [] x) (stateAt left right 1 [.int 0] x) :=
      runs_one h rfl
    exact Or.inl ⟨0, _, rfl, rfl, hpush.halts (halts_one h.tail rfl)⟩
  | cons key rest =>
    have hbound : compareBound (key :: rest) =
        keysBound (keysBound 0 (key :: rest)).length (key :: rest) ++ [.iload 2, .ireturn] := rfl
    rw [hbound] at h ⊢
    have hlength : (keysBound (keysBound 0 (key :: rest)).length (key :: rest)).length =
        (keysBound 0 (key :: rest)).length := length_keysBound
    have hresult := h.right
    rw [hlength, Nat.zero_add] at hresult
    rcases keys_cases left right x (key :: rest) (List.cons_ne_nil _ _) h.left
        ((Nat.zero_add _).trans hlength) with
      ⟨c, n, hc, hn, hruns⟩ | ⟨read, t, hread, hhalts, hstopped⟩
    · have hload : Runs code 1 (stateAt left right _ [] (.int c))
          (stateAt left right ((keysBound 0 (key :: rest)).length + 1) [.int c] (.int c)) :=
        runs_one hresult rfl
      refine Or.inl ⟨c, _, hc, ?_, ((hruns.trans hload).halts (halts_one hresult.tail rfl)).mono ?_⟩
      · rfl
      · simp only [List.length_append, List.length_cons, List.length_nil]
        omega
    · refine Or.inr ⟨read, t, hread, hhalts.mono ?_, hstopped⟩
      rw [List.length_append]
      exact Nat.le_add_right _ _

end Keys

/-! ## 4. Calls -/

section Calls

variable {ρ : Type} {className : String} {layout : Layout}

/-- The code of the comparing method. -/
def compareCode (layout : Layout) : Array (Nat × Bound) :=
  (CodeText.boundAt 0 (compareText (indices layout) layout.keys) (compareBound layout.keys)).toArray

/-- An instance of the class for a layout, with a value for the left record. -/
def instanceWith (className : String) (layout : Layout) (v : Value ρ) : Instance ρ :=
  ⟨linkedClass className layout, #[v]⟩

/-- The body of the comparing method. -/
def compareBody (layout : Layout) : LinkedBody := ⟨4, 3, compareCode layout⟩

theorem findMethod?_compare : (linkedClass className layout).findMethod? compareName
    compareDescriptor = some (linkedCompare layout) := rfl

theorem entry_compare (held : Reference ρ) (right : ρ) :
    entry (compareBody layout) (linkedCompare layout).isStatic #[.ref held] [.ref (.borrowed right)] =
      stateWith held right 0 [] (.int 0) := rfl

variable [Record ρ]

theorem setLeft_instanceWith (className : String) (layout : Layout) (v : Value ρ) (record : ρ) :
    (instanceWith className layout v).setLeft record =
      (.ok (), instanceWith className layout (.ref (.shared record))) := rfl

/-- A call of the comparing method answers by how its code stops. -/
theorem invoke_compare {held : Reference ρ} {right : ρ} {halt : Halt ρ} {t : State ρ}
    (hrun : run (compareCode layout) stepLimit (stateWith held right 0 [] (.int 0)) = (halt, t)) :
    (instanceWith className layout (.ref held)).invoke compareName compareDescriptor
      [.ref (.borrowed right)] =
    (halt.answer (linkedCompare layout).signature (offsetOf (compareBody layout) t.next),
      ⟨linkedClass className layout, t.fields⟩) := by
  have hbody : (linkedCompare layout).body = some (compareBody layout) := rfl
  have haccepts : Instance.accepts [.ref (.borrowed right)]
      (linkedCompare layout).type.parameters = true := rfl
  unfold Instance.invoke instanceWith
  dsimp only
  rw [findMethod?_compare]
  dsimp only
  rw [hbody]
  dsimp only
  rw [if_pos haccepts]
  rw [← entry_compare] at hrun
  exact Instance.execute_of_run hrun

/-- The read that stops the comparing method, if its code is stopped by one. -/
theorem failedRead?_instanceWith {left right : ρ} {t : State ρ}
    (hrun : run (compareCode layout) stepLimit (stateAt left right 0 [] (.int 0)) =
      (.unreadable, t)) :
    (instanceWith className layout (.ref (.shared left))).failedRead? right =
      pendingRead? (compareCode layout) t := by
  have hbody : (linkedCompare layout).body = some (compareBody layout) := rfl
  rw [stateAt, ← entry_compare] at hrun
  exact Instance.failedRead?_of_run findMethod?_compare hbody hrun

theorem length_le_bytes {t : CodeText} (h : CodeText.Spaced t) : t.length ≤ (CodeText.bytes t).length := by
  induction t with
  | nil => exact Nat.le_refl 0
  | cons e t ih =>
    have hpos := h e List.mem_cons_self
    have hrest := ih fun d hd => h d (List.mem_cons_of_mem _ hd)
    simp only [CodeText.bytes, List.flatMap_cons, List.length_append, List.length_cons] at hrest ⊢
    omega

section Fitting

variable (hcolumns : ∀ key ∈ layout.keys, key.column.toNat ≤ maxColumn)
  (hreach : Reaches (indices layout) layout.keys)

include hcolumns hreach

theorem length_compareBound : (compareBound layout.keys).length =
    (compareText (indices layout) layout.keys).length := by
  have hbinds : (compareSubject "" layout 0).Binds _ (compareText (indices layout) layout.keys) _ :=
    binds_compare provides_classFile (fun _ => kind_mem_kinds) hcolumns hreach
  exact hbinds.length_eq.symm

/-- The limit of steps is never reached. -/
theorem length_compareBound_le : (compareBound layout.keys).length ≤ stepLimit := by
  have hspaced := CodeText.spaced_of_spelled (spelled_compare hcolumns hreach)
  have hbytes := (length_compareText hreach).2
  have hle := length_le_bytes hspaced
  have hlimit : stepLimit = 1048576 := rfl
  rw [length_compareBound hcolumns hreach]
  omega

theorem stands_compareCode : Stands (compareCode layout) 0 (compareBound layout.keys) := by
  refine stands_all ?_
  unfold compareCode
  exact CodeText.map_boundAt (length_compareBound hcolumns hreach)

/-- The instance compares as the walk does, and stays as it is; a read that stops the one stops the
    other. -/
theorem compare_instanceWith (left right : ρ) :
    (∃ c, layout.compare? left right = some c ∧
      (instanceWith className layout (.ref (.shared left))).compare right =
        (.ok c, instanceWith className layout (.ref (.shared left)))) ∨
    (∃ read : ColumnRead ρ, layout.compare? left right = none ∧
      failedRead? left right layout.keys = some read ∧ read.Fails ∧
      (instanceWith className layout (.ref (.shared left))).failedRead? right = some read ∧
      (instanceWith className layout (.ref (.shared left))).compare right =
        (.error .unreadable, instanceWith className layout (.ref (.shared left)))) := by
  have hlimit := length_compareBound_le hcolumns hreach
  rcases compare_cases left right (.int 0) layout.keys (stands_compareCode hcolumns hreach) with
    ⟨c, t, hc, hfields, hhalts⟩ | ⟨read, t, hread, hhalts, hstopped⟩
  · refine Or.inl ⟨c, hc, ?_⟩
    have hrun := hhalts.mono hlimit 0
    unfold Instance.compare
    rw [invoke_compare hrun, hfields]
    rfl
  · have hrun := hhalts.mono hlimit 0
    refine Or.inr ⟨read, compareKeys?_eq_none_iff.mpr ⟨read, hread⟩, hread, hstopped.fails, ?_, ?_⟩
    · exact (failedRead?_instanceWith hrun).trans hstopped.pending
    · unfold Instance.compare
      rw [invoke_compare hrun, hstopped.fields]
      rfl

end Fitting

/-- What a successful assembly gives. -/
theorem eq_of_assemble {g : Generator} {cls : LinkedClass} (h : (g.assemble layout).1 = .ok cls) :
    (∀ key ∈ layout.keys, key.column.toNat ≤ maxColumn) ∧ Reaches (indices layout) layout.keys ∧
      cls = linkedClass g.nextName layout := by
  unfold assemble at h
  split at h
  · cases h
  · rename_i bytes g' hgenerate
    obtain ⟨hcolumns, hname, hreach, rfl⟩ := bytes_of_generate (congrArg Prod.fst hgenerate)
    rw [load_classText hcolumns hname hreach] at h
    cases h
    exact ⟨hcolumns, hreach, rfl⟩

/-- Bytes that are generated and can be loaded are assembled. -/
theorem assemble_ok {g : Generator} {bytes : List UInt8} {cls : LinkedClass}
    (hgenerate : (g.generate layout).1 = .ok bytes) (hload : LinkedClass.load bytes = .ok cls) :
    (g.assemble layout).1 = .ok cls := by
  unfold assemble
  generalize g.generate layout = generated at hgenerate
  obtain ⟨answer, g'⟩ := generated
  obtain rfl : answer = .ok bytes := hgenerate
  dsimp only
  rw [hload]

theorem assemble_mixed : (Generator.new.assemble mixedLayout).1 =
    .ok (linkedClass Generator.new.nextName mixedLayout) := by
  obtain ⟨hcolumns, hname, hreach, _⟩ := bytes_of_generate generate_mixed
  exact assemble_ok generate_mixed (load_classText hcolumns hname hreach)

end Calls

end Generator

/-! ## 5. Sequences of calls -/

/-- A call of a comparator. -/
inductive Call (ρ : Type) where
  | setLeft (record : ρ)
  | compare (right : ρ)
  deriving DecidableEq, Repr

namespace Comparator

variable {ρ : Type} [Record ρ]

/-- The comparator that a call leaves behind, whatever it answered. -/
def after (c : Comparator ρ) : Call ρ → Comparator ρ
  | .setLeft record => (c.setLeft record).2
  | .compare right => (c.compare right).2

/-- The read that stops a comparison with a right record. -/
def failedRead? : Comparator ρ → ρ → Option (ColumnRead ρ)
  | .generated i, right => i.failedRead? right
  | .direct c, right => c.left.bind fun left => Collation.failedRead? left right c.layout.keys

/-- Two comparators agree on a call: both take the left record, both answer with the same sign, or
    both are stopped by the same read, which fails. -/
inductive Agree (c d : Comparator ρ) : Call ρ → Prop where
  | taken (record : ρ) (hc : (c.setLeft record).1 = .ok ()) (hd : (d.setLeft record).1 = .ok ()) :
    Agree c d (.setLeft record)
  | compared (right : ρ) (n : Int32) (hsign : n = -1 ∨ n = 0 ∨ n = 1)
    (hc : (c.compare right).1 = .ok n) (hd : (d.compare right).1 = .ok n) :
    Agree c d (.compare right)
  | stopped (right : ρ) (read : ColumnRead ρ) (hfails : read.Fails)
    (hc : (c.compare right).1 = .error .unreadable) (hd : (d.compare right).1 = .error .unreadable)
    (hcread : c.failedRead? right = some read) (hdread : d.failedRead? right = some read) :
    Agree c d (.compare right)

/-- Two comparators agree on each of the calls, which are made one after the other. -/
def AgreeOn (c d : Comparator ρ) : List (Call ρ) → Prop
  | [] => True
  | call :: rest => c.Agree d call ∧ (c.after call).AgreeOn (d.after call) rest

end Comparator

section Agreement

variable {ρ : Type} [Record ρ] {left right : ρ}

theorem signOrLess_sign (o : Option Ordering) :
    signOrLess o = -1 ∨ signOrLess o = 0 ∨ signOrLess o = 1 := by
  rcases o with _ | _ | _ | _ <;> simp [signOrLess]

theorem SortKey.compareInOrder?_sign {key : SortKey} {a b : ρ} {n : Int32}
    (h : key.compareInOrder? a b = some n) : n = -1 ∨ n = 0 ∨ n = 1 := by
  unfold compareInOrder? at h
  dsimp only at h
  split at h <;>
  · obtain ⟨x, _, hx⟩ := Option.bind_eq_some_iff.mp h
    obtain ⟨y, _, hy⟩ := Option.bind_eq_some_iff.mp hx
    cases hy
    exact signOrLess_sign _

theorem compareKeys?_sign {keys : List SortKey} {n : Int32}
    (h : compareKeys? left right keys = some n) : n = -1 ∨ n = 0 ∨ n = 1 := by
  induction keys with
  | nil =>
    cases h
    exact Or.inr (Or.inl rfl)
  | cons key rest ih =>
    rw [compareKeys?] at h
    cases hkey : key.compare? left right with
    | none =>
      rw [hkey] at h
      cases h
    | some c =>
      rw [hkey] at h
      by_cases hzero : c = 0
      · exact ih ((if_pos hzero).symm.trans h)
      · obtain rfl : c = n := Option.some.inj ((if_neg hzero).symm.trans h)
        rw [Generator.compare?_eq] at hkey
        exact SortKey.compareInOrder?_sign hkey

variable {className : String} {layout : Layout}

theorem Comparator.setLeft_generated {i j : Instance ρ} {record : ρ} {answer : Except Crash Unit}
    (h : i.setLeft record = (answer, j)) :
    (Comparator.generated i).setLeft record = (answer, .generated j) := by
  unfold Comparator.setLeft
  dsimp only
  rw [h]

theorem Comparator.compare_generated {i j : Instance ρ} {answer : Except Crash Int32}
    (h : i.compare right = (answer, j)) :
    (Comparator.generated i).compare right = (answer, .generated j) := by
  unfold Comparator.compare
  dsimp only
  rw [h]

theorem DirectComparator.compare_some {n : Int32} (h : layout.compare? left right = some n) :
    (DirectComparator.mk layout (some left)).compare right = .ok n := by
  unfold DirectComparator.compare
  dsimp only
  rw [h]

theorem DirectComparator.compare_none (h : layout.compare? left right = none) :
    (DirectComparator.mk layout (some left)).compare right = .error .unreadable := by
  unfold DirectComparator.compare
  dsimp only
  rw [h]

/-- The instance and the walk hold the same left record. -/
structure Comparator.Paired (className : String) (layout : Layout) (c d : Comparator ρ) (left : ρ) :
    Prop where
  generated : c = .generated (Generator.instanceWith className layout (.ref (.shared left)))
  direct : d = .direct ⟨layout, some left⟩

/-- Both take a left record, whether they had one or not. -/
theorem agree_setLeft (v : Value ρ) (held : Option ρ) (record : ρ) {c d : Comparator ρ}
    (hc : c = .generated (Generator.instanceWith className layout v)) (hd : d = .direct ⟨layout, held⟩) :
    c.Agree d (.setLeft record) ∧
      (c.after (.setLeft record)).Paired className layout (d.after (.setLeft record)) record := by
  subst hc hd
  have hcall := Comparator.setLeft_generated
    (Generator.setLeft_instanceWith className layout v record)
  exact ⟨.taken record (congrArg Prod.fst hcall) rfl, congrArg Prod.snd hcall, rfl⟩

section Fitting

variable (hcolumns : ∀ key ∈ layout.keys, key.column.toNat ≤ maxColumn)
  (hreach : Generator.Reaches (Generator.indices layout) layout.keys)

include hcolumns hreach

/-- A comparison is agreed on, and changes nothing. -/
theorem agree_compare (right : ρ) {c d : Comparator ρ}
    (h : c.Paired className layout d left) :
    c.Agree d (.compare right) ∧
      (c.after (.compare right)).Paired className layout (d.after (.compare right)) left := by
  obtain ⟨rfl, rfl⟩ := h
  rcases Generator.compare_instanceWith hcolumns hreach left right with
    ⟨n, hn, hcompare⟩ | ⟨read, hnone, hread, hfails, hpending, hcompare⟩
  · have hc := Comparator.compare_generated hcompare
    have hd := DirectComparator.compare_some hn
    exact ⟨.compared right n (compareKeys?_sign hn) (congrArg Prod.fst hc) hd,
      congrArg Prod.snd hc, rfl⟩
  · have hc := Comparator.compare_generated hcompare
    have hd := DirectComparator.compare_none hnone
    exact ⟨.stopped right read hfails (congrArg Prod.fst hc) hd hpending hread,
      congrArg Prod.snd hc, rfl⟩

/-- With the same left record, the instance and the walk agree on all that follows. -/
theorem agreeOn_of_paired (calls : List (Call ρ)) {c d : Comparator ρ}
    (h : c.Paired className layout d left) : c.AgreeOn d calls := by
  induction calls generalizing c d left with
  | nil => trivial
  | cons call rest ih =>
    cases call with
    | setLeft record =>
      obtain ⟨hagree, hnext⟩ := agree_setLeft _ _ record h.generated h.direct
      exact ⟨hagree, ih hnext⟩
    | compare right =>
      obtain ⟨hagree, hnext⟩ := agree_compare hcolumns hreach right h
      exact ⟨hagree, ih hnext⟩

end Fitting

/-- **A generated comparator answers as the walk of its layout**: for every layout for which a class
    is assembled, the class has a new instance, and this instance agrees with the walk on every
    sequence of calls that begins by setting the left record. -/
theorem Generator.assembled_agrees (g : Generator) (layout : Layout) {cls : LinkedClass}
    (h : (g.assemble layout).1 = .ok cls) :
    ∃ i : Instance ρ, cls.newInstance = .ok i ∧ ∀ (first : ρ) (calls : List (Call ρ)),
      (Comparator.generated i).AgreeOn (.direct (.new layout)) (.setLeft first :: calls) := by
  obtain ⟨hcolumns, hreach, rfl⟩ := eq_of_assemble h
  refine ⟨_, newInstance_linkedClass, fun first calls => ?_⟩
  obtain ⟨hagree, hnext⟩ := agree_setLeft (.ref .null) none first rfl rfl
  exact ⟨hagree, agreeOn_of_paired hcolumns hreach calls hnext⟩

end Agreement

theorem Generator.assembled_agrees_mixed :
    (Generator.new.assemble mixedLayout).1 =
        .ok (linkedClass Generator.new.nextName mixedLayout) ∧
      ∃ i : Instance Row, (linkedClass Generator.new.nextName mixedLayout).newInstance = .ok i ∧
        ∀ (first : Row) (calls : List (Call Row)), (Comparator.generated i).AgreeOn
          (.direct (.new mixedLayout)) (.setLeft first :: calls) :=
  ⟨assemble_mixed, assembled_agrees .new mixedLayout assemble_mixed⟩

end Collation
