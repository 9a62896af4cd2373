/-
  File:      Collation/Proofs/Bytes/Patching.lean
  Subject:   Filling fields in later gives the bytes of writing in order.

  A script writes to one buffer: it appends numbers and bytes, reserves fields, and gives a field its
  value at any time after it was reserved.  The fields of a width are numbered as they are reserved,
  and a script names them by their numbers; where they stand is known to the buffer alone.

  * `Width` -- two or four bytes, with the numbers and the fields of that width;
  * `Sheet.run` -- carries out a script on an empty buffer;
  * `Script.Orderly` -- every field is reserved before it gets a value;
  * `Script.value` -- the value of a field, zero as long as it has none;
  * `Script.written` -- the bytes of a script that knows the values from the start;
  * `Sheet.Mirrors.apply`, `Sheet.Mirrors.run` -- the buffer holds these bytes after every edit;
  * **`Sheet.run_writes_in_order`** -- so a script ends with them, and every field shows its value.
-/
import Collation.Bytes.Buffer

namespace Collation

/-! ## 1. Bytes and words -/

namespace Buffer

theorem get?_putBytes_of_lt (b : Buffer) {i : Nat} (h : i < b.position) (vs : List UInt8) :
    (b.putBytes vs).get? i = b.get? i := by
  have hlist : ∀ b : Buffer, b.get? i = b.toList[i]? := fun b => Array.getElem?_toList.symm
  rw [hlist, hlist, toList_putBytes, List.getElem?_append_left (by rwa [length_toList])]

theorem get?_replace_of_outside (b : Buffer) {p i : Nat} {vs : List UInt8}
    (h : i < p ∨ p + vs.length ≤ i) : (b.replace p vs).get? i = b.get? i := by
  induction vs generalizing b p with
  | nil => rfl
  | cons v vs ih =>
    rw [List.length_cons] at h
    rw [replace, ih _ (by omega)]
    exact Array.getElem?_setIfInBounds_ne (by omega)

theorem get?_replace_of_inside (b : Buffer) {p k : Nat} {vs : List UInt8}
    (hroom : p + vs.length ≤ b.position) (hk : k < vs.length) :
    (b.replace p vs).get? (p + k) = vs[k]? := by
  induction vs generalizing b p k with
  | nil => cases hk
  | cons v vs ih =>
    have hroom' : p + 1 + vs.length ≤ (⟨b.bytes.setIfInBounds p v⟩ : Buffer).position := by
      rw [List.length_cons] at hroom
      simp only [position, Array.size_setIfInBounds] at hroom ⊢
      omega
    rw [replace]
    cases k with
    | zero =>
      have hp : p < b.bytes.size := by
        rw [List.length_cons] at hroom
        exact Nat.lt_of_lt_of_le (by omega) hroom
      rw [get?_replace_of_outside _ (.inl (by omega))]
      simp [get?, hp]
    | succ k =>
      have hk' : k < vs.length := Nat.lt_of_succ_lt_succ hk
      have hplace : p + (k + 1) = p + 1 + k := by omega
      rw [hplace, ih _ hroom' hk', List.getElem?_cons_succ]

/-- The bytes stand in the buffer from `p` on. -/
def Shows (b : Buffer) (p : Nat) (vs : List UInt8) : Prop := ∀ k < vs.length, b.get? (p + k) = vs[k]?

theorem shows_replace (b : Buffer) {p : Nat} {vs : List UInt8} (hroom : p + vs.length ≤ b.position) :
    (b.replace p vs).Shows p vs :=
  fun _ hk => b.get?_replace_of_inside hroom hk

theorem get16?_of_shows {b : Buffer} {p : Nat} {w : UInt16} (h : b.Shows p (Word.bytes16 w)) :
    b.get16? p = some w := by
  have hlength := Word.length_bytes16 w
  have hhi : b.bytes[p]? = some (UInt8.ofNat (w.toNat / 256)) := h 0 (by omega)
  have hlo : b.bytes[p + 1]? = some (UInt8.ofNat (w.toNat % 256)) := h 1 (by omega)
  unfold get16?
  rw [hhi, hlo]
  exact congrArg some (Word.ofBytes16_bytes16 w)

theorem get32?_of_shows {b : Buffer} {p : Nat} {w : UInt32} (h : b.Shows p (Word.bytes32 w)) :
    b.get32? p = some w := by
  have hlength := Word.length_bytes32 w
  have h₀ : b.bytes[p]? = some (UInt8.ofNat (w.toNat / 16777216)) := h 0 (by omega)
  have h₁ : b.bytes[p + 1]? = some (UInt8.ofNat (w.toNat / 65536 % 256)) := h 1 (by omega)
  have h₂ : b.bytes[p + 2]? = some (UInt8.ofNat (w.toNat / 256 % 256)) := h 2 (by omega)
  have h₃ : b.bytes[p + 3]? = some (UInt8.ofNat (w.toNat % 256)) := h 3 (by omega)
  unfold get32?
  rw [h₀, h₁, h₂, h₃]
  exact congrArg some (Word.ofBytes32_bytes32 w)

theorem shows_of_toList {b : Buffer} {front vs back : List UInt8} (h : b.toList = front ++ vs ++ back) :
    b.Shows front.length vs := by
  intro k hk
  have hget : b.get? (front.length + k) = b.toList[front.length + k]? := Array.getElem?_toList.symm
  rw [hget, h, List.append_assoc, List.getElem?_append_right (Nat.le_add_right _ _),
    Nat.add_sub_cancel_left, List.getElem?_append_left hk]

/-- Bytes that are there can be overwritten by as many others. -/
theorem overwrite_of_toList {b : Buffer} {front old vs back : List UInt8}
    (h : b.toList = front ++ old ++ back) (hlength : vs.length = old.length) :
    ∃ b', b.overwrite front.length vs = some b' ∧ b'.toList = front ++ vs ++ back := by
  have hroom : front.length + vs.length ≤ b.position := by
    rw [← length_toList, h, hlength, List.length_append, List.length_append]
    omega
  have htake : b.toList.take front.length = front := by
    rw [h, List.append_assoc, List.take_left]
  have hdrop : b.toList.drop (front.length + vs.length) = back := by
    rw [h, hlength, ← List.length_append, List.drop_left]
  refine ⟨b.replace front.length vs, if_pos hroom, ?_⟩
  rw [toList_replace b front.length vs hroom, htake, hdrop]

end Buffer

/-! ## 2. Two widths -/

/-- The number of bytes of a field. -/
inductive Width where
  | two
  | four
  deriving DecidableEq

namespace Width

/-- The numbers of the width. -/
def Value : Width → Type
  | .two => UInt16
  | .four => UInt32

/-- The reserved fields of the width. -/
def Field : Width → Type
  | .two => Reserved16
  | .four => Reserved32

def zero : (w : Width) → w.Value
  | .two => (0 : UInt16)
  | .four => (0 : UInt32)

/-- The bytes of a number, the big end first. -/
def bytes : (w : Width) → w.Value → List UInt8
  | .two, v => Word.bytes16 v
  | .four, v => Word.bytes32 v

def position : (w : Width) → w.Field → Nat
  | .two, field => Reserved16.position field
  | .four, field => Reserved32.position field

/-- All numbers of a width have as many bytes. -/
theorem length_bytes_eq (w : Width) (u v : w.Value) : (w.bytes u).length = (w.bytes v).length := by
  cases w <;> rfl

end Width

namespace Buffer

/-- Appends a number. -/
def put (b : Buffer) : (w : Width) → w.Value → Buffer
  | .two, v => b.putU16 v
  | .four, v => b.putU32 v

/-- Gives a reserved field its value. -/
def patch (b : Buffer) : (w : Width) → w.Field → w.Value → Option Buffer
  | .two, field, v => b.patch16 field v
  | .four, field, v => b.patch32 field v

/-- The number at `p`. -/
def word? (b : Buffer) : (w : Width) → Nat → Option w.Value
  | .two, p => b.get16? p
  | .four, p => b.get32? p

theorem toList_put (b : Buffer) (w : Width) (v : w.Value) :
    (b.put w v).toList = b.toList ++ w.bytes v := by
  cases w with
  | two => exact b.toList_putU16 v
  | four => exact b.toList_putU32 v

theorem patch_eq (b : Buffer) (w : Width) (field : w.Field) (v : w.Value) :
    b.patch w field v = b.overwrite (w.position field) (w.bytes v) := by
  cases w <;> rfl

theorem word?_of_shows {b : Buffer} {w : Width} {p : Nat} {v : w.Value}
    (h : b.Shows p (w.bytes v)) : b.word? w p = some v := by
  cases w with
  | two => exact get16?_of_shows h
  | four => exact get32?_of_shows h

end Buffer

/-! ## 3. Scripts -/

/-- What a script may do.  A field is named by how many of its width were reserved before it. -/
inductive Edit where
  | byte (v : UInt8)
  | number (w : Width) (v : w.Value)
  | signed (v : Int16)
  | block (vs : List UInt8)
  | reserve (w : Width)
  | patch (w : Width) (k : Nat) (v : w.Value)

namespace Edit

/-- How many fields of the width the edit reserves. -/
def reserved (w : Width) : Edit → Nat
  | .reserve w' => if w' = w then 1 else 0
  | _ => 0

/-- The value that the edit gives to the `k`-th field of the width. -/
def value? : Edit → (w : Width) → Nat → Option w.Value
  | .patch .two j v, .two, k => if j = k then some v else none
  | .patch .four j v, .four, k => if j = k then some v else none
  | _, _, _ => none

/-- The bytes that the edit appends, if a field that it reserves has the value `next`. -/
def written (next : (w : Width) → w.Value) : Edit → List UInt8
  | .byte v => [v]
  | .number w v => w.bytes v
  | .signed v => Word.bytes16 v.toUInt16
  | .block vs => vs
  | .reserve w => w.bytes (next w)
  | .patch _ _ _ => []

end Edit

/-- Edits in the order in which they are made. -/
abbrev Script := List Edit

namespace Script

/-- How many fields of the width the script reserves. -/
def reserved (w : Width) : Script → Nat
  | [] => 0
  | e :: script => e.reserved w + reserved w script

/-- The value of the `k`-th field of the width: the last one that the script gives it, zero if it gives
    it none. -/
def value (script : Script) (w : Width) (k : Nat) : w.Value :=
  script.foldl (fun old e => (e.value? w k).getD old) w.zero

/-- The bytes that the script appends to what `done` has written, if its fields have the given values
    when they are written. -/
def written (given : (w : Width) → Nat → w.Value) (done : Script) : Script → List UInt8
  | [] => []
  | e :: script =>
    e.written (fun w => given w (reserved w done)) ++ written given (done ++ [e]) script

/-- The edit gives a value to no field but one that was reserved before. -/
def Allows (done : Script) : Edit → Prop
  | .patch w k _ => k < done.reserved w
  | _ => True

/-- After `done`, no field gets a value before it is reserved. -/
def Orderly (done : Script) : Script → Prop
  | [] => True
  | e :: script => done.Allows e ∧ Orderly (done ++ [e]) script

instance (done : Script) : (e : Edit) → Decidable (done.Allows e)
  | .patch w k _ => inferInstanceAs (Decidable (k < done.reserved w))
  | .byte _ | .number _ _ | .signed _ | .block _ | .reserve _ => .isTrue trivial

instance decidableOrderly : (done script : Script) → Decidable (Orderly done script)
  | _, [] => .isTrue trivial
  | done, e :: script =>
    have := decidableOrderly (done ++ [e]) script
    inferInstanceAs (Decidable (done.Allows e ∧ Orderly (done ++ [e]) script))

end Script

/-- A buffer, and the fields that were reserved on it in their order. -/
structure Sheet where
  buffer : Buffer
  fields16 : List Reserved16
  fields32 : List Reserved32

namespace Sheet

def empty : Sheet := ⟨.empty, [], []⟩

/-- The fields of the width. -/
def fields (s : Sheet) : (w : Width) → List w.Field
  | .two => s.fields16
  | .four => s.fields32

/-- Reserves a field and keeps it. -/
def reserve (s : Sheet) : Width → Sheet
  | .two => ⟨s.buffer.reserve16.2, s.fields16 ++ [s.buffer.reserve16.1], s.fields32⟩
  | .four => ⟨s.buffer.reserve32.2, s.fields16, s.fields32 ++ [s.buffer.reserve32.1]⟩

/-- Carries out one edit; none when it names no field, or one that the buffer does not have. -/
def apply (s : Sheet) : Edit → Option Sheet
  | .byte v => some { s with buffer := s.buffer.putU8 v }
  | .number w v => some { s with buffer := s.buffer.put w v }
  | .signed v => some { s with buffer := s.buffer.putI16 v }
  | .block vs => some { s with buffer := s.buffer.putBytes vs }
  | .reserve w => some (s.reserve w)
  | .patch w k v => do
    let field ← (s.fields w)[k]?
    let buffer ← s.buffer.patch w field v
    return { s with buffer }

/-- Carries out a script. -/
def run (s : Sheet) : Script → Option Sheet
  | [] => some s
  | e :: script => (s.apply e).bind (run · script)

end Sheet

/-! ## 4. Values and bytes of a script -/

namespace Edit

theorem value?_patch_self (w : Width) (k : Nat) (v : w.Value) :
    (Edit.patch w k v).value? w k = some v := by
  cases w <;> exact if_pos rfl

theorem value?_patch_of_ne {w w' : Width} {j k : Nat} (v : w.Value) (h : w = w' → j ≠ k) :
    (Edit.patch w j v).value? w' k = none := by
  cases w <;> cases w' <;> first | rfl | exact if_neg (h rfl)

/-- An edit appends as many bytes whatever the value of the field that it reserves. -/
theorem length_written_eq (e : Edit) (next next' : (w : Width) → w.Value) :
    (e.written next).length = (e.written next').length := by
  cases e with
  | reserve w => exact w.length_bytes_eq (next w) (next' w)
  | _ => rfl

end Edit

namespace Script

variable {done script before after : Script} {e : Edit} {w : Width} {k : Nat}
  {given given' : (w : Width) → Nat → w.Value}

theorem reserved_append (w : Width) (script later : Script) :
    reserved w (script ++ later) = reserved w script + reserved w later := by
  induction script with
  | nil => exact (Nat.zero_add _).symm
  | cons e script ih => rw [List.cons_append, reserved, reserved, ih, Nat.add_assoc]

theorem reserved_concat (w : Width) (script : Script) (e : Edit) :
    reserved w (script ++ [e]) = reserved w script + e.reserved w :=
  reserved_append w script [e]

theorem value_concat (script : Script) (e : Edit) (w : Width) (k : Nat) :
    value (script ++ [e]) w k = (e.value? w k).getD (script.value w k) := by
  rw [value, value, List.foldl_append]
  rfl

theorem value_patch_self (script : Script) (v : w.Value) :
    value (script ++ [Edit.patch w k v]) w k = v := by
  rw [value_concat, Edit.value?_patch_self]
  rfl

theorem value_patch_of_ne (script : Script) {w' : Width} {j : Nat} (v : w.Value)
    (h : w = w' → j ≠ k) : value (script ++ [Edit.patch w j v]) w' k = script.value w' k := by
  rw [value_concat, Edit.value?_patch_of_ne v h]
  rfl

/-- An edit that is allowed gives no value to a field that is still to be reserved. -/
theorem value?_of_allows (h : done.Allows e) (hk : done.reserved w ≤ k) : e.value? w k = none := by
  cases e with
  | patch w' j v =>
    refine Edit.value?_patch_of_ne v fun hw hj => ?_
    subst hw hj
    exact Nat.not_lt.mpr hk h
  | _ => rfl

theorem written_append (given : (w : Width) → Nat → w.Value) (done script later : Script) :
    written given done (script ++ later) =
      written given done script ++ written given (done ++ script) later := by
  induction script generalizing done with
  | nil => rw [List.append_nil]; rfl
  | cons e script ih =>
    rw [List.cons_append, written, written, ih, List.append_assoc, List.append_assoc]
    rfl

/-- The bytes of a script depend on the values of its own fields only. -/
theorem written_congr
    (h : ∀ w k, done.reserved w ≤ k → k < done.reserved w + script.reserved w →
      given w k = given' w k) :
    written given done script = written given' done script := by
  induction script generalizing done with
  | nil => rfl
  | cons e script ih =>
    have hlater : written given (done ++ [e]) script = written given' (done ++ [e]) script := by
      refine ih fun w k hlo hhi => h w k ?_ ?_
      · rw [reserved_concat] at hlo
        omega
      · rw [reserved_concat] at hhi
        rw [reserved]
        omega
    have hfirst : e.written (fun w => given w (reserved w done)) =
        e.written (fun w => given' w (reserved w done)) := by
      cases e with
      | reserve w =>
        have hnew : Edit.reserved w (.reserve w) = 1 := if_pos rfl
        have hvalue := h w (reserved w done) (Nat.le_refl _) (by rw [reserved, hnew]; omega)
        exact congrArg w.bytes hvalue
      | _ => rfl
    rw [written, written, hfirst, hlater]

theorem length_written_eq (given given' : (w : Width) → Nat → w.Value) (done script : Script) :
    (written given done script).length = (written given' done script).length := by
  induction script generalizing done with
  | nil => rfl
  | cons e script ih =>
    rw [written, written, List.length_append, List.length_append, ih, e.length_written_eq]

/-- A field is reserved by one of the edits. -/
theorem exists_reserve (h : k < script.reserved w) :
    ∃ before after : Script, script = before ++ Edit.reserve w :: after ∧ before.reserved w = k := by
  induction script generalizing k with
  | nil => exact absurd h (Nat.not_lt_zero k)
  | cons e script ih =>
    rw [reserved] at h
    by_cases hk : k < e.reserved w
    · cases e with
      | reserve w' =>
        by_cases hw : w' = w
        · subst hw
          rw [Edit.reserved, if_pos rfl] at hk
          exact ⟨[], script, rfl, (Nat.lt_one_iff.mp hk).symm⟩
        · rw [Edit.reserved, if_neg hw] at hk
          exact absurd hk (Nat.not_lt_zero k)
      | _ => exact absurd hk (Nat.not_lt_zero k)
    · obtain ⟨before, after, rfl, hcount⟩ := ih (k := k - e.reserved w) (by omega)
      refine ⟨e :: before, after, rfl, ?_⟩
      rw [reserved]
      omega

/-- The bytes of a field stand between those of the edits before it and those of the edits after it. -/
theorem written_reserve (given : (w : Width) → Nat → w.Value) (before after : Script) (w : Width) :
    written given [] (before ++ Edit.reserve w :: after) =
      written given [] before ++ w.bytes (given w (before.reserved w)) ++
        written given (before ++ [Edit.reserve w]) after := by
  rw [written_append, written, ← List.append_assoc]
  rfl

/-- **A field gets its value in place**: where the values differ in that of one field only, so do the
    bytes. -/
theorem written_patch (before after : Script) (w : Width)
    (h : ∀ w' k, (w = w' → before.reserved w ≠ k) → given w' k = given' w' k) :
    written given' [] (before ++ Edit.reserve w :: after) =
      written given [] before ++ w.bytes (given' w (before.reserved w)) ++
        written given (before ++ [Edit.reserve w]) after := by
  have hbefore : written given [] before = written given' [] before := by
    refine written_congr fun w' k _ hk => h w' k fun hw => ?_
    subst hw
    rw [reserved, Nat.zero_add] at hk
    exact (Nat.ne_of_lt hk).symm
  have hafter : written given (before ++ [Edit.reserve w]) after =
      written given' (before ++ [Edit.reserve w]) after := by
    refine written_congr fun w' k hk _ => h w' k fun hw => ?_
    subst hw
    rw [reserved_concat, Edit.reserved, if_pos rfl] at hk
    exact Nat.ne_of_lt hk
  rw [written_reserve, hbefore, hafter]

/-- The last edit of a script reserves the field, or an earlier one does. -/
theorem reserve_of_concat (h : done ++ [e] = before ++ Edit.reserve w :: after) :
    before = done ∧ e = .reserve w ∨ ∃ middle, done = before ++ Edit.reserve w :: middle := by
  rcases after.eq_nil_or_concat with rfl | ⟨middle, last, rfl⟩
  · obtain ⟨hdone, he⟩ := List.append_inj' h rfl
    exact .inl ⟨hdone.symm, List.singleton_inj.mp he⟩
  · rw [List.concat_eq_append, ← List.cons_append, ← List.append_assoc] at h
    exact .inr ⟨middle, (List.append_inj' h rfl).1⟩

end Script

/-! ## 5. The sheet along a script -/

namespace Sheet

variable {s s' : Sheet} {done script : Script} {e : Edit}

/-- The fields that an edit reserves stand behind all that was written, and come behind the others. -/
def Grows (s : Sheet) (e : Edit) (s' : Sheet) : Prop :=
  ∀ w, ∃ new, s'.fields w = s.fields w ++ new ∧ new.length = e.reserved w ∧
    ∀ field ∈ new, w.position field = s.buffer.position

theorem grows_of_fields_eq (hfields : s'.fields = s.fields) (he : ∀ w, e.reserved w = 0) :
    s.Grows e s' := by
  intro w
  refine ⟨[], ?_, (he w).symm, fun field hfield => absurd hfield List.not_mem_nil⟩
  rw [hfields, List.append_nil]

theorem grows_reserve (s : Sheet) (w : Width) : s.Grows (.reserve w) (s.reserve w) := by
  have hplace : ∀ (w : Width) (new : w.Field), w.position new = s.buffer.position →
      ∀ field ∈ [new], w.position field = s.buffer.position := by
    intro w new hnew field hfield
    rw [List.mem_singleton.mp hfield]
    exact hnew
  intro w'
  cases w <;> cases w'
  · exact ⟨[s.buffer.reserve16.1], rfl, rfl, hplace .two _ rfl⟩
  · exact ⟨[], (List.append_nil _).symm, rfl, fun _ hfield => absurd hfield List.not_mem_nil⟩
  · exact ⟨[], (List.append_nil _).symm, rfl, fun _ hfield => absurd hfield List.not_mem_nil⟩
  · exact ⟨[s.buffer.reserve32.1], rfl, rfl, hplace .four _ rfl⟩

theorem toList_reserve (s : Sheet) (w : Width) :
    (s.reserve w).buffer.toList = s.buffer.toList ++ w.bytes w.zero := by
  cases w with
  | two => exact s.buffer.toList_putU16 0
  | four => exact s.buffer.toList_putU32 0

/-- What is not a patch is carried out, and a field that it reserves is written as zero. -/
theorem exists_apply (s : Sheet) (he : ∀ w k v, e ≠ .patch w k v) :
    ∃ s', s.apply e = some s' ∧ s.Grows e s' ∧
      s'.buffer.toList = s.buffer.toList ++ e.written Width.zero := by
  cases e with
  | byte v => exact ⟨_, rfl, grows_of_fields_eq rfl fun _ => rfl, s.buffer.toList_putU8 v⟩
  | number w v => exact ⟨_, rfl, grows_of_fields_eq rfl fun _ => rfl, s.buffer.toList_put w v⟩
  | signed v => exact ⟨_, rfl, grows_of_fields_eq rfl fun _ => rfl, s.buffer.toList_putU16 v.toUInt16⟩
  | block vs => exact ⟨_, rfl, grows_of_fields_eq rfl fun _ => rfl, s.buffer.toList_putBytes vs⟩
  | reserve w => exact ⟨_, rfl, s.grows_reserve w, s.toList_reserve w⟩
  | patch w k v => exact absurd rfl (he w k v)

/-- **The sheet after a script**: the bytes are those of the values so far, every field stands behind
    what was written before it, and none has a value before it is reserved. -/
structure Mirrors (s : Sheet) (done : Script) : Prop where
  bytes : s.buffer.toList = Script.written done.value [] done
  count : ∀ w, (s.fields w).length = done.reserved w
  place : ∀ w before after, done = before ++ Edit.reserve w :: after →
    ∃ field, (s.fields w)[before.reserved w]? = some field ∧
      ∀ given, w.position field = (Script.written given [] before).length
  unset : ∀ w k, done.reserved w ≤ k → done.value w k = w.zero

theorem mirrors_empty : empty.Mirrors [] where
  bytes := rfl
  count w := by cases w <;> rfl
  place _ before _ h := absurd h.symm (List.append_ne_nil_of_right_ne_nil before (List.cons_ne_nil _ _))
  unset _ _ _ := rfl

namespace Mirrors

/-- A field that is reserved, and the bytes around it. -/
theorem exists_field (h : s.Mirrors done) {w : Width} {k : Nat} (hk : k < done.reserved w) :
    ∃ (before after : Script) (field : w.Field),
      done = before ++ Edit.reserve w :: after ∧ before.reserved w = k ∧ (s.fields w)[k]? = some field ∧
      w.position field = (Script.written done.value [] before).length ∧
      s.buffer.toList = Script.written done.value [] before ++ w.bytes (done.value w k) ++
        Script.written done.value (before ++ [Edit.reserve w]) after := by
  obtain ⟨before, after, hdone, rfl⟩ := Script.exists_reserve hk
  obtain ⟨field, hfield, hplace⟩ := h.place w before after hdone
  refine ⟨before, after, field, hdone, rfl, hfield, hplace _, ?_⟩
  rw [← Script.written_reserve, ← hdone]
  exact h.bytes

/-- All but the bytes is kept by any edit that is allowed. -/
theorem concat (h : s.Mirrors done) (hallows : done.Allows e) (hgrows : s.Grows e s')
    (hbytes : s'.buffer.toList = Script.written (Script.value (done ++ [e])) [] (done ++ [e])) :
    s'.Mirrors (done ++ [e]) where
  bytes := hbytes
  count w := by
    obtain ⟨new, hfields, hnew, _⟩ := hgrows w
    rw [hfields, List.length_append, h.count, hnew, Script.reserved_concat]
  place w before after hsplit := by
    obtain ⟨new, hfields, hnew, hend⟩ := hgrows w
    rcases Script.reserve_of_concat hsplit with ⟨rfl, rfl⟩ | ⟨middle, hdone⟩
    · rw [Edit.reserved, if_pos rfl] at hnew
      obtain ⟨field, rfl⟩ := List.length_eq_one_iff.mp hnew
      refine ⟨field, ?_, fun given => ?_⟩
      · rw [hfields, ← h.count w, List.getElem?_concat_length]
      · rw [hend field (List.mem_singleton.mpr rfl), ← Buffer.length_toList, h.bytes]
        exact Script.length_written_eq _ _ _ _
    · obtain ⟨field, hfield, hplace⟩ := h.place w before middle hdone
      obtain ⟨hlt, _⟩ := List.getElem?_eq_some_iff.mp hfield
      exact ⟨field, by rw [hfields, List.getElem?_append_left hlt, hfield], hplace⟩
  unset w k hk := by
    rw [Script.reserved_concat] at hk
    have hdone : done.reserved w ≤ k := by omega
    rw [Script.value_concat, Script.value?_of_allows hallows hdone]
    exact h.unset w k hdone

/-- What is appended is appended in order: no earlier value changes, and a new field is zero. -/
theorem append (h : s.Mirrors done) (he : ∀ w k v, e ≠ .patch w k v) (hallows : done.Allows e) :
    ∃ s', s.apply e = some s' ∧ s'.Mirrors (done ++ [e]) := by
  obtain ⟨s', hs', hgrows, hbytes⟩ := s.exists_apply he
  refine ⟨s', hs', h.concat hallows hgrows ?_⟩
  have hvalue : Script.value (done ++ [e]) = done.value := by
    funext w k
    rw [Script.value_concat]
    cases e with
    | patch w' j v => exact absurd rfl (he w' j v)
    | _ => rfl
  -- the bytes of a new field are right only because nothing could give it a value in advance
  have hzero : (fun w => done.value w (done.reserved w)) = Width.zero := by
    funext w
    exact h.unset w _ (Nat.le_refl _)
  rw [hbytes, h.bytes, hvalue, Script.written_append, Script.written, List.nil_append, hzero,
    Script.written, List.append_nil]

/-- A field that is reserved can be filled in, and no other byte changes. -/
theorem patch (h : s.Mirrors done) {w : Width} {k : Nat} (v : w.Value) (hk : k < done.reserved w) :
    ∃ s', s.apply (.patch w k v) = some s' ∧ s'.Mirrors (done ++ [Edit.patch w k v]) := by
  obtain ⟨before, after, field, hdone, rfl, hfield, hplace, hshown⟩ := h.exists_field hk
  obtain ⟨b, hb, hbytes⟩ := Buffer.overwrite_of_toList hshown (w.length_bytes_eq v _)
  rw [← hplace, ← Buffer.patch_eq] at hb
  refine ⟨{ s with buffer := b }, ?_, h.concat hk (grows_of_fields_eq rfl fun _ => rfl) ?_⟩
  · rw [Sheet.apply, hfield, Option.bind_eq_bind, Option.bind_some, hb]
    rfl
  · have hpatched := Script.written_patch before after w fun w' k hne =>
      (done.value_patch_of_ne (k := k) v hne).symm
    rw [done.value_patch_self v, ← hdone] at hpatched
    rw [hbytes, Script.written_append, Script.written, Script.written, List.append_nil]
    exact hpatched.symm.trans (List.append_nil _).symm

/-- **One edit**: what is allowed is carried out, and the sheet follows. -/
theorem apply (h : s.Mirrors done) (hallows : done.Allows e) :
    ∃ s', s.apply e = some s' ∧ s'.Mirrors (done ++ [e]) := by
  cases e with
  | patch w k v => exact h.patch v hallows
  | _ => exact h.append (fun _ _ _ he => by cases he) hallows

/-- **A script**, edit by edit. -/
theorem run (h : s.Mirrors done) (horderly : Script.Orderly done script) :
    ∃ s', s.run script = some s' ∧ s'.Mirrors (done ++ script) := by
  induction script generalizing s done with
  | nil => exact ⟨s, rfl, by rwa [List.append_nil]⟩
  | cons e script ih =>
    obtain ⟨hallows, hlater⟩ := horderly
    obtain ⟨s₁, hs₁, h₁⟩ := h.apply hallows
    obtain ⟨s₂, hs₂, h₂⟩ := ih h₁ hlater
    refine ⟨s₂, ?_, ?_⟩
    · rw [Sheet.run, hs₁]
      exact hs₂
    · rwa [List.append_assoc] at h₂

/-- Every field shows its value. -/
theorem word?_eq (h : s.Mirrors done) {w : Width} {k : Nat} (hk : k < done.reserved w) :
    ∃ field, (s.fields w)[k]? = some field ∧
      s.buffer.word? w (w.position field) = some (done.value w k) := by
  obtain ⟨_, _, field, _, _, hfield, hplace, hshown⟩ := h.exists_field hk
  refine ⟨field, hfield, Buffer.word?_of_shows ?_⟩
  rw [hplace]
  exact Buffer.shows_of_toList hshown

end Mirrors

/-- **Filling fields in later is writing in order.**  A script that gives no field a value before it
    is reserved is carried out to its end.  The buffer then holds the bytes of the edits in their order,
    with the value of each field in its place, and reading a field gives its value. -/
theorem run_writes_in_order (script : Script) (h : Script.Orderly [] script) :
    ∃ s, empty.run script = some s ∧
      s.buffer.toList = Script.written script.value [] script ∧
      ∀ w k, k < script.reserved w → ∃ field, (s.fields w)[k]? = some field ∧
        s.buffer.word? w (w.position field) = some (script.value w k) := by
  obtain ⟨s, hs, hmirrors⟩ := mirrors_empty.run h
  rw [List.nil_append] at hmirrors
  exact ⟨s, hs, hmirrors.bytes, fun _ _ hk => hmirrors.word?_eq hk⟩

/-- Three fields that are filled in out of order, the second of them not at all. -/
def crossed : Script :=
  [.reserve .four, .byte 7, .reserve .two, .reserve .two, .patch .two 1 (5 : UInt16), .signed (-2),
   .patch .four 0 (0x01020304 : UInt32), .block [8, 9], .number .two (0xABCD : UInt16)]

/-- The fields show their values between the other bytes, and the second is zero. -/
theorem run_writes_in_order_crossed :
    Script.Orderly [] crossed ∧
    ∃ s, empty.run crossed = some s ∧
      s.buffer.toList = [1, 2, 3, 4, 7, 0, 0, 0, 5, 0xFF, 0xFE, 8, 9, 0xAB, 0xCD] ∧
      ∀ w k, k < Script.reserved w crossed → ∃ field, (s.fields w)[k]? = some field ∧
        s.buffer.word? w (w.position field) = some (crossed.value w k) := by
  have horderly : Script.Orderly [] crossed := by decide
  obtain ⟨s, hs, hbytes, hfields⟩ := run_writes_in_order crossed horderly
  exact ⟨horderly, s, hs, hbytes, hfields⟩

end Sheet

end Collation
