/-
  File:      Collation/Bytes/Buffer.lean
  Subject:   A buffer that grows at its end, with fields that are filled in later.

  Bytes are appended; an existing byte changes only when a field that was reserved as zero
  gets its value.  An access that reaches past the end has no answer (`none`) and changes
  nothing.

  * `Buffer.reserve16`, `Buffer.reserve32` -- append a zero field and say where it stands;
  * `Buffer.patch16`, `Buffer.patch32` -- give a reserved field its value;
  * `Reserved32.spanTo` -- how many bytes stand between a reserved field and a later position;
  * `Buffer.toList` -- the bytes so far; each appending operation has one equation about it.
-/
import Collation.Bytes.Word

namespace Collation

/-- The bytes written so far. -/
structure Buffer where
  bytes : Array UInt8
  deriving DecidableEq, Repr

/-- A two-byte field that was written as zero. -/
structure Reserved16 where
  position : Nat
  deriving DecidableEq, Repr

/-- A four-byte field that was written as zero. -/
structure Reserved32 where
  position : Nat
  deriving DecidableEq, Repr

/-- The number of bytes between the end of the field and the position `stop`;
    there is none when `stop` lies before the end of the field. -/
def Reserved32.spanTo (r : Reserved32) (stop : Nat) : Option Nat :=
  if r.position + 4 ≤ stop then some (stop - r.position - 4) else none

namespace Buffer

/-! ## 1. Appending -/

/-- No bytes. -/
def empty : Buffer := ⟨#[]⟩

/-- The position of the next byte, which is also the number of bytes written. -/
def position (b : Buffer) : Nat := b.bytes.size

/-- The bytes in order. -/
def toList (b : Buffer) : List UInt8 := b.bytes.toList

def putU8 (b : Buffer) (v : UInt8) : Buffer := ⟨b.bytes.push v⟩

/-- Appends a list of bytes. -/
def putBytes (b : Buffer) (vs : List UInt8) : Buffer := ⟨vs.foldl Array.push b.bytes⟩

def putU16 (b : Buffer) (v : UInt16) : Buffer := b.putBytes (Word.bytes16 v)

/-- Appends a signed word in two's complement. -/
def putI16 (b : Buffer) (v : Int16) : Buffer := b.putU16 v.toUInt16

def putU32 (b : Buffer) (v : UInt32) : Buffer := b.putBytes (Word.bytes32 v)

/-! ## 2. Changing and reading back -/

/-- Replaces the bytes from `p` on by others, as far as the buffer reaches. -/
def replace (b : Buffer) (p : Nat) : List UInt8 → Buffer
  | [] => b
  | v :: vs => replace ⟨b.bytes.setIfInBounds p v⟩ (p + 1) vs

/-- Replaces the bytes from `p` on; none when they are not all there. -/
def overwrite (b : Buffer) (p : Nat) (vs : List UInt8) : Option Buffer :=
  if p + vs.length ≤ b.position then some (b.replace p vs) else none

def overwrite16 (b : Buffer) (p : Nat) (v : UInt16) : Option Buffer :=
  b.overwrite p (Word.bytes16 v)

def overwrite32 (b : Buffer) (p : Nat) (v : UInt32) : Option Buffer :=
  b.overwrite p (Word.bytes32 v)

/-- The byte at `p`. -/
def get? (b : Buffer) (p : Nat) : Option UInt8 := b.bytes[p]?

/-- The 16-bit word at `p`. -/
def get16? (b : Buffer) (p : Nat) : Option UInt16 :=
  match b.bytes[p]?, b.bytes[p + 1]? with
  | some hi, some lo => some (Word.ofBytes16 hi lo)
  | _, _ => none

/-- The 32-bit word at `p`. -/
def get32? (b : Buffer) (p : Nat) : Option UInt32 :=
  match b.bytes[p]?, b.bytes[p + 1]?, b.bytes[p + 2]?, b.bytes[p + 3]? with
  | some a, some c, some d, some e => some (Word.ofBytes32 a c d e)
  | _, _, _, _ => none

/-! ## 3. Reserved fields -/

/-- Appends a two-byte field of zeros to be filled in later. -/
def reserve16 (b : Buffer) : Reserved16 × Buffer := (⟨b.position⟩, b.putU16 0)

/-- Appends a four-byte field of zeros to be filled in later. -/
def reserve32 (b : Buffer) : Reserved32 × Buffer := (⟨b.position⟩, b.putU32 0)

/-- Gives a reserved field its value. -/
def patch16 (b : Buffer) (r : Reserved16) (v : UInt16) : Option Buffer :=
  b.overwrite16 r.position v

/-- Gives a reserved field its value. -/
def patch32 (b : Buffer) (r : Reserved32) (v : UInt32) : Option Buffer :=
  b.overwrite32 r.position v

/-! ## 4. What appending does to the bytes -/

private theorem toList_foldl_push (vs : List UInt8) (a : Array UInt8) :
    (vs.foldl Array.push a).toList = a.toList ++ vs := by
  simp

@[simp] theorem length_toList (b : Buffer) : b.toList.length = b.position := by
  simp [toList, position]

@[simp] theorem toList_putU8 (b : Buffer) (v : UInt8) : (b.putU8 v).toList = b.toList ++ [v] := by
  simp [putU8, toList]

@[simp] theorem toList_putBytes (b : Buffer) (vs : List UInt8) :
    (b.putBytes vs).toList = b.toList ++ vs :=
  toList_foldl_push vs b.bytes

@[simp] theorem toList_putU16 (b : Buffer) (v : UInt16) :
    (b.putU16 v).toList = b.toList ++ Word.bytes16 v := by
  simp [putU16]

@[simp] theorem toList_putU32 (b : Buffer) (v : UInt32) :
    (b.putU32 v).toList = b.toList ++ Word.bytes32 v := by
  simp [putU32]

/-! ## 5. What replacing does to the bytes -/

@[simp] theorem position_replace (b : Buffer) (p : Nat) (vs : List UInt8) :
    (b.replace p vs).position = b.position := by
  induction vs generalizing b p with
  | nil => rfl
  | cons v vs ih => rw [replace, ih]; simp [position]

/-- **The bytes that are replaced lie between those that stay.** -/
theorem toList_replace (b : Buffer) (p : Nat) (vs : List UInt8) (h : p + vs.length ≤ b.position) :
    (b.replace p vs).toList = b.toList.take p ++ vs ++ b.toList.drop (p + vs.length) := by
  induction vs generalizing b p with
  | nil => simp [replace]
  | cons v vs ih =>
    have hp : p < b.bytes.toList.length := by simp [position] at h ⊢; omega
    have hlen : p + 1 + vs.length ≤ (⟨b.bytes.setIfInBounds p v⟩ : Buffer).position := by
      simp [position] at h ⊢; omega
    have hset : (⟨b.bytes.setIfInBounds p v⟩ : Buffer).toList =
        b.toList.take p ++ v :: b.toList.drop (p + 1) := by
      rw [toList, toList, Array.toList_setIfInBounds, List.set_eq_take_append_cons_drop, if_pos hp]
    have htake : (b.toList.take p).length = p := by simp [toList] at hp ⊢; omega
    have hlow : (b.toList.take p ++ v :: b.toList.drop (p + 1)).take (p + 1) =
        b.toList.take p ++ [v] := by
      rw [List.take_append, htake, List.take_of_length_le (by omega)]; simp
    have hhigh : (b.toList.take p ++ v :: b.toList.drop (p + 1)).drop (p + 1 + vs.length) =
        b.toList.drop (p + (v :: vs).length) := by
      have hdrop : p + 1 + vs.length - p = vs.length + 1 := by omega
      rw [List.drop_append, htake, List.drop_of_length_le (by omega), hdrop]
      simp [Nat.add_assoc, Nat.add_comm 1 vs.length]
    rw [replace, ih _ _ hlen, hset, hlow, hhigh]
    simp

end Buffer

end Collation
