/-
  File:      Collation/Proofs/Text/ModifiedUtf8.lean
  Subject:   Reading the bytes of a text gives the text.

  The two halves of the encoding are undone one after the other: bytes to units, units to
  characters.  Each half is stated with what follows, and with what was read before.

  * `ModifiedUtf8.unitsOnto_unitBytes` -- the bytes of one unit;
  * `ModifiedUtf8.charsOnto_units` -- the units of one character;
  * **`ModifiedUtf8.decode_encode`** -- a whole text;
  * `ModifiedUtf8.length_encode_le` -- how many bytes a text takes at the most.
-/
import Collation.Text.ModifiedUtf8

namespace Collation.ModifiedUtf8

/-! ## 1. Units -/

/-- A unit is read back from its bytes, whatever follows. -/
theorem unitsOnto_unitBytes {u : Nat} (h : u < 0x10000) (acc : List Nat) (rest : List UInt8) :
    unitsOnto acc (unitBytes u ++ rest) = unitsOnto (u :: acc) rest := by
  unfold unitBytes
  split
  · rename_i hu
    have ha : (UInt8.ofNat u).toNat = u := by rw [UInt8.toNat_ofNat']; omega
    rw [List.cons_append, List.nil_append, unitsOnto.eq_def]
    dsimp only
    rw [if_pos (by omega), ha]
  · rename_i hlow
    split
    · rename_i hu
      have ha : (UInt8.ofNat (0xC0 + u / 64)).toNat = 0xC0 + u / 64 := by
        rw [UInt8.toNat_ofNat']; omega
      have hb : (UInt8.ofNat (0x80 + u % 64)).toNat = 0x80 + u % 64 := by
        rw [UInt8.toNat_ofNat']; omega
      have hval : (0xC0 + u / 64) % 32 * 64 + (0x80 + u % 64) % 64 = u := by omega
      rw [List.cons_append, List.cons_append, List.nil_append, unitsOnto, if_neg (by omega),
        if_pos (by omega), ha, hb, hval]
    · rename_i hu
      have ha : (UInt8.ofNat (0xE0 + u / 4096)).toNat = 0xE0 + u / 4096 := by
        rw [UInt8.toNat_ofNat']; omega
      have hb : (UInt8.ofNat (0x80 + u / 64 % 64)).toNat = 0x80 + u / 64 % 64 := by
        rw [UInt8.toNat_ofNat']; omega
      have hc : (UInt8.ofNat (0x80 + u % 64)).toNat = 0x80 + u % 64 := by
        rw [UInt8.toNat_ofNat']; omega
      have hval : (0xE0 + u / 4096) % 16 * 4096 + (0x80 + u / 64 % 64) % 64 * 64 +
          (0x80 + u % 64) % 64 = u := by omega
      rw [List.cons_append, List.cons_append, List.cons_append, List.nil_append, unitsOnto,
        if_neg (by omega), if_neg (by omega), if_pos (by omega)]
      dsimp only
      rw [ha, hb, hc, hval]

/-- All units of a list are read back, into the accumulator in reverse. -/
theorem unitsOnto_flatMap : ∀ {us : List Nat}, (∀ u ∈ us, u < 0x10000) → ∀ acc : List Nat,
    unitsOnto acc (us.flatMap unitBytes) = some (us.reverse ++ acc)
  | [], _, acc => by simp [unitsOnto]
  | u :: us, h, acc => by
    have hu : u < 0x10000 := h u List.mem_cons_self
    have hus : ∀ v ∈ us, v < 0x10000 := fun v hv => h v (List.mem_cons_of_mem _ hv)
    rw [List.flatMap_cons, unitsOnto_unitBytes hu, unitsOnto_flatMap hus]
    simp

/-! ## 2. Characters -/

theorem toNat_lt (c : Char) : c.toNat < 0x110000 := by
  rcases c.valid with h | h <;> simp only [Char.toNat, UInt32.toNat] at * <;> omega

/-- No character is a surrogate. -/
theorem not_surrogate (c : Char) : isHigh c.toNat = false ∧ isLow c.toNat = false := by
  have h := c.valid
  simp only [isHigh, isLow, Bool.and_eq_false_iff, decide_eq_false_iff_not]
  simp only [UInt32.isValidChar, Nat.isValidChar, Char.toNat] at *
  omega

theorem lt_of_mem_units {c : Char} {u : Nat} (h : u ∈ units c) : u < 0x10000 := by
  have hc := toNat_lt c
  unfold units at h
  split at h <;> simp at h <;> omega

/-- A character is read back from its units, whatever follows. -/
theorem charsOnto_units (c : Char) (acc : List Char) (rest : List Nat) :
    charsOnto acc (units c ++ rest) = charsOnto (c :: acc) rest := by
  have hc := toNat_lt c
  have hs := not_surrogate c
  unfold units
  split
  · cases rest with
    | nil => simp [charsOnto, hs, Char.ofNat_toNat]
    | cons v rest => simp [charsOnto, hs, Char.ofNat_toNat]
  · rename_i hwide
    have hhigh : isHigh (0xD800 + (c.toNat - 0x10000) / 0x400) = true := by
      simp only [isHigh, Bool.and_eq_true, decide_eq_true_eq]; omega
    have hlow : isLow (0xDC00 + (c.toNat - 0x10000) % 0x400) = true := by
      simp only [isLow, Bool.and_eq_true, decide_eq_true_eq]; omega
    have hval : 0x10000 + (0xD800 + (c.toNat - 0x10000) / 0x400 - 0xD800) * 0x400 +
        (0xDC00 + (c.toNat - 0x10000) % 0x400 - 0xDC00) = c.toNat := by omega
    rw [List.cons_append, List.cons_append, List.nil_append, charsOnto, if_pos hhigh, if_pos hlow,
      hval, Char.ofNat_toNat]

theorem charsOnto_flatMap (cs acc : List Char) :
    charsOnto acc (cs.flatMap units) = some (cs.reverse ++ acc) := by
  induction cs generalizing acc with
  | nil => simp [charsOnto]
  | cons c cs ih =>
    rw [List.flatMap_cons, charsOnto_units, ih]
    simp

/-! ## 3. Texts -/

/-- **Reading the bytes of a text gives the text.** -/
theorem decode_encode (s : String) : decode (encode s) = some s := by
  have hunits : ∀ u ∈ s.toList.flatMap units, u < 0x10000 := by
    intro u hu
    obtain ⟨c, _, hc⟩ := List.mem_flatMap.mp hu
    exact lt_of_mem_units hc
  have hbytes := unitsOnto_flatMap hunits []
  have hchars : chars (s.toList.flatMap units) = some s.toList := by
    rw [chars, charsOnto_flatMap]
    simp
  simp only [decode, encode, hbytes, List.append_nil, List.reverse_reverse, hchars,
    Option.bind_eq_bind, Option.bind_some, Option.pure_def, String.ofList_toList]

theorem length_unitBytes_le (u : Nat) : (unitBytes u).length ≤ 3 := by
  unfold unitBytes
  split
  · exact Nat.le_of_ble_eq_true rfl
  · split <;> exact Nat.le_of_ble_eq_true rfl

theorem length_units_le (c : Char) : ((units c).flatMap unitBytes).length ≤ 6 := by
  unfold units
  split
  · have hunit := length_unitBytes_le c.toNat
    simp only [List.flatMap_cons, List.flatMap_nil, List.append_nil]
    omega
  · simp only [List.flatMap_cons, List.flatMap_nil, List.append_nil, List.length_append]
    exact Nat.add_le_add (length_unitBytes_le _) (length_unitBytes_le _)

/-- A character takes six bytes at the most. -/
theorem length_encode_le (s : String) : (encode s).length ≤ 6 * s.length := by
  have hchars : ∀ cs : List Char, ((cs.flatMap units).flatMap unitBytes).length ≤ 6 * cs.length := by
    intro cs
    induction cs with
    | nil => exact Nat.zero_le _
    | cons c cs ih =>
      have hc := length_units_le c
      simp only [List.flatMap_cons, List.flatMap_append, List.length_append, List.length_cons] at ih ⊢
      omega
  exact hchars s.toList

end Collation.ModifiedUtf8
