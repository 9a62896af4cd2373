/-
  File:      Collation/Proofs/Text/Canonical.lean
  Subject:   Which bytes are read as a text, and which of them are the bytes of a text.

  The writer gives each unit one form.  The reader takes more: a lead byte decides how many bytes
  follow, and nothing is asked of these, nor is a form refused that is longer than the unit needs.  So
  the reader undoes the writer, and the writer undoes the reader only on forms that the writer uses.

  * `ModifiedUtf8.Form`, `ModifiedUtf8.Canonical` -- the forms that the writer uses, by ranges of bytes;
  * `ModifiedUtf8.ReadAs` -- the bytes that the reader takes for a unit;
  * **`ModifiedUtf8.encode_lossless`** -- a text is read back from its bytes, and which bytes these are;
  * **`ModifiedUtf8.decode_accepts_iff`** -- what is read as a text, and when it is the bytes of that text;
  * `ModifiedUtf8.decode_truncated` -- bytes that break off in the middle of a unit and are read.
-/
import Collation.Proofs.Text.ModifiedUtf8
import Mathlib.Data.List.Forall2

namespace Collation.ModifiedUtf8

/-! ## 1. The forms of the writer -/

/-- A byte that goes on with what a lead byte began. -/
def Follows (b : UInt8) : Prop := 0x80 ≤ b.toNat ∧ b.toNat < 0xC0

/-- The forms of units: as short as the unit allows, but for zero, which takes two bytes. -/
inductive Form : List UInt8 → Prop where
  | one {a : UInt8} (ha : 0x01 ≤ a.toNat ∧ a.toNat < 0x80) : Form [a]
  | zero : Form [0xC0, 0x80]
  | two {a b : UInt8} (ha : 0xC2 ≤ a.toNat ∧ a.toNat < 0xE0) (hb : Follows b) : Form [a, b]
  | threeLow {b c : UInt8} (hb : 0xA0 ≤ b.toNat ∧ b.toNat < 0xC0) (hc : Follows c) :
      Form [0xE0, b, c]
  | three {a b c : UInt8} (ha : 0xE1 ≤ a.toNat ∧ a.toNat < 0xF0) (hb : Follows b) (hc : Follows c) :
      Form [a, b, c]

/-- Forms, one after another. -/
inductive Canonical : List UInt8 → Prop where
  | nil : Canonical []
  | cons {form rest : List UInt8} (hform : Form form) (hrest : Canonical rest) :
      Canonical (form ++ rest)

theorem toNat_ofNat_of_lt {n : Nat} (h : n < 0x100) : (UInt8.ofNat n).toNat = n := by
  rw [UInt8.toNat_ofNat']
  exact Nat.mod_eq_of_lt h

theorem ofNat_eq_of_toNat {a : UInt8} {n : Nat} (h : n = a.toNat) : UInt8.ofNat n = a := by
  rw [h, UInt8.ofNat_toNat]

theorem form_unitBytes {u : Nat} (h : u < 0x10000) : Form (unitBytes u) := by
  have hfollows : ∀ n : Nat, Follows (UInt8.ofNat (0x80 + n % 64)) := by
    intro n
    rw [Follows, toNat_ofNat_of_lt (by omega)]
    omega
  unfold unitBytes
  split
  · exact .one (by rw [toNat_ofNat_of_lt (by omega)]; omega)
  · split
    · by_cases hzero : u = 0
      · subst hzero
        exact .zero
      · exact .two (by rw [toNat_ofNat_of_lt (by omega)]; omega) (hfollows u)
    · by_cases hlow : u < 0x1000
      · have hlead : 0xE0 + u / 4096 = 0xE0 := by omega
        rw [hlead]
        exact .threeLow (by rw [toNat_ofNat_of_lt (by omega)]; omega) (hfollows u)
      · exact .three (by rw [toNat_ofNat_of_lt (by omega)]; omega) (hfollows (u / 64)) (hfollows u)

/-- Three bytes are the form of a unit if two would be too few for it. -/
theorem exists_of_three {a b c : UInt8} (ha : 0xE0 ≤ a.toNat ∧ a.toNat < 0xF0) (hb : Follows b)
    (hc : Follows c) (hlong : 0xE1 ≤ a.toNat ∨ 0xA0 ≤ b.toNat) :
    ∃ u < 0x10000, unitBytes u = [a, b, c] := by
  obtain ⟨hb, hb'⟩ := hb
  obtain ⟨hc, hc'⟩ := hc
  obtain ⟨u, hu⟩ : ∃ u, u = (a.toNat - 0xE0) * 4096 + (b.toNat - 0x80) * 64 + (c.toNat - 0x80) :=
    ⟨_, rfl⟩
  have hfirst : UInt8.ofNat (0xE0 + u / 4096) = a := ofNat_eq_of_toNat (by omega)
  have hmiddle : UInt8.ofNat (0x80 + u / 64 % 64) = b := ofNat_eq_of_toNat (by omega)
  have hlast : UInt8.ofNat (0x80 + u % 64) = c := ofNat_eq_of_toNat (by omega)
  refine ⟨u, by omega, ?_⟩
  rw [unitBytes, if_neg (by omega), if_neg (by omega), hfirst, hmiddle, hlast]

/-- **A form is the form of a unit.** -/
theorem exists_of_form {form : List UInt8} (h : Form form) : ∃ u < 0x10000, unitBytes u = form := by
  cases h with
  | @one a ha =>
    refine ⟨a.toNat, by omega, ?_⟩
    rw [unitBytes, if_pos (by omega), UInt8.ofNat_toNat]
  | zero => exact ⟨0, by omega, rfl⟩
  | @two a b ha hb =>
    obtain ⟨hb, hb'⟩ := hb
    obtain ⟨u, hu⟩ : ∃ u, u = (a.toNat - 0xC0) * 64 + (b.toNat - 0x80) := ⟨_, rfl⟩
    have hfirst : UInt8.ofNat (0xC0 + u / 64) = a := ofNat_eq_of_toNat (by omega)
    have hlast : UInt8.ofNat (0x80 + u % 64) = b := ofNat_eq_of_toNat (by omega)
    refine ⟨u, by omega, ?_⟩
    rw [unitBytes, if_neg (by omega), if_pos (by omega), hfirst, hlast]
  | threeLow hb hc => exact exists_of_three (by decide) ⟨by omega, hb.2⟩ hc (.inr hb.1)
  | three ha hb hc => exact exists_of_three ⟨by omega, ha.2⟩ hb hc (.inl ha.1)

theorem canonical_flatMap : ∀ {us : List Nat}, (∀ u ∈ us, u < 0x10000) →
    Canonical (us.flatMap unitBytes)
  | [], _ => .nil
  | u :: us, h => by
    rw [List.flatMap_cons]
    exact .cons (form_unitBytes (h u List.mem_cons_self))
      (canonical_flatMap fun v hv => h v (List.mem_cons_of_mem _ hv))

/-- **Canonical bytes are the bytes of some units.** -/
theorem exists_of_canonical {bs : List UInt8} (h : Canonical bs) :
    ∃ us : List Nat, (∀ u ∈ us, u < 0x10000) ∧ us.flatMap unitBytes = bs := by
  induction h with
  | nil => exact ⟨[], by simp, rfl⟩
  | cons hform _ ih =>
    obtain ⟨u, hu, rfl⟩ := exists_of_form hform
    obtain ⟨us, hus, rfl⟩ := ih
    exact ⟨u :: us, by simpa using ⟨hu, hus⟩, rfl⟩

theorem Form.bytes {form : List UInt8} (h : Form form) : ∀ b ∈ form, b ≠ 0 ∧ b < 0xF0 := by
  -- every byte of a form is a low one, a lead byte or one that follows
  have hlow : ∀ {b : UInt8}, 0x01 ≤ b.toNat ∧ b.toNat < 0xF0 → b ≠ 0 ∧ b < 0xF0 := by
    rintro b ⟨hpos, hlt⟩
    refine ⟨?_, UInt8.lt_iff_toNat_lt.mpr hlt⟩
    rintro rfl
    exact absurd hpos (by decide)
  have hfollows : ∀ {b : UInt8}, Follows b → b ≠ 0 ∧ b < 0xF0 := by
    rintro b ⟨hge, hlt⟩
    exact hlow (by omega)
  cases h with
  | one ha => simpa using hlow (by omega)
  | zero =>
    intro b hb
    rcases List.mem_pair.mp hb with rfl | rfl
    · exact hlow (by decide)
    · exact hlow (by decide)
  | two ha hb => simpa using ⟨hlow (by omega), hfollows hb⟩
  | threeLow hb hc => simpa using ⟨hlow (by omega), hfollows hc⟩
  | three ha hb hc => simpa using ⟨hlow (by omega), hfollows hb, hfollows hc⟩

theorem Canonical.bytes {bs : List UInt8} (h : Canonical bs) : ∀ b ∈ bs, b ≠ 0 ∧ b < 0xF0 := by
  induction h with
  | nil => simp
  | cons hform _ ih =>
    intro b hb
    rcases List.mem_append.mp hb with hb | hb
    · exact hform.bytes b hb
    · exact ih b hb

theorem unit_lt {cs : List Char} {u : Nat} (h : u ∈ cs.flatMap units) : u < 0x10000 := by
  obtain ⟨c, _, hc⟩ := List.mem_flatMap.mp h
  exact lt_of_mem_units hc

theorem canonical_encode (s : String) : Canonical (encode s) := canonical_flatMap fun _ => unit_lt

/-! ## 2. Writing and reading back -/

/-- **A text is read back from its bytes**, whatever characters it has; and among these bytes is
    neither zero nor one of the sixteen highest. -/
theorem encode_lossless (s : String) :
    decode (encode s) = some s ∧ ∀ b ∈ encode s, b ≠ 0 ∧ ¬ (0xF0 ≤ b ∧ b ≤ 0xFF) := by
  refine ⟨decode_encode s, fun b hb => ?_⟩
  obtain ⟨hzero, hlt⟩ := (canonical_encode s).bytes b hb
  exact ⟨hzero, fun h => absurd (UInt8.lt_of_lt_of_le hlt h.1) (UInt8.lt_irrefl b)⟩

/-! ## 3. The forms of the reader -/

/-- What the reader takes for a unit.  Of a byte that follows, only the low six bits count. -/
inductive ReadAs : List UInt8 → Nat → Prop where
  | one {a : UInt8} (ha : 0x01 ≤ a.toNat ∧ a.toNat < 0x80) : ReadAs [a] a.toNat
  | two {a : UInt8} (ha : 0xC0 ≤ a.toNat ∧ a.toNat < 0xE0) (b : UInt8) :
      ReadAs [a, b] (a.toNat % 32 * 64 + b.toNat % 64)
  | three {a : UInt8} (ha : 0xE0 ≤ a.toNat ∧ a.toNat < 0xF0) (b c : UInt8) :
      ReadAs [a, b, c] (a.toNat % 16 * 4096 + b.toNat % 64 * 64 + c.toNat % 64)

theorem ReadAs.lt {form : List UInt8} {u : Nat} (h : ReadAs form u) : u < 0x10000 := by
  cases h <;> omega

theorem lt_of_forall₂_readAs {forms : List (List UInt8)} {us : List Nat}
    (h : List.Forall₂ ReadAs forms us) : ∀ u ∈ us, u < 0x10000 := by
  induction h with
  | nil => simp
  | cons hform _ ih => simpa using ⟨hform.lt, ih⟩

theorem unitsOnto_of_readAs {form : List UInt8} {u : Nat} (h : ReadAs form u) (acc : List Nat)
    (rest : List UInt8) : unitsOnto acc (form ++ rest) = unitsOnto (u :: acc) rest := by
  cases h with
  | one ha =>
    rw [List.cons_append, unitsOnto.eq_def]
    exact if_pos ha
  | two ha b =>
    rw [List.cons_append, List.cons_append, unitsOnto, if_neg (by omega), if_pos ha]
    rfl
  | three ha b c =>
    rw [List.cons_append, List.cons_append, unitsOnto, if_neg (by omega), if_neg (by omega), if_pos ha]
    rfl

/-- **Bytes are read as units** exactly if they are forms of these units, one after another. -/
theorem unitsOnto_eq_some_iff {acc us : List Nat} {bs : List UInt8} :
    unitsOnto acc bs = some us ↔
      ∃ forms new, forms.flatten = bs ∧ List.Forall₂ ReadAs forms new ∧ us = new.reverse ++ acc := by
  constructor
  · intro h
    have hstep : ∀ {acc : List Nat} {form rest : List UInt8} {u : Nat}, ReadAs form u →
        (∃ forms new, forms.flatten = rest ∧ List.Forall₂ ReadAs forms new ∧
          us = new.reverse ++ u :: acc) →
        ∃ forms new, forms.flatten = form ++ rest ∧ List.Forall₂ ReadAs forms new ∧
          us = new.reverse ++ acc := by
      rintro acc form rest u hform ⟨forms, new, rfl, hforms, rfl⟩
      exact ⟨form :: forms, u :: new, rfl, .cons hform hforms, by simp⟩
    fun_induction unitsOnto acc bs with
    | case1 acc =>
      cases h
      exact ⟨[], [], rfl, .nil, rfl⟩
    | case2 acc a rest ha ih => exact hstep (.one ha) (ih h)
    | case3 acc a hlow ha b rest ih => exact hstep (.two ha b) (ih h)
    | case4 => cases h
    | case5 acc a hlow htwo ha b c rest ih => exact hstep (.three ha b c) (ih h)
    | case6 => cases h
    | case7 => cases h
  · rintro ⟨forms, new, rfl, hforms, rfl⟩
    induction hforms generalizing acc with
    | nil => rfl
    | cons hform _ ih =>
      rw [List.flatten_cons, unitsOnto_of_readAs hform, ih]
      simp

/-! ## 4. The characters of units -/

theorem toNat_ofNat_of_not_surrogate {u : Nat} (h : u < 0x110000) (hhigh : isHigh u = false)
    (hlow : isLow u = false) : (Char.ofNat u).toNat = u := by
  have hvalid : u.isValidChar := by
    simp only [isHigh, isLow, Bool.and_eq_false_iff, decide_eq_false_iff_not] at hhigh hlow
    simp only [Nat.isValidChar]
    omega
  rw [Char.ofNat, dif_pos hvalid]
  rfl

theorem units_ofNat {u : Nat} (h : u < 0x10000) (hhigh : isHigh u = false) (hlow : isLow u = false) :
    units (Char.ofNat u) = [u] := by
  rw [units, toNat_ofNat_of_not_surrogate (by omega) hhigh hlow, if_pos h]

theorem units_pair {u v : Nat} (hu : isHigh u = true) (hv : isLow v = true) :
    units (Char.ofNat (0x10000 + (u - 0xD800) * 0x400 + (v - 0xDC00))) = [u, v] := by
  simp only [isHigh, isLow, Bool.and_eq_true, decide_eq_true_eq] at hu hv
  obtain ⟨n, hn⟩ : ∃ n, n = 0x10000 + (u - 0xD800) * 0x400 + (v - 0xDC00) := ⟨_, rfl⟩
  have hchar : (Char.ofNat n).toNat = n :=
    toNat_ofNat_of_not_surrogate (by omega) (by simp [isHigh]; omega) (by simp [isLow]; omega)
  have hfirst : 0xD800 + (n - 0x10000) / 0x400 = u := by omega
  have hlast : 0xDC00 + (n - 0x10000) % 0x400 = v := by omega
  rw [← hn, units, hchar, if_neg (by omega), hfirst, hlast]

/-- **What units are read as has these units.** -/
theorem exists_of_charsOnto {acc cs : List Char} {us : List Nat} (hus : ∀ u ∈ us, u < 0x10000)
    (h : charsOnto acc us = some cs) :
    ∃ new : List Char, new.flatMap units = us ∧ cs = new.reverse ++ acc := by
  fun_induction charsOnto acc us with
  | case1 acc =>
    cases h
    exact ⟨[], rfl, rfl⟩
  | case2 => cases h
  | case3 acc u hnone =>
    cases h
    rw [Bool.or_eq_true, not_or, Bool.not_eq_true, Bool.not_eq_true] at hnone
    refine ⟨[Char.ofNat u], ?_, rfl⟩
    simpa using units_ofNat (hus u List.mem_cons_self) hnone.1 hnone.2
  | case4 acc u v rest hhigh hlow ih =>
    obtain ⟨new, hnew, rfl⟩ := ih (fun w hw => hus w (by simp [hw])) h
    exact ⟨_ :: new, by rw [List.flatMap_cons, units_pair hhigh hlow, hnew]; rfl, by simp⟩
  | case5 => cases h
  | case6 => cases h
  | case7 acc u v rest hhigh hlow ih =>
    obtain ⟨new, hnew, rfl⟩ := ih (fun w hw => hus w (List.mem_cons_of_mem u hw)) h
    have hunit : units (Char.ofNat u) = [u] :=
      units_ofNat (hus u List.mem_cons_self) (by simpa using hhigh) (by simpa using hlow)
    exact ⟨_ :: new, by rw [List.flatMap_cons, hunit, hnew]; rfl, by simp⟩

theorem chars_eq_some_iff {us : List Nat} (hus : ∀ u ∈ us, u < 0x10000) {cs : List Char} :
    chars us = some cs ↔ cs.flatMap units = us := by
  unfold chars
  constructor
  · intro h
    obtain ⟨back, hback, rfl⟩ := Option.map_eq_some_iff.mp h
    obtain ⟨new, hnew, rfl⟩ := exists_of_charsOnto hus hback
    simpa using hnew
  · rintro rfl
    rw [charsOnto_flatMap]
    simp

/-! ## 5. Texts -/

theorem decode_eq_some_iff {bs : List UInt8} {s : String} :
    decode bs = some s ↔
      ∃ forms, forms.flatten = bs ∧ List.Forall₂ ReadAs forms (s.toList.flatMap units) := by
  constructor
  · intro h
    obtain ⟨back, hback, h⟩ := Option.bind_eq_some_iff.mp h
    obtain ⟨cs, hcs, h⟩ := Option.bind_eq_some_iff.mp h
    cases h
    obtain ⟨forms, us, hbs, hforms, rfl⟩ := unitsOnto_eq_some_iff.mp hback
    rw [List.append_nil, List.reverse_reverse, chars_eq_some_iff (lt_of_forall₂_readAs hforms)] at hcs
    exact ⟨forms, hbs, by rwa [String.toList_ofList, hcs]⟩
  · rintro ⟨forms, hbs, hforms⟩
    have hunits : unitsOnto [] bs = some ((s.toList.flatMap units).reverse ++ []) :=
      unitsOnto_eq_some_iff.mpr ⟨forms, _, hbs, hforms, rfl⟩
    have hchars := (chars_eq_some_iff (lt_of_forall₂_readAs hforms)).mpr rfl
    simp [decode, hunits, hchars]

/-- **What is read as a text, and when it is the bytes of that text.**  Bytes are read as a text exactly
    if they are forms of its units, in the wide sense of the reader; and they are the bytes that are
    written for it exactly if, beyond that, each form is one that the writer uses. -/
theorem decode_accepts_iff (bs : List UInt8) (s : String) :
    (decode bs = some s ↔
      ∃ forms, forms.flatten = bs ∧ List.Forall₂ ReadAs forms (s.toList.flatMap units)) ∧
    (encode s = bs ↔ decode bs = some s ∧ Canonical bs) := by
  refine ⟨decode_eq_some_iff, ?_, ?_⟩
  · rintro rfl
    exact ⟨decode_encode s, canonical_encode s⟩
  · rintro ⟨hdecode, hcanonical⟩
    obtain ⟨us, hus, rfl⟩ := exists_of_canonical hcanonical
    -- the units of canonical bytes are the ones that were written, so no other text has them
    have hunits := unitsOnto_flatMap hus []
    simp only [decode, hunits, List.append_nil, List.reverse_reverse, Option.bind_eq_bind,
      Option.bind_some, Option.pure_def] at hdecode
    obtain ⟨cs, hcs, h⟩ := Option.bind_eq_some_iff.mp hdecode
    cases h
    rw [encode, String.toList_ofList, (chars_eq_some_iff hus).mp hcs]

/-- **Bytes that break off and are read all the same**: a lead byte stands before a letter, which is
    taken for the byte that has to follow.  Other bytes are written for the text, and they are read as
    the same text. -/
theorem decode_truncated :
    decode [0xC3, 0x41] = some "Á" ∧ encode "Á" = [0xC3, 0x81] ∧ decode [0xC3, 0x81] = some "Á" := by
  decide

end Collation.ModifiedUtf8
