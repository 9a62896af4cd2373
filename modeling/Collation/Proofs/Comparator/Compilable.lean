/-
  File:      Collation/Proofs/Comparator/Compilable.lean
  Subject:   The layouts for which a class can be generated, and how many there are.

  Whether a class can be generated for a layout depends on the layout, and on the name that the
  class would get: it has to fit into a constant.  The name counts the classes that were generated
  before.  A layout takes at least nineteen bytes of code for each key, so one that can be compiled
  has few keys; there are so few such layouts that the name for yet another one always fits.

  * `Layout.Compiles` -- the layout can be compiled;
  * `Generator.generates_iff` -- what is generated for;
  * `Layout.length_le_of_compiles` -- how many layouts can be compiled;
  * **`Generator.nameFits_className`** -- a name that counts such layouts fits.
-/
import Mathlib.Data.Finset.Card
import Mathlib.Data.Nat.Digits.Defs
import Collation.Proofs.Comparator.Agreement

namespace Collation

open Generator

/-! ## 1. Layouts that can be compiled -/

/-- The columns of the layout are in range, and the first jump of its code is within reach. -/
structure Layout.Compiles (layout : Layout) : Prop where
  columns : ∀ key ∈ layout.keys, key.column.toNat ≤ maxColumn
  reaches : Reaches (indices layout) layout.keys

namespace Generator

variable {g : Generator} {layout : Layout}

/-- The name of the class that is generated after `n` others. -/
def className (n : Nat) : String := (Generator.mk .empty n).nextName

/-- **A class is generated for a layout that can be compiled**, if its name fits. -/
theorem generates_iff : (∃ bytes, (g.generate layout).1 = .ok bytes) ↔
    layout.Compiles ∧ NameFits g.nextName := by
  constructor
  · rintro ⟨bytes, h⟩
    obtain ⟨hcolumns, hname, hreach, -⟩ := bytes_of_generate h
    exact ⟨⟨hcolumns, hreach⟩, hname⟩
  · rintro ⟨hcompiles, hname⟩
    exact ⟨_, generate_ok hcompiles.columns hname hcompiles.reaches⟩

/-- A class that was generated counts. -/
theorem generated_of_ok {bytes : List UInt8} (h : (g.generate layout).1 = .ok bytes) :
    (g.generate layout).2.generated = g.generated + 1 := by
  unfold generate at h ⊢
  split at h
  · cases h
  · split at h
    · rfl
    · cases h

/-- A failure does not count. -/
theorem generated_of_error {fault : GenerationFault} (h : (g.generate layout).1 = .error fault) :
    (g.generate layout).2.generated = g.generated := by
  unfold generate at h ⊢
  split at h
  · rfl
  · split at h
    · cases h
    · rfl

/-- What is assembled for a layout that can be compiled. -/
theorem assemble_of_compiles (h : layout.Compiles) (hname : NameFits g.nextName) :
    (g.assemble layout).1 = .ok (linkedClass g.nextName layout) ∧
      (g.assemble layout).2.generated = g.generated + 1 := by
  have hgenerate := generate_ok h.columns hname h.reaches
  have hload := load_classText h.columns hname h.reaches
  refine ⟨assemble_ok hgenerate hload, ?_⟩
  have hcount := generated_of_ok hgenerate
  unfold assemble
  generalize g.generate layout = generated at hgenerate hcount
  obtain ⟨answer, g'⟩ := generated
  obtain rfl : answer = .ok _ := hgenerate
  dsimp only
  rw [hload]
  exact hcount

/-- Nothing is assembled for any other layout, and nothing is counted. -/
theorem assemble_of_not_compiles (h : ¬ layout.Compiles) :
    (g.assemble layout).1.toOption = none ∧ (g.assemble layout).2.generated = g.generated := by
  cases hgenerate : (g.generate layout).1 with
  | ok bytes => exact absurd (generates_iff.mp ⟨bytes, hgenerate⟩).1 h
  | error fault =>
    have hcount := generated_of_error hgenerate
    unfold assemble
    generalize g.generate layout = generated at hgenerate hcount
    obtain ⟨answer, g'⟩ := generated
    obtain rfl : answer = .error fault := hgenerate
    exact ⟨rfl, hcount⟩

/-! ## 2. The number of keys -/

/-- Each key takes at least nineteen bytes. -/
theorem le_length_keysBytes (pool : Indices) (keys : List SortKey) :
    19 * keys.length ≤ (keysBytes pool keys).length := by
  induction keys with
  | nil => exact Nat.zero_le _
  | cons key rest ih =>
    have hkey := (keySize_bounds key).1
    cases rest with
    | nil =>
      rw [keysBytes_single, length_keyCode]
      exact hkey
    | cons next rest =>
      rw [keysBytes_cons]
      simp only [List.length_append, List.length_cons, length_keyCode] at ih ⊢
      omega

end Generator

/-- No layout that is compiled has more keys than this. -/
def Layout.mostKeys : Nat := 1726

theorem Layout.Compiles.length_le {layout : Layout} (h : layout.Compiles) :
    layout.keys.length ≤ mostKeys := by
  have hbytes := length_keysBytes_lt h.reaches
  have hkeys := le_length_keysBytes (indices layout) layout.keys
  have hmost : mostKeys = 1726 := rfl
  omega

/-! ## 3. The number of layouts -/

/-- A key as a digit, which is not zero. -/
def SortKey.digit (key : SortKey) : Nat :=
  (ColumnKind.all.idxOf key.kind * 2 + key.descending.toNat) * 65536 + key.column.toNat + 1

/-- All digits are less than this power of ten. -/
def SortKey.digits : Nat := 10 ^ 6

theorem SortKey.digit_lt (key : SortKey) : key.digit < digits := by
  have hcolumn := key.column.toNat_lt
  have hkind : ColumnKind.all.idxOf key.kind < 3 := by cases key.kind <;> decide
  have hdescending := Bool.toNat_le key.descending
  have hdigits : digits = 1000000 := by decide
  unfold digit
  omega

theorem SortKey.digit_injective : Function.Injective SortKey.digit := by
  rintro ⟨kind, column, descending⟩ ⟨kind', column', descending'⟩ h
  have hbound := column.toNat_lt
  have hbound' := column'.toNat_lt
  have hdescending := Bool.toNat_le descending
  have hdescending' := Bool.toNat_le descending'
  unfold digit at h
  dsimp only at h
  obtain rfl : column = column' := UInt16.toNat_inj.mp (by omega)
  have hdirection : descending.toNat = descending'.toNat := by omega
  obtain rfl : descending = descending' := by
    cases descending <;> cases descending' <;> simp_all
  have hkind : ColumnKind.all.idxOf kind = ColumnKind.all.idxOf kind' := by omega
  have hall : ∀ k, k ∈ ColumnKind.all := by
    intro k
    cases k <;> decide
  rw [(List.idxOf_inj (hall kind)).mp hkind]

/-- A layout as a number, with its keys as digits. -/
def Layout.number (layout : Layout) : Nat :=
  Nat.ofDigits SortKey.digits (layout.keys.map SortKey.digit)

namespace Layout

theorem digit_lt_of_mem {layout : Layout} : ∀ d ∈ layout.keys.map SortKey.digit, d < SortKey.digits := by
  intro d hd
  obtain ⟨key, -, rfl⟩ := List.mem_map.mp hd
  exact key.digit_lt

/-- No digit is zero, so the keys can be read off the number. -/
theorem digits_number (layout : Layout) :
    Nat.digits SortKey.digits layout.number = layout.keys.map SortKey.digit := by
  refine Nat.digits_ofDigits _ (by decide) _ digit_lt_of_mem ?_
  intro hne
  obtain ⟨key, -, hkey⟩ := List.mem_map.mp (List.getLast_mem hne)
  rw [← hkey]
  exact Nat.succ_ne_zero _

theorem number_injective : Function.Injective number := by
  rintro ⟨keys⟩ ⟨keys'⟩ h
  have hdigits := congrArg (Nat.digits SortKey.digits) h
  rw [digits_number, digits_number] at hdigits
  rw [show keys = keys' from List.map_injective_iff.mpr SortKey.digit_injective hdigits]

theorem Compiles.number_lt {layout : Layout} (h : layout.Compiles) :
    layout.number < SortKey.digits ^ mostKeys := by
  have hnumber : layout.number < SortKey.digits ^ (layout.keys.map SortKey.digit).length :=
    Nat.ofDigits_lt_base_pow_length (by decide) digit_lt_of_mem
  rw [List.length_map] at hnumber
  exact hnumber.trans_le (Nat.pow_le_pow_right (by decide) h.length_le)

/-- **How many layouts can be compiled**, at the most. -/
theorem length_le_of_compiles {layouts : List Layout} (hdistinct : layouts.Nodup)
    (h : ∀ layout ∈ layouts, layout.Compiles) : layouts.length ≤ SortKey.digits ^ mostKeys := by
  have hnodup : (layouts.map number).Nodup := hdistinct.map number_injective
  have hrange : (layouts.map number).toFinset ⊆ Finset.range (SortKey.digits ^ mostKeys) := by
    intro n hn
    obtain ⟨layout, hlayout, rfl⟩ := List.mem_map.mp (List.mem_toFinset.mp hn)
    exact Finset.mem_range.mpr (h layout hlayout).number_lt
  have hcard := Finset.card_le_card hrange
  rwa [Finset.card_range, List.toFinset_card_of_nodup hnodup, List.length_map] at hcard

end Layout

/-! ## 4. Names -/

namespace Generator

/-- **The name for yet another layout fits.** -/
theorem nameFits_className {n : Nat} (h : n ≤ SortKey.digits ^ Layout.mostKeys) :
    NameFits (className n) := by
  have hlength : n.repr.length ≤ 6 * Layout.mostKeys + 1 := by
    refine (Nat.length_repr_le_iff (Nat.succ_pos _)).mpr (h.trans_lt ?_)
    rw [SortKey.digits, ← pow_mul]
    exact Nat.pow_lt_pow_right (by decide) (Nat.lt_succ_self _)
  have hname : (className n).length = 33 + n.repr.length := String.length_append _ _
  have hbytes := ModifiedUtf8.length_encode_le (className n)
  have hmost : Layout.mostKeys = 1726 := rfl
  unfold NameFits
  omega

theorem className_injective : Function.Injective className := by
  intro m n h
  have hrepr : m.repr = n.repr := (String.append_right_inj _).mp h
  have hdigits := congrArg String.toList hrepr
  rw [Nat.toList_repr, Nat.toList_repr] at hdigits
  rw [← Nat.ofDigitChars_ten_toDigits (n := m), hdigits, Nat.ofDigitChars_ten_toDigits]

end Generator

end Collation
