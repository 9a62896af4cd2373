/-
  File:      Collation/Proofs/Layout.lean
  Subject:   Layouts survive being written.

  A written layout is a list of words: commas stand between the keys, colons between the words of a
  key.  The words themselves are letters and digits, so cutting at commas and then at colons finds
  them again, and no blank is there to be dropped.  A text may be written otherwise than the layout
  that it describes (blanks, a plus sign, leading zeros, the direction `asc`), but then that layout
  can be written, too.

  * `Text.splitOn_eq` -- cutting at a character is the library's `List.splitOn`;
  * `SortKey.words` -- what a written key consists of;
  * `SortKey.ofChars_render`, `SortKey.le_of_ofChars` -- one key;
  * **`Layout.written_form_read`** -- layouts.
-/
import Collation.Layout

namespace Collation

/-! ## 1. Pieces and blanks -/

namespace Text

theorem splitOn_eq (sep : Char) (cs : List Char) : splitOn sep cs = cs.splitOn sep := by
  induction cs with
  | nil => rfl
  | cons c cs ih =>
    have hcons : splitOn sep (c :: cs) =
        if c = sep then [] :: splitOn sep cs else consPiece c (splitOn sep cs) := rfl
    rw [hcons, List.splitOn_cons_eq_if_modifyHead, ih]
    obtain ⟨piece, pieces, hpieces⟩ := List.exists_cons_of_ne_nil (List.splitOn_ne_nil sep cs)
    rw [hpieces]
    by_cases hc : c = sep
    · simp [hc]
    · simp [hc, consPiece]

/-- Pieces without the separator are found again when the text that joins them is cut. -/
theorem splitOn_intercalate {sep : Char} {pieces : List (List Char)} (hne : pieces ≠ [])
    (h : ∀ p ∈ pieces, ∀ c ∈ p, c ≠ sep) : splitOn sep ([sep].intercalate pieces) = pieces := by
  rw [splitOn_eq]
  exact List.splitOn_intercalate sep (fun p hp hsep => h p hp sep hsep rfl) hne

/-- What holds of the separator and in every piece holds in the text that joins them. -/
theorem forall_mem_intercalate {P : Char → Prop} {sep : Char} {pieces : List (List Char)}
    (hsep : P sep) (h : ∀ p ∈ pieces, ∀ c ∈ p, P c) : ∀ c ∈ [sep].intercalate pieces, P c := by
  induction pieces with
  | nil => exact fun c hc => absurd hc List.not_mem_nil
  | cons p pieces ih =>
    have hrest := ih fun q hq => h q (List.mem_cons_of_mem p hq)
    by_cases hne : pieces = []
    · simpa [hne] using h p List.mem_cons_self
    · intro c hc
      rw [List.intercalate_cons_of_ne_nil hne, List.mem_append, List.mem_append,
        List.mem_singleton] at hc
      rcases hc with (hc | rfl) | hc
      · exact h p List.mem_cons_self c hc
      · exact hsep
      · exact hrest c hc

theorem trim_eq_self {cs : List Char} (h : ∀ c ∈ cs, isBlank c = false) : trim cs = cs := by
  have hdrop : ∀ ds : List Char, (∀ d ∈ ds, isBlank d = false) → ds.dropWhile isBlank = ds := by
    intro ds hds
    cases ds with
    | nil => rfl
    | cons d ds => rw [List.dropWhile_cons_of_neg (by simp [hds d List.mem_cons_self])]
  rw [trim, hdrop cs h, hdrop _ (by simpa using h), List.reverse_reverse]

theorem isBlank_of_isAlphanum {c : Char} (h : c.isAlphanum = true) : isBlank c = false := by
  have hbounds : 48 ≤ c.toNat ∧ c.toNat ≤ 122 := by
    delta Char.isAlphanum Char.isAlpha Char.isUpper Char.isLower Char.isDigit at h
    simp only [ge_iff_le, Bool.or_eq_true, Bool.and_eq_true, decide_eq_true_eq,
      UInt32.le_iff_toNat_le, Char.reduceVal, UInt32.reduceToNat] at h
    have htoNat : c.toNat = c.val.toNat := rfl
    omega
  rw [isBlank]
  simp
  omega

end Text

/-! ## 2. Columns -/

/-- **The digits of a number are read as the number.** -/
theorem naturalValue?_toDigits (n : Nat) : naturalValue? (Nat.toDigits 10 n) = some n := by
  have hdigit : ∀ c ∈ Nat.toDigits 10 n, c.isDigit = true :=
    fun c hc => Nat.isDigit_of_mem_toDigits (by decide) (by decide) hc
  have hvalue : digitsValue? (Nat.toDigits 10 n) = some (Nat.ofDigitChars 10 (Nat.toDigits 10 n) 0) := by
    rw [digitsValue?, if_pos ⟨Nat.toDigits_ne_nil, List.all_eq_true.mpr hdigit⟩,
      Nat.ofDigitChars_eq_foldl]
    simp only [Nat.mul_comm 10]
  unfold naturalValue?
  split
  · rename_i digits hplus
    -- a plus sign is no digit
    have hbad := hdigit '+' (hplus ▸ List.mem_cons_self)
    exact absurd hbad (by decide)
  · rw [hvalue, Nat.ofDigitChars_ten_toDigits]

theorem columnValue?_toDigits {column : UInt16} (h : column.toNat ≤ maxColumn) :
    columnValue? (Nat.toDigits 10 column.toNat) = some column := by
  rw [columnValue?, naturalValue?_toDigits]
  dsimp only
  rw [if_pos h, UInt16.ofNat_toNat]

theorem le_of_columnValue? {cs : List Char} {column : UInt16} (h : columnValue? cs = some column) :
    column.toNat ≤ maxColumn := by
  unfold columnValue? at h
  split at h
  · split at h
    · rename_i n hn hle
      cases h
      rwa [UInt16.toNat_ofNat_of_lt' (Nat.lt_of_le_of_lt hle (by decide))]
    · cases h
  · cases h

/-! ## 3. Keys -/

theorem ColumnKind.ofWord?_word (k : ColumnKind) : ofWord? k.word.toList = some k := by
  cases k <;> decide

namespace SortKey

/-- The words of a written key, between which the colons stand. -/
def words (k : SortKey) : List (List Char) :=
  k.kind.word.toList :: Nat.toDigits 10 k.column.toNat ::
    if k.descending then ["desc".toList] else []

theorem toList_render (k : SortKey) : k.render.toList = [':'].intercalate k.words := by
  unfold render words
  cases k.descending <;> simp

theorem toList_render_ne_nil (k : SortKey) : k.render.toList ≠ [] := by
  simp [toList_render, words]

/-- **The words are letters and digits.** -/
theorem isAlphanum_of_mem_words {k : SortKey} :
    ∀ w ∈ k.words, ∀ c ∈ w, c.isAlphanum = true := by
  have hkind : ∀ c ∈ k.kind.word.toList, c.isAlphanum = true := by
    cases k.kind <;> exact List.all_eq_true.mp rfl
  have hdigits : ∀ c ∈ Nat.toDigits 10 k.column.toNat, c.isAlphanum = true := by
    intro c hc
    simp [Char.isAlphanum, Nat.isDigit_of_mem_toDigits (by decide) (by decide) hc]
  have hdirection : ∀ c ∈ "desc".toList, c.isAlphanum = true := List.all_eq_true.mp rfl
  intro w hw
  unfold words at hw
  rcases List.mem_cons.mp hw with rfl | hw
  · exact hkind
  · rcases List.mem_cons.mp hw with rfl | hw
    · exact hdigits
    · split at hw
      · rwa [List.mem_singleton.mp hw]
      · cases hw

/-- No blank and no comma stands in a written key. -/
theorem plain_of_mem_render {k : SortKey} :
    ∀ c ∈ k.render.toList, Text.isBlank c = false ∧ c ≠ ',' := by
  rw [toList_render]
  refine Text.forall_mem_intercalate (by decide) fun w hw c hc => ?_
  have halphanum := isAlphanum_of_mem_words w hw c hc
  refine ⟨Text.isBlank_of_isAlphanum halphanum, ?_⟩
  rintro rfl
  exact absurd halphanum (by decide)

theorem splitOn_render (k : SortKey) : Text.splitOn ':' (Text.trim k.render.toList) = k.words := by
  rw [Text.trim_eq_self fun c hc => (plain_of_mem_render c hc).1, toList_render]
  refine Text.splitOn_intercalate (List.cons_ne_nil _ _) fun w hw c hc => ?_
  rintro rfl
  exact absurd (isAlphanum_of_mem_words w hw _ hc) (by decide)

/-- **A written key is read as itself**, if its column is not too large. -/
theorem ofChars_render {k : SortKey} (h : k.column.toNat ≤ maxColumn) :
    ofChars k.render.toList = .ok k := by
  rw [ofChars, splitOn_render, words]
  obtain ⟨kind, column, descending⟩ := k
  cases descending with
  | false =>
    show ofParts kind.word.toList (Nat.toDigits 10 column.toNat) none = _
    rw [ofParts, ColumnKind.ofWord?_word, columnValue?_toDigits h]
    rfl
  | true =>
    show ofParts kind.word.toList (Nat.toDigits 10 column.toNat) (some "desc".toList) = _
    rw [ofParts, ColumnKind.ofWord?_word, columnValue?_toDigits h]
    rfl

theorem le_of_ofParts {kind column : List Char} {direction : Option (List Char)} {k : SortKey}
    (h : ofParts kind column direction = .ok k) : k.column.toNat ≤ maxColumn := by
  unfold ofParts at h
  split at h
  · cases h
  · split at h
    · cases h
    · rename_i c hc
      split at h
      · cases h
      · cases h
        exact le_of_columnValue? hc

/-- **A key that was read has a column that is not too large.** -/
theorem le_of_ofChars {cs : List Char} {k : SortKey} (h : ofChars cs = .ok k) :
    k.column.toNat ≤ maxColumn := by
  unfold ofChars at h
  split at h
  · exact le_of_ofParts h
  · exact le_of_ofParts h
  · cases h

end SortKey

/-! ## 4. Layouts -/

namespace Layout

/-- All columns are small enough to be written. -/
def Writable (l : Layout) : Prop := ∀ k ∈ l.keys, k.column.toNat ≤ maxColumn

theorem toList_render (l : Layout) :
    l.render.toList = [','].intercalate (l.keys.map fun k => k.render.toList) := by
  simp [render, Function.comp_def]

theorem mapM_render {keys : List SortKey} (h : ∀ k ∈ keys, k.column.toNat ≤ maxColumn) :
    (keys.map fun k => k.render.toList).mapM SortKey.ofChars = .ok keys := by
  induction keys with
  | nil => rfl
  | cons k keys ih =>
    rw [List.map_cons, List.mapM_cons, SortKey.ofChars_render (h k List.mem_cons_self),
      ih fun q hq => h q (List.mem_cons_of_mem k hq)]
    rfl

theorem le_of_mapM {pieces : List (List Char)} {keys : List SortKey}
    (h : pieces.mapM SortKey.ofChars = .ok keys) : ∀ k ∈ keys, k.column.toNat ≤ maxColumn := by
  induction pieces generalizing keys with
  | nil =>
    cases h
    exact fun k hk => absurd hk List.not_mem_nil
  | cons piece pieces ih =>
    rw [List.mapM_cons] at h
    cases hone : SortKey.ofChars piece with
    | error e =>
      rw [hone] at h
      cases h
    | ok key =>
      cases hrest : pieces.mapM SortKey.ofChars with
      | error e =>
        rw [hone, hrest] at h
        cases h
      | ok rest =>
        rw [hone, hrest] at h
        cases h
        intro k hk
        rcases List.mem_cons.mp hk with rfl | hk
        · exact SortKey.le_of_ofChars hone
        · exact ih hrest k hk

/-- What is written is read, if it can be written. -/
theorem parse_render {l : Layout} (h : l.Writable) : parse l.render = .ok l := by
  obtain ⟨keys⟩ := l
  cases keys with
  | nil => rfl
  | cons key keys =>
    have hplain : ∀ c ∈ (Layout.mk (key :: keys)).render.toList, Text.isBlank c = false := by
      rw [toList_render]
      refine Text.forall_mem_intercalate (by decide) fun p hp c hc => ?_
      obtain ⟨k, -, rfl⟩ := List.mem_map.mp hp
      exact (SortKey.plain_of_mem_render c hc).1
    have hpieces : Text.splitOn ',' (Layout.mk (key :: keys)).render.toList =
        (key :: keys).map fun k => k.render.toList := by
      rw [toList_render]
      refine Text.splitOn_intercalate (List.cons_ne_nil _ _) fun p hp c hc => ?_
      obtain ⟨k, -, rfl⟩ := List.mem_map.mp hp
      exact (SortKey.plain_of_mem_render c hc).2
    -- an empty text has one empty piece, but no key is written as nothing
    have hsome : (Layout.mk (key :: keys)).render.toList ≠ [] := by
      intro hnil
      rw [hnil] at hpieces
      exact key.toList_render_ne_nil (List.cons.inj hpieces).1.symm
    rw [parse, Text.trim_eq_self hplain, if_neg hsome, hpieces, mapM_render h]
    rfl

theorem writable_of_parse {s : String} {l : Layout} (h : parse s = .ok l) : l.Writable := by
  unfold parse at h
  split at h
  · cases h
    exact fun k hk => absurd hk List.not_mem_nil
  · cases hkeys : (Text.splitOn ',' s.toList).mapM SortKey.ofChars with
    | error e =>
      rw [hkeys] at h
      cases h
    | ok keys =>
      rw [hkeys] at h
      cases h
      exact le_of_mapM hkeys

/-- **Layouts survive being written.**  A layout is read back from its written form exactly if its
    columns are small enough, and whatever text a layout was read from, it is read back from its
    written form. -/
theorem written_form_read :
    (∀ l : Layout, parse l.render = .ok l ↔ l.Writable) ∧
    ∀ (s : String) (l : Layout), parse s = .ok l → l.Writable ∧ parse l.render = .ok l := by
  constructor
  · exact fun l => ⟨writable_of_parse, parse_render⟩
  · intro s l h
    have hwritable := writable_of_parse h
    exact ⟨hwritable, parse_render hwritable⟩

/-- A text with blanks, a plus sign, a leading zero and the direction that need not be written. -/
theorem written_form_read_loosely :
    parse " int:+07:asc ,\tlong:32767:desc" =
      .ok ⟨[⟨.int, 7, false⟩, ⟨.long, 32767, true⟩]⟩ ∧
    Writable ⟨[⟨.int, 7, false⟩, ⟨.long, 32767, true⟩]⟩ ∧
    parse (render ⟨[⟨.int, 7, false⟩, ⟨.long, 32767, true⟩]⟩) =
      .ok ⟨[⟨.int, 7, false⟩, ⟨.long, 32767, true⟩]⟩ :=
  ⟨rfl, written_form_read.2 " int:+07:asc ,\tlong:32767:desc" _ rfl⟩

end Layout

end Collation
