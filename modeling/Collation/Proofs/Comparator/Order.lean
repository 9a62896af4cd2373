/-
  File:      Collation/Proofs/Comparator/Order.lean
  Subject:   Comparing records under a layout is comparing lists of numbers.

  Each key turns a record into a number that grows with the value under the key, or falls with it if
  the key is descending; a layout turns it into the list of these numbers.  Where all the numbers are
  there, the comparison of two records is that of their lists in the order of words in a dictionary.
  Everything that holds of a linear order is thereby known of it.  A value that is no number has no
  place in the order, but turning all keys round still exchanges the two records.

  * `orderSign` -- the three answers of a comparison in a linear order;
  * `Orders` -- the laws that they obey;
  * `SortKey.rank`, `Layout.ranks` -- the numbers;
  * `Layout.compare?_eq_orderSign` -- records are compared as their numbers are;
  * `Layout.compare?_flipped` -- the layout with all directions turned round;
  * **`DirectComparator.compare_lexicographic`** -- the laws of the comparison.
-/
import Mathlib.Data.Int.Order.Basic
import Mathlib.Data.List.Lex
import Mathlib.Order.Lattice
import Collation.Proofs.Comparator.Agreement

namespace Collation

/-! ## 1. The answers of a comparison -/

/-- Minus one, one or zero, as the first comes before the second, after it, or neither. -/
def orderSign {α : Type} [LinearOrder α] (x y : α) : Int32 :=
  if x < y then -1 else if y < x then 1 else 0

section Sign

variable {α : Type} [LinearOrder α] {x y : α}

theorem orderSign_of_lt (h : x < y) : orderSign x y = -1 := if_pos h

theorem orderSign_of_gt (h : y < x) : orderSign x y = 1 := by
  rw [orderSign, if_neg h.not_gt, if_pos h]

theorem orderSign_self (x : α) : orderSign x x = 0 := by
  rw [orderSign, if_neg (lt_irrefl x), if_neg (lt_irrefl x)]

/-- Exchanging the two turns the answer round. -/
theorem orderSign_swap (x y : α) : orderSign y x = -orderSign x y := by
  rcases lt_trichotomy x y with h | rfl | h
  · rw [orderSign_of_lt h, orderSign_of_gt h]
    rfl
  · rw [orderSign_self]
    rfl
  · rw [orderSign_of_lt h, orderSign_of_gt h]

theorem orderSign_eq_zero_iff : orderSign x y = 0 ↔ x = y := by
  rcases lt_trichotomy x y with h | rfl | h
  · rw [orderSign_of_lt h]
    exact iff_of_false (by decide) h.ne
  · exact iff_of_true (orderSign_self x) rfl
  · rw [orderSign_of_gt h]
    exact iff_of_false (by decide) h.ne'

theorem orderSign_le_zero_iff : orderSign x y ≤ 0 ↔ x ≤ y := by
  rcases lt_trichotomy x y with h | rfl | h
  · rw [orderSign_of_lt h]
    exact iff_of_true (by decide) h.le
  · rw [orderSign_self]
    exact iff_of_true (by decide) le_rfl
  · rw [orderSign_of_gt h]
    exact iff_of_false (by decide) h.not_ge

/-- Of two lists the first entries decide, unless they are the same. -/
theorem orderSign_cons (x y : α) (xs ys : List α) :
    orderSign (x :: xs) (y :: ys) =
      if orderSign x y = 0 then orderSign xs ys else orderSign x y := by
  rcases lt_trichotomy x y with h | rfl | h
  · rw [orderSign_of_lt h, orderSign_of_lt (List.cons_lt_cons_iff.mpr (Or.inl h))]
    rfl
  · rw [orderSign_self, if_pos rfl]
    have hcons : ∀ us vs : List α, x :: us < x :: vs ↔ us < vs := fun us vs => by
      rw [List.cons_lt_cons_iff]
      exact ⟨fun h => (h.resolve_left (lt_irrefl x)).2, fun h => Or.inr ⟨rfl, h⟩⟩
    rcases lt_trichotomy xs ys with h | rfl | h
    · rw [orderSign_of_lt h, orderSign_of_lt ((hcons _ _).mpr h)]
    · rw [orderSign_self, orderSign_self]
    · rw [orderSign_of_gt h, orderSign_of_gt ((hcons _ _).mpr h)]
  · rw [orderSign_of_gt h, orderSign_of_gt (List.cons_lt_cons_iff.mpr (Or.inl h))]
    rfl

/-- The order of whole numbers turned round. -/
theorem orderSign_neg (m n : Int) : orderSign (-m) (-n) = orderSign n m := by
  simp only [orderSign, Int.neg_lt_neg_iff]

/-- The answers of a comparison put some things into a total preorder: they are minus one, zero and
    one, and what is answered zero cannot be told apart. -/
structure Orders {β : Type} (answer : β → β → Except Crash Int32) (among : β → Prop) : Prop where
  same : ∀ {a}, among a → answer a a = .ok 0
  turned : ∀ {a b}, among a → among b →
    ∃ n, answer a b = .ok n ∧ answer b a = .ok (-n) ∧ (n = -1 ∨ n = 0 ∨ n = 1)
  total : ∀ {a b}, among a → among b →
    (∃ n, answer a b = .ok n ∧ n ≤ 0) ∨ ∃ n, answer b a = .ok n ∧ n ≤ 0
  transitive : ∀ {a b c m n}, among a → among b → among c → answer a b = .ok m → m ≤ 0 →
    answer b c = .ok n → n ≤ 0 → ∃ k, answer a c = .ok k ∧ k ≤ 0
  indistinct : ∀ {a b c}, among a → among b → among c → answer a b = .ok 0 →
    answer a c = answer b c

/-- Things that are compared as their images in a linear order are. -/
theorem orders_of_orderSign {β : Type} {answer : β → β → Except Crash Int32}
    {among : β → Prop} {image : β → α}
    (h : ∀ {a b}, among a → among b → answer a b = .ok (orderSign (image a) (image b))) :
    Orders answer among where
  same ha := (h ha ha).trans (congrArg Except.ok (orderSign_self _))
  turned {a b} ha hb := by
    refine ⟨_, h ha hb, (h hb ha).trans (congrArg Except.ok (orderSign_swap _ _)), ?_⟩
    rcases lt_trichotomy (image a) (image b) with hlt | heq | hgt
    · exact Or.inl (orderSign_of_lt hlt)
    · exact Or.inr (Or.inl (orderSign_eq_zero_iff.mpr heq))
    · exact Or.inr (Or.inr (orderSign_of_gt hgt))
  total {a b} ha hb := (le_total (image a) (image b)).imp
    (fun hle => ⟨_, h ha hb, orderSign_le_zero_iff.mpr hle⟩)
    (fun hle => ⟨_, h hb ha, orderSign_le_zero_iff.mpr hle⟩)
  transitive {a b c m n} ha hb hc hab hm hbc hn := by
    cases (h ha hb).symm.trans hab
    cases (h hb hc).symm.trans hbc
    have hle := (orderSign_le_zero_iff.mp hm).trans (orderSign_le_zero_iff.mp hn)
    exact ⟨_, h ha hc, orderSign_le_zero_iff.mpr hle⟩
  indistinct {a b c} ha hb hc hab := by
    have hzero : orderSign (image a) (image b) = 0 := Except.ok.inj ((h ha hb).symm.trans hab)
    rw [h ha hc, h hb hc, orderSign_eq_zero_iff.mp hzero]

end Sign

/-! ## 2. Records as lists of numbers -/

variable {ρ : Type} [Record ρ]

namespace SortKey

/-- The key is one of floating-point numbers, and what the record has under it is no number. -/
def readsNaN (k : SortKey) (r : ρ) : Bool :=
  k.kind = .double && (Record.getDouble r (Int32.ofNat k.column.toNat)).any Binary64.isNaN

/-- A whole number that grows with the value under the key; zero if there is no value. -/
def ascendingRank (k : SortKey) (r : ρ) : Int :=
  let column := Int32.ofNat k.column.toNat
  match k.kind with
  | .int => (Record.getInt r column).elim 0 Int32.toInt
  | .long => (Record.getLong r column).elim 0 Int64.toInt
  | .double => (Record.getDouble r column).elim 0 Binary64.rank

/-- A whole number that grows with the record in the order of the key. -/
def rank (k : SortKey) (r : ρ) : Int :=
  if k.descending then -k.ascendingRank r else k.ascendingRank r

/-- The same key in the other direction. -/
def flipped (k : SortKey) : SortKey := { k with descending := !k.descending }

end SortKey

namespace Layout

/-- The record has a value under every key, and each floating-point one is a number. -/
def Sortable (l : Layout) (r : ρ) : Prop := l.Readable r ∧ ∀ k ∈ l.keys, k.readsNaN r = false

instance (l : Layout) (r : ρ) : Decidable (l.Sortable r) :=
  inferInstanceAs (Decidable (l.Readable r ∧ ∀ k ∈ l.keys, k.readsNaN r = false))

/-- The numbers of a record, the most significant one first. -/
def ranks (l : Layout) (r : ρ) : List Int := l.keys.map fun k => k.rank r

/-- The layout with every direction turned round. -/
def flipped (l : Layout) : Layout := ⟨l.keys.map SortKey.flipped⟩

end Layout

/-! ## 3. The comparison under one key -/

/-- Numbers of a fixed size are compared by their values. -/
theorem signOrLess_of_toInt {α : Type} [LT α] [DecidableLT α] [DecidableEq α] (toInt : α → Int)
    (hlt : ∀ {x y : α}, x < y ↔ toInt x < toInt y) (hinj : ∀ {x y : α}, toInt x = toInt y ↔ x = y)
    (x y : α) : signOrLess (some (compareOfLessAndEq x y)) = orderSign (toInt x) (toInt y) := by
  unfold compareOfLessAndEq
  rcases lt_trichotomy (toInt x) (toInt y) with h | h | h
  · rw [if_pos (hlt.mpr h), orderSign_of_lt h]
    rfl
  · obtain rfl := hinj.mp h
    rw [if_neg fun h => lt_irrefl _ (hlt.mp h), if_pos rfl, orderSign_self]
    rfl
  · rw [if_neg fun h' => h.asymm (hlt.mp h'), if_neg fun h' => h.ne' (hinj.mpr h'),
      orderSign_of_gt h]
    rfl

namespace SortKey

variable {k : SortKey} {a b : ρ}

/-- Both records have values under the key, and if these are floating-point ones, each is a number. -/
theorem compareInOrder?_eq_orderSign (ha : ¬ (k.readOf a a false).Fails)
    (hb : ¬ (k.readOf b b false).Fails) (hna : k.readsNaN a = false) (hnb : k.readsNaN b = false) :
    k.compareInOrder? a b = some (orderSign (k.ascendingRank a) (k.ascendingRank b)) := by
  obtain ⟨u, hu⟩ := Option.ne_none_iff_exists'.mp ha
  obtain ⟨v, hv⟩ := Option.ne_none_iff_exists'.mp hb
  obtain ⟨kind, column, descending⟩ := k
  cases kind with
  | int =>
    obtain ⟨x, hx, -⟩ := Option.map_eq_some_iff.mp hu
    obtain ⟨y, hy, -⟩ := Option.map_eq_some_iff.mp hv
    have hsign := signOrLess_of_toInt Int32.toInt Int32.lt_iff_toInt_lt Int32.toInt_inj x y
    simp only [readOf, Bool.false_eq_true, if_false] at hx hy
    simp only [compareInOrder?, ascendingRank, hx, hy]
    exact congrArg some hsign
  | long =>
    obtain ⟨x, hx, -⟩ := Option.map_eq_some_iff.mp hu
    obtain ⟨y, hy, -⟩ := Option.map_eq_some_iff.mp hv
    have hsign := signOrLess_of_toInt Int64.toInt Int64.lt_iff_toInt_lt Int64.toInt_inj x y
    simp only [readOf, Bool.false_eq_true, if_false] at hx hy
    simp only [compareInOrder?, ascendingRank, hx, hy]
    exact congrArg some hsign
  | double =>
    obtain ⟨x, hx, -⟩ := Option.map_eq_some_iff.mp hu
    obtain ⟨y, hy, -⟩ := Option.map_eq_some_iff.mp hv
    simp only [readOf, Bool.false_eq_true, if_false] at hx hy
    simp only [readsNaN, hx, hy, Option.any_some, decide_true, Bool.true_and] at hna hnb
    have hcompare : x.compare? y = some (compareOfLessAndEq x.rank y.rank) := by
      rw [Binary64.compare?, hna, hnb]
      rfl
    have hsign := signOrLess_of_toInt id Iff.rfl Iff.rfl x.rank y.rank
    simp only [compareInOrder?, ascendingRank, hx, hy]
    exact congrArg some ((congrArg signOrLess hcompare).trans hsign)

/-- **Under one key, records are compared as their numbers are.** -/
theorem compare?_eq_orderSign (ha : ¬ (k.readOf a a false).Fails)
    (hb : ¬ (k.readOf b b false).Fails) (hna : k.readsNaN a = false) (hnb : k.readsNaN b = false) :
    k.compare? a b = some (orderSign (k.rank a) (k.rank b)) := by
  unfold compare? rank
  split
  · rw [compareInOrder?_eq_orderSign hb ha hnb hna, orderSign_neg]
  · exact compareInOrder?_eq_orderSign ha hb hna hnb

/-- Under a key of which both have a value, records can be compared. -/
theorem exists_compare? (ha : ¬ (k.readOf a a false).Fails) (hb : ¬ (k.readOf b b false).Fails) :
    ∃ n, k.compare? a b = some n := by
  have hread : ∀ ofLeft, ¬ (k.readOf a b ofLeft).Fails := fun ofLeft => by
    cases ofLeft with
    | true => exact ha
    | false => exact hb
  rcases Generator.reads_cases k a b with ⟨hfails, -⟩ | ⟨-, -, hfails, -⟩ | ⟨-, -, n, -, -, hn, -⟩
  · exact absurd hfails (hread _)
  · exact absurd hfails (hread _)
  · exact ⟨n, hn⟩

/-- A key in the other direction exchanges the records. -/
theorem compare?_flipped (k : SortKey) (a b : ρ) : k.flipped.compare? a b = k.compare? b a := by
  obtain ⟨kind, column, descending⟩ := k
  cases descending <;> rfl

end SortKey

/-! ## 4. The comparison under a layout -/

namespace Layout

variable {l : Layout} {a b : ρ}

/-- What is known of a record under all keys is known under all but the first. -/
theorem Readable.tail {k : SortKey} {rest : List SortKey} {r : ρ} (h : Readable ⟨k :: rest⟩ r) :
    Readable ⟨rest⟩ r :=
  fun k hk => h k (List.mem_cons_of_mem _ hk)

theorem Sortable.tail {k : SortKey} {rest : List SortKey} {r : ρ} (h : Sortable ⟨k :: rest⟩ r) :
    Sortable ⟨rest⟩ r :=
  ⟨h.1.tail, fun k hk => h.2 k (List.mem_cons_of_mem _ hk)⟩

/-- **Under a layout, records are compared as their lists of numbers are.** -/
theorem compare?_eq_orderSign (ha : l.Sortable a) (hb : l.Sortable b) :
    l.compare? a b = some (orderSign (l.ranks a) (l.ranks b)) := by
  obtain ⟨keys⟩ := l
  show compareKeys? a b keys =
    some (orderSign (keys.map fun k => k.rank a) (keys.map fun k => k.rank b))
  induction keys with
  | nil => rfl
  | cons k rest ih =>
    have hkey := SortKey.compare?_eq_orderSign (ha.1 k List.mem_cons_self)
      (hb.1 k List.mem_cons_self) (ha.2 k List.mem_cons_self) (hb.2 k List.mem_cons_self)
    rw [compareKeys?, hkey, List.map_cons, List.map_cons, orderSign_cons]
    dsimp only
    split
    · exact ih ha.tail hb.tail
    · rfl

/-- Records that have a value under every key can be compared. -/
theorem exists_compare? (ha : l.Readable a) (hb : l.Readable b) : ∃ n, l.compare? a b = some n := by
  obtain ⟨keys⟩ := l
  show ∃ n, compareKeys? a b keys = some n
  induction keys with
  | nil => exact ⟨0, rfl⟩
  | cons k rest ih =>
    obtain ⟨n, hkey⟩ := SortKey.exists_compare? (ha k List.mem_cons_self) (hb k List.mem_cons_self)
    rw [compareKeys?, hkey]
    dsimp only
    split
    · exact ih ha.tail hb.tail
    · exact ⟨n, rfl⟩

/-- **The layout with all directions turned round exchanges the records**, whatever their values. -/
theorem compare?_flipped (l : Layout) (a b : ρ) : l.flipped.compare? a b = l.compare? b a := by
  obtain ⟨keys⟩ := l
  show compareKeys? a b (keys.map SortKey.flipped) = compareKeys? b a keys
  induction keys with
  | nil => rfl
  | cons k rest ih => rw [List.map_cons, compareKeys?, compareKeys?, SortKey.compare?_flipped, ih]

end Layout

/-! ## 5. The laws -/

namespace DirectComparator

/-- The answer for two records. -/
def answer (l : Layout) (left right : ρ) : Except Crash Int32 :=
  ((new l).setLeft left).compare right

theorem answer_of_compare? {l : Layout} {a b : ρ} {n : Int32} (h : l.compare? a b = some n) :
    answer l a b = .ok n :=
  compare_some h

/-- **Comparing is a lexicographic order.**  Records that have a value under every key, and a number
    under every key of floating-point ones, are in a total preorder; it is that of their lists of
    numbers, of which the first difference decides.  For all records that have a value under every
    key, the layout with all directions turned round gives the answers for the records exchanged. -/
theorem compare_lexicographic (l : Layout) :
    Orders (answer l) (fun r : ρ => l.Sortable r) ∧
    (∀ a b : ρ, l.Sortable a → l.Sortable b →
      answer l a b = .ok (orderSign (l.ranks a) (l.ranks b))) ∧
    ∀ a b : ρ, l.Readable a → l.Readable b →
      ∃ n, answer l.flipped a b = .ok n ∧ answer l b a = .ok n := by
  have hranks : ∀ {a b : ρ}, l.Sortable a → l.Sortable b →
      answer l a b = .ok (orderSign (l.ranks a) (l.ranks b)) :=
    fun ha hb => answer_of_compare? (Layout.compare?_eq_orderSign ha hb)
  refine ⟨orders_of_orderSign hranks, fun a b => hranks, fun a b ha hb => ?_⟩
  obtain ⟨n, hn⟩ := Layout.exists_compare? hb ha
  exact ⟨n, answer_of_compare? ((l.compare?_flipped a b).trans hn), answer_of_compare? hn⟩

/-- An integer, and at equal integers a number the other way round. -/
def mixedLayout : Layout := ⟨[⟨.int, 0, false⟩, ⟨.double, 1, true⟩]⟩

/-- A row with an integer and the floating-point number with the given bits. -/
def mixedRow (n : Int32) (bits : UInt64) : Row := ⟨#[.int n, .double ⟨bits⟩]⟩

/-- Two is less than three, so with equal integers the row with three comes first.  A row without a
    number is compared as well. -/
theorem compare_lexicographic_mixed :
    mixedLayout.Sortable (mixedRow 7 0x4000000000000000) ∧
      mixedLayout.Sortable (mixedRow 7 0x4008000000000000) ∧
      answer mixedLayout (mixedRow 7 0x4008000000000000) (mixedRow 7 0x4000000000000000) = .ok (-1) ∧
      ¬ mixedLayout.Sortable (mixedRow 7 0x7FF8000000000000) ∧
      mixedLayout.Readable (mixedRow 7 0x7FF8000000000000) ∧
      ∃ n, answer mixedLayout.flipped (mixedRow 7 0x7FF8000000000000)
          (mixedRow 7 0x4000000000000000) = .ok n ∧
        answer mixedLayout (mixedRow 7 0x4000000000000000) (mixedRow 7 0x7FF8000000000000) = .ok n := by
  have htwo : mixedLayout.Sortable (mixedRow 7 0x4000000000000000) := by decide
  have hthree : mixedLayout.Sortable (mixedRow 7 0x4008000000000000) := by decide
  have hnone : mixedLayout.Readable (mixedRow 7 0x7FF8000000000000) := by decide
  obtain ⟨-, hranks, hflipped⟩ := @compare_lexicographic Row _ mixedLayout
  refine ⟨htwo, hthree, ?_, by decide, hnone, hflipped _ _ hnone (by decide)⟩
  exact (hranks _ _ hthree htwo).trans (congrArg Except.ok (orderSign_of_lt (by decide)))

end DirectComparator

end Collation
