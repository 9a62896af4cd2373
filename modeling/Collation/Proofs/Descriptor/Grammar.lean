/-
  File:      Collation/Proofs/Descriptor/Grammar.lean
  Subject:   The texts that describe types are the written forms of well-formed types.

  A reader takes a type from the front of a text and leaves the rest.  For each reader this file says
  what it takes, as one equivalence over any rest: the written form of a well-formed type.  No written
  form goes on with a bracket that could be counted to the one before it, and none begins like the end
  of the parameters or like the result of a method without one, so the parts of a signature do not run
  into each other.

  * `FieldType.WellFormed`, `MethodType.WellFormed` -- the types that can be written and read again;
  * `FieldType.read_eq_ok_iff`, `MethodType.read_eq_ok_iff` -- what the readers take;
  * **`descriptor_parse_iff`** -- whole texts.
-/
import Collation.Proofs.Descriptor

namespace Collation

/-! ## 1. Well-formed types -/

namespace FieldType

/-- The type is one of arrays. -/
def isArray : FieldType → Bool
  | .array _ _ => true
  | _ => false

/-- Names of classes are not empty and have none of the characters that end a name; arrays have at
    least one dimension and at most 255, and their elements are no arrays. -/
def WellFormed : FieldType → Prop
  | .base _ => True
  | .object name => name ≠ "" ∧ ∀ c ∈ name.toList, c ≠ ';' ∧ c ≠ '.' ∧ c ≠ '['
  | .array dimensions element =>
    (1 ≤ dimensions ∧ dimensions ≤ 255) ∧ element.isArray = false ∧ element.WellFormed

end FieldType

/-- All types of the signature are well formed. -/
def MethodType.WellFormed (m : MethodType) : Prop :=
  (∀ t ∈ m.parameters, t.WellFormed) ∧ ∀ t ∈ m.result, t.WellFormed

theorem BaseType.ofLetter?_eq_some_iff {c : Char} {b : BaseType} : ofLetter? c = some b ↔ b.letter = c := by
  constructor
  · exact letter_of_ofLetter?
  · rintro rfl
    cases b <;> decide

/-- The letters of base types begin nothing else. -/
theorem BaseType.letter_ne (b : BaseType) :
    b.letter ≠ 'L' ∧ b.letter ≠ '[' ∧ b.letter ≠ ')' ∧ b.letter ≠ 'V' := by
  cases b <;> decide

theorem endsName_eq_false_iff {c : Char} : endsName c = false ↔ c ≠ ';' ∧ c ≠ '.' ∧ c ≠ '[' := by
  simp [endsName, and_assoc]

namespace FieldType

/-- **How a written type begins.** -/
theorem exists_head_chars {t : FieldType} (h : t.WellFormed) :
    ∃ c more, t.chars = c :: more ∧ c ≠ ')' ∧ c ≠ 'V' ∧ (t.isArray = false → c ≠ '[') := by
  cases t with
  | base b =>
    obtain ⟨-, hbracket, hclose, hvoid⟩ := b.letter_ne
    exact ⟨b.letter, [], rfl, hclose, hvoid, fun _ => hbracket⟩
  | object name => exact ⟨'L', _, rfl, by decide, by decide, fun _ => by decide⟩
  | array n element =>
    obtain ⟨n, rfl⟩ : ∃ k, n = k + 1 := ⟨n - 1, by have := h.1.1; omega⟩
    refine ⟨'[', List.replicate n '[' ++ element.chars, ?_, by decide, by decide, fun h => by cases h⟩
    rw [chars, List.replicate_succ, List.cons_append]

/-! ## 2. Names -/

/-- **A name is read** up to its `;`, if there is one before any other character that ends names. -/
theorem readName_eq_ok_iff {acc cs rest : List Char} {name : String} :
    readName acc cs = .ok (name, rest) ↔
      ∃ more, more ++ ';' :: rest = cs ∧ (∀ c ∈ more, endsName c = false) ∧
        acc.reverse ++ more ≠ [] ∧ name = String.ofList (acc.reverse ++ more) := by
  induction cs generalizing acc with
  | nil => simp [readName]
  | cons c cs ih =>
    unfold readName
    by_cases hc : endsName c = true
    · rw [if_pos hc]
      constructor
      · intro h
        split at h
        · rename_i hend
          cases h
          exact ⟨[], by rw [hend.1]; rfl, by simp, by simpa using hend.2, by simp⟩
        · cases h
      · rintro ⟨more, hcs, hmore, hne, rfl⟩
        -- the first character that ends names is the one at hand
        cases more with
        | nil =>
          cases hcs
          rw [if_pos ⟨rfl, by simpa using hne⟩, List.append_nil]
        | cons d more =>
          cases hcs
          rw [hmore c List.mem_cons_self] at hc
          cases hc
    · rw [if_neg hc, ih]
      constructor
      · rintro ⟨more, rfl, hmore, -, rfl⟩
        refine ⟨c :: more, rfl, ?_, by simp, by simp⟩
        simpa using ⟨by simpa using hc, hmore⟩
      · rintro ⟨more, hcs, hmore, -, rfl⟩
        cases more with
        | nil =>
          cases hcs
          exact absurd rfl hc
        | cons d more =>
          cases hcs
          exact ⟨more, rfl, fun e he => hmore e (List.mem_cons_of_mem c he), by simp, by simp⟩

/-! ## 3. Types -/

theorem wellFormed_of_readElement {cs rest : List Char} {t : FieldType}
    (h : readElement cs = .ok (t, rest)) : t.WellFormed ∧ t.isArray = false := by
  unfold readElement at h
  split at h
  · cases h
  · split at h
    · split at h
      · rename_i name rest' hname
        cases h
        obtain ⟨more, -, hmore, hne, rfl⟩ := readName_eq_ok_iff.mp hname
        rw [List.reverse_nil, List.nil_append] at hne ⊢
        refine ⟨⟨fun hempty => hne ?_, fun c hc => ?_⟩, rfl⟩
        · rw [← String.toList_ofList (l := more), hempty, String.toList_empty]
        · rw [String.toList_ofList] at hc
          exact endsName_eq_false_iff.mp (hmore c hc)
      · cases h
    · split at h
      · cases h
        exact ⟨trivial, rfl⟩
      · cases h

/-- **A type that is no array is read** where its written form stands. -/
theorem readElement_eq_ok_iff {cs rest : List Char} {t : FieldType} :
    readElement cs = .ok (t, rest) ↔
      (t.WellFormed ∧ t.isArray = false) ∧ t.chars ++ rest = cs := by
  constructor
  · exact fun h => ⟨wellFormed_of_readElement h, chars_of_readElement h⟩
  · rintro ⟨⟨hwf, harray⟩, rfl⟩
    cases t with
    | base b =>
      obtain ⟨hne, -⟩ := b.letter_ne
      rw [chars, List.cons_append, List.nil_append, readElement, if_neg hne,
        BaseType.ofLetter?_eq_some_iff.mpr rfl]
    | object name =>
      obtain ⟨hne, hname⟩ := hwf
      have hread : readName [] (name.toList ++ ';' :: rest) = .ok (name, rest) := by
        refine readName_eq_ok_iff.mpr ⟨name.toList, rfl, ?_, ?_, ?_⟩
        · exact fun c hc => endsName_eq_false_iff.mpr (hname c hc)
        · simpa [String.toList_eq_nil_iff] using hne
        · simp
      simp [chars, readElement, hread]
    | array n element => cases harray

theorem wellFormed_of_read {cs rest : List Char} {t : FieldType}
    (h : FieldType.read cs = .ok (t, rest)) : t.WellFormed := by
  simp only [FieldType.read] at h
  split at h
  · exact (wellFormed_of_readElement h).1
  · split at h
    · cases h
    · split at h
      · rename_i hsome hfew _ element rest' helement
        cases h
        obtain ⟨hwf, harray⟩ := wellFormed_of_readElement helement
        exact ⟨⟨Nat.pos_of_ne_zero hsome, Nat.le_of_not_lt hfew⟩, harray, hwf⟩
      · cases h

/-- The brackets before an element are the dimensions, since the element begins with none. -/
theorem takeWhile_dropWhile_brackets (n : Nat) {element : FieldType} (hwf : element.WellFormed)
    (harray : element.isArray = false) (rest : List Char) :
    (List.replicate n '[' ++ (element.chars ++ rest)).takeWhile (· = '[') = List.replicate n '[' ∧
      (List.replicate n '[' ++ (element.chars ++ rest)).dropWhile (· = '[') =
        element.chars ++ rest := by
  obtain ⟨c, more, hchars, -, -, hbracket⟩ := exists_head_chars hwf
  have hc : c ≠ '[' := hbracket harray
  have hall : ∀ d ∈ List.replicate n '[', decide (d = '[') = true := by
    intro d hd
    simpa using (List.mem_replicate.mp hd).2
  rw [hchars, List.cons_append, List.takeWhile_append_of_pos hall, List.dropWhile_append_of_pos hall]
  simp [hc]

/-- **A type is read** where the written form of a well-formed type stands, whatever follows. -/
theorem read_eq_ok_iff {cs rest : List Char} {t : FieldType} :
    FieldType.read cs = .ok (t, rest) ↔ t.WellFormed ∧ t.chars ++ rest = cs := by
  constructor
  · exact fun h => ⟨wellFormed_of_read h, chars_of_read h⟩
  · rintro ⟨hwf, rfl⟩
    by_cases harray : t.isArray = true
    · cases t with
      | base b => cases harray
      | object name => cases harray
      | array n element =>
        obtain ⟨⟨hpos, hle⟩, helement, hwf⟩ := hwf
        obtain ⟨htake, hdrop⟩ := takeWhile_dropWhile_brackets n hwf helement rest
        have hread : readElement (element.chars ++ rest) = .ok (element, rest) :=
          readElement_eq_ok_iff.mpr ⟨⟨hwf, helement⟩, rfl⟩
        rw [chars, List.append_assoc, FieldType.read, htake, hdrop, List.length_replicate,
          if_neg (by omega), if_neg (by omega), hread]
    · have harray : t.isArray = false := by simpa using harray
      -- no dimensions are counted
      obtain ⟨htake, -⟩ := takeWhile_dropWhile_brackets 0 hwf harray rest
      rw [List.replicate_zero, List.nil_append] at htake
      rw [FieldType.read, htake, List.length_nil, if_pos rfl]
      exact readElement_eq_ok_iff.mpr ⟨⟨hwf, harray⟩, rfl⟩

end FieldType

/-! ## 4. Signatures -/

namespace MethodType

theorem readParameters_of_read {acc : Array FieldType} {cs rest : List Char} {t : FieldType}
    (hclose : cs.head? ≠ some ')') (hread : FieldType.read cs = .ok (t, rest)) :
    readParameters acc cs = readParameters (acc.push t) rest := by
  rw [readParameters.eq_def, if_neg hclose]
  split
  · rename_i t' rest' hread'
    cases hread.symm.trans hread'
    rfl
  · rename_i e herror
    cases hread.symm.trans herror

/-- **Parameters are read** up to the closing parenthesis. -/
theorem readParameters_eq_ok_iff {acc : Array FieldType} {cs rest : List Char}
    {ts : List FieldType} :
    readParameters acc cs = .ok (ts, rest) ↔
      ∃ new, ts = acc.toList ++ new ∧ (∀ t ∈ new, t.WellFormed) ∧
        new.flatMap FieldType.chars ++ ')' :: rest = cs := by
  constructor
  · intro h
    fun_induction readParameters acc cs with
    | case1 acc cs hclose =>
      cases h
      obtain ⟨rest, rfl⟩ := List.head?_eq_some_iff.mp hclose
      exact ⟨[], by simp, by simp, rfl⟩
    | case2 acc cs hclose t rest' hread hlt ih =>
      obtain ⟨new, rfl, hnew, rfl⟩ := ih h
      obtain ⟨hwf, rfl⟩ := FieldType.read_eq_ok_iff.mp hread
      exact ⟨t :: new, by simp, by simpa using ⟨hwf, hnew⟩, by simp⟩
    | case3 => cases h
  · rintro ⟨new, rfl, hnew, rfl⟩
    induction new generalizing acc with
    | nil =>
      rw [readParameters.eq_def]
      simp
    | cons t new ih =>
      have hwf := hnew t List.mem_cons_self
      obtain ⟨c, more, hchars, hclose, -, -⟩ := FieldType.exists_head_chars hwf
      have hread := FieldType.read_eq_ok_iff.mpr
        ⟨hwf, (List.append_assoc _ (new.flatMap FieldType.chars) (')' :: rest)).symm⟩
      rw [List.flatMap_cons, readParameters_of_read (by simpa [hchars] using hclose) hread,
        ih fun u hu => hnew u (List.mem_cons_of_mem t hu)]
      simp

/-- The characters of a written result. -/
def resultChars : Option FieldType → List Char
  | none => ['V']
  | some t => t.chars

theorem chars_eq (m : MethodType) :
    m.chars = '(' :: (m.parameters.flatMap FieldType.chars ++ ')' :: resultChars m.result) := by
  cases m with
  | mk parameters result => cases result <;> rfl

/-- **A result is read** where it is written. -/
theorem readResult_eq_ok_iff {cs rest : List Char} {result : Option FieldType} :
    readResult cs = .ok (result, rest) ↔
      (∀ t ∈ result, t.WellFormed) ∧ resultChars result ++ rest = cs := by
  unfold readResult
  by_cases hvoid : cs.head? = some 'V'
  · obtain ⟨cs, rfl⟩ := List.head?_eq_some_iff.mp hvoid
    rw [if_pos hvoid]
    cases result with
    | none => simp [resultChars, eq_comm]
    | some t =>
      -- no written type begins like a result that is none
      refine iff_of_false (fun h => by cases h) ?_
      rintro ⟨hwf, hcs⟩
      obtain ⟨c, more, hchars, -, hne, -⟩ := FieldType.exists_head_chars (hwf t rfl)
      rw [resultChars, hchars] at hcs
      cases hcs
      exact hne rfl
  · rw [if_neg hvoid]
    cases result with
    | none =>
      refine iff_of_false (fun h => ?_) ?_
      · split at h <;> cases h
      · rintro ⟨-, rfl⟩
        exact hvoid rfl
    | some t =>
      have hread : (∀ u ∈ some t, u.WellFormed) ∧ resultChars (some t) ++ rest = cs ↔
          FieldType.read cs = .ok (t, rest) := by
        rw [FieldType.read_eq_ok_iff]
        simp [resultChars]
      rw [hread]
      cases FieldType.read cs with
      | error e => simp
      | ok pair =>
        obtain ⟨u, after⟩ := pair
        simp

/-- **A signature is read** where the written form of a well-formed one stands, whatever follows. -/
theorem read_eq_ok_iff {cs rest : List Char} {m : MethodType} :
    MethodType.read cs = .ok (m, rest) ↔ m.WellFormed ∧ m.chars ++ rest = cs := by
  unfold MethodType.read
  constructor
  · intro h
    split at h
    · rename_i hopen
      obtain ⟨cs, rfl⟩ := List.head?_eq_some_iff.mp hopen
      split at h
      · rename_i parameters after hparameters
        split at h
        · rename_i result rest' hresult
          cases h
          obtain ⟨new, rfl, hnew, hcs⟩ := readParameters_eq_ok_iff.mp hparameters
          obtain ⟨hwf, rfl⟩ := readResult_eq_ok_iff.mp hresult
          refine ⟨⟨by simpa using hnew, hwf⟩, ?_⟩
          rw [List.tail_cons] at hcs
          rw [chars_eq, ← hcs]
          simp
        · cases h
      · cases h
    · cases h
  · rintro ⟨⟨hparameters, hresult⟩, rfl⟩
    have hafter : readResult (resultChars m.result ++ rest) = .ok (m.result, rest) :=
      readResult_eq_ok_iff.mpr ⟨hresult, rfl⟩
    have hbefore : readParameters #[] (m.parameters.flatMap FieldType.chars ++
        ')' :: (resultChars m.result ++ rest)) =
        .ok (m.parameters, resultChars m.result ++ rest) :=
      readParameters_eq_ok_iff.mpr ⟨m.parameters, by simp, hparameters, rfl⟩
    simp [chars_eq, hbefore, hafter]

end MethodType

/-! ## 5. Whole texts -/

theorem wholeOf_eq_ok_iff {α : Type} {answer : Except DescriptorFault (α × List Char)} {a : α} :
    wholeOf answer = .ok a ↔ answer = .ok (a, []) := by
  cases answer with
  | error e => simp [wholeOf]
  | ok pair =>
    obtain ⟨b, rest⟩ := pair
    cases rest <;> simp [wholeOf]

/-- **A text describes exactly the well-formed type of which it is the written form**, be it the type of
    a field or the signature of a method. -/
theorem descriptor_parse_iff :
    (∀ (s : String) (t : FieldType), FieldType.parse s = .ok t ↔ t.WellFormed ∧ t.render = s) ∧
    ∀ (s : String) (m : MethodType), MethodType.parse s = .ok m ↔ m.WellFormed ∧ m.render = s := by
  have hrender : ∀ (cs : List Char) (s : String), cs ++ [] = s.toList ↔ String.ofList cs = s := by
    intro cs s
    rw [List.append_nil, ← String.toList_inj, String.toList_ofList]
  constructor
  · intro s t
    rw [FieldType.parse, wholeOf_eq_ok_iff, FieldType.read_eq_ok_iff, hrender, FieldType.render]
  · intro s m
    rw [MethodType.parse, wholeOf_eq_ok_iff, MethodType.read_eq_ok_iff, hrender, MethodType.render]

end Collation
