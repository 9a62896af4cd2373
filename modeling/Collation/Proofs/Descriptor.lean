/-
  File:      Collation/Proofs/Descriptor.lean
  Subject:   A text that was read as a type is the written form of that type.

  Fields are looked up by the text of their type, and checked by the type that was read from a
  text.  The two agree because reading loses nothing:

  * `FieldType.chars_of_read` -- the type read at the front of a text, written again, and what
    follows it make up the text;
  * `FieldType.render_of_parse` -- the same for a whole text;
  * `FieldType.parse_of_render_eq` -- two texts with one written form are read alike.
-/
import Collation.Descriptor

namespace Collation

theorem BaseType.letter_of_ofLetter? {c : Char} {b : BaseType} (h : ofLetter? c = some b) :
    b.letter = c := by
  unfold ofLetter? at h
  repeat' split at h
  all_goals first
    | (cases h; rename_i hc; exact hc.symm)
    | cases h

namespace FieldType

/-- A name that was read stands before its `;`, after the characters read earlier. -/
theorem chars_of_readName {acc cs rest : List Char} {name : String}
    (h : readName acc cs = .ok (name, rest)) : name.toList ++ ';' :: rest = acc.reverse ++ cs := by
  induction cs generalizing acc with
  | nil => simp [readName] at h
  | cons c cs ih =>
    unfold readName at h
    split at h
    · split at h
      · rename_i hc
        cases h
        rw [hc.1, String.toList_ofList]
      · cases h
    · have e := ih h
      rw [e, List.reverse_cons, List.append_assoc]
      rfl

theorem chars_of_readElement {cs rest : List Char} {t : FieldType}
    (h : readElement cs = .ok (t, rest)) : t.chars ++ rest = cs := by
  unfold readElement at h
  split at h
  · cases h
  · rename_i c cs
    split at h
    · rename_i hc
      split at h
      · rename_i name rest' hn
        cases h
        have e := chars_of_readName hn
        rw [hc]
        simp only [chars, List.cons_append, List.append_assoc, List.nil_append]
        exact congrArg ('L' :: ·) e
      · cases h
    · split at h
      · rename_i b hb
        cases h
        rw [chars, BaseType.letter_of_ofLetter? hb]
        rfl
      · cases h

/-- **What was read, written again, stands at the front of the text.** -/
theorem chars_of_read {cs rest : List Char} {t : FieldType} (h : FieldType.read cs = .ok (t, rest)) :
    t.chars ++ rest = cs := by
  simp only [FieldType.read] at h
  split at h
  · exact chars_of_readElement h
  · split at h
    · cases h
    · split at h
      · rename_i element rest' he
        cases h
        have hb : List.replicate (cs.takeWhile (· = '[')).length '[' = cs.takeWhile (· = '[') := by
          refine (List.eq_replicate_of_mem fun c hc => ?_).symm
          simpa using List.all_eq_true.mp List.all_takeWhile c hc
        rw [chars, hb, List.append_assoc, chars_of_readElement he]
        exact List.takeWhile_append_dropWhile
      · cases h

/-- **The written form of the type that a text describes is the text.** -/
theorem render_of_parse {s : String} {t : FieldType} (h : FieldType.parse s = .ok t) :
    t.render = s := by
  unfold FieldType.parse wholeOf at h
  split at h
  · rename_i a ha
    cases h
    have e := chars_of_read ha
    rw [List.append_nil] at e
    rw [render, e, String.ofList_toList]
  · cases h
  · cases h

/-- A text that is the written form of a type that was read is read as that type. -/
theorem parse_of_render_eq {s s' : String} {t : FieldType} (h : FieldType.parse s = .ok t)
    (hr : t.render = s') : FieldType.parse s' = .ok t := by
  rw [← hr, render_of_parse h]
  exact h

end FieldType

end Collation
