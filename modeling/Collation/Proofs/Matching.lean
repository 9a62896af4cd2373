/-
  File:      Collation/Proofs/Matching.lean
  Subject:   Lists that match entry by entry (`List.Forall₂`): looking up and replacing entries.
-/
import Mathlib.Data.List.Forall2

namespace Collation

variable {α β : Type} {R : α → β → Prop}

theorem forall₂_getElem? {l : List α} {m : List β} (h : List.Forall₂ R l m) {i : Nat} {a : α}
    (ha : l[i]? = some a) : ∃ b, m[i]? = some b ∧ R a b := by
  induction h generalizing i with
  | nil => simp at ha
  | cons hr _ ih =>
    cases i with
    | zero =>
      rw [List.getElem?_cons_zero] at ha
      cases ha
      exact ⟨_, rfl, hr⟩
    | succ i =>
      rw [List.getElem?_cons_succ] at ha
      exact ih ha

theorem forall₂_getElem?_right {l : List α} {m : List β} (h : List.Forall₂ R l m) {i : Nat} {b : β}
    (hb : m[i]? = some b) : ∃ a, l[i]? = some a ∧ R a b := by
  have h' : List.Forall₂ (flip R) m l := List.Forall₂.flip h
  exact forall₂_getElem? h' hb

theorem forall₂_set {l : List α} {m : List β} (h : List.Forall₂ R l m) (i : Nat) {a : α} {b : β}
    (hr : R a b) : List.Forall₂ R (l.set i a) (m.set i b) := by
  induction h generalizing i with
  | nil => exact .nil
  | cons hr' ht ih =>
    cases i with
    | zero => exact .cons hr ht
    | succ i => exact .cons hr' (ih i)

/-- An entry on the right may be replaced by another that matches. -/
theorem forall₂_set_right {l : List α} {m : List β} (h : List.Forall₂ R l m) {i : Nat} {a : α}
    {b : β} (ha : l[i]? = some a) (hr : R a b) : List.Forall₂ R l (m.set i b) := by
  induction h generalizing i with
  | nil => simp at ha
  | cons hr' ht ih =>
    cases i with
    | zero =>
      rw [List.getElem?_cons_zero] at ha
      cases ha
      exact .cons hr ht
    | succ i =>
      rw [List.getElem?_cons_succ] at ha
      exact .cons hr' (ih ha)

/-- An entry on the left may be replaced alone by one that matches everything. -/
theorem forall₂_set_left {l : List α} {m : List β} (h : List.Forall₂ R l m) (i : Nat) {a : α}
    (hr : ∀ b, R a b) : List.Forall₂ R (l.set i a) m := by
  induction h generalizing i with
  | nil => exact .nil
  | cons hr' ht ih =>
    cases i with
    | zero => exact .cons (hr _) ht
    | succ i => exact .cons hr' (ih i)

/-- If matching entries are wanted alike, the first ones wanted match. -/
theorem forall₂_find? {l : List α} {m : List β} (h : List.Forall₂ R l m) {p : α → Bool}
    {q : β → Bool} (hpq : ∀ a b, R a b → p a = q b) : Option.Rel R (l.find? p) (m.find? q) := by
  induction h with
  | nil => exact .none
  | @cons a b l m hr _ ih =>
    rw [List.find?_cons, List.find?_cons, hpq a b hr]
    cases q b with
    | true => exact .some hr
    | false => exact ih

theorem forall₂_of_isEqv {l m : List α} {r : α → α → Bool} (h : l.isEqv m r = true) :
    List.Forall₂ (fun a b => r a b = true) l m := by
  induction l generalizing m with
  | nil =>
    cases m with
    | nil => exact .nil
    | cons b m => cases h
  | cons a l ih =>
    cases m with
    | nil => cases h
    | cons b m =>
      rw [List.isEqv_cons_cons, Bool.and_eq_true] at h
      exact .cons h.1 (ih h.2)

end Collation
