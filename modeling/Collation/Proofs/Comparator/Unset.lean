/-
  File:      Collation/Proofs/Comparator/Unset.lean
  Subject:   Comparing before a left record is set.

  A comparator that walks its layout looks for a left record first, and gives up if there is none.
  Generated code has no such check: it finds out when it reads a column of the left record, through
  the reference in its field, which is null.  A key reads its columns before anything is decided,
  so the first key is enough; but where there is no key, nothing is read.

  * `Generator.halts_unset_key` -- the code of one key traps, whichever record it reads first;
  * **`Generator.unset_compare`** -- a new instance of an assembled class traps on the null reference
    and stays as it is, if its layout has a key;
  * `Generator.unset_compare_answers` -- without a key it answers.
-/
import Collation.Proofs.Comparator.Compilable

namespace Collation

theorem Instance.compare_of_fault {ρ : Type} [Record ρ] {i j : Instance ρ} {right : ρ}
    {cause : RunFault} (h : i.invoke compareName compareDescriptor [.ref (.borrowed right)] =
      (.error (.fault cause), j)) :
    i.compare right = (.error (.compareFailed j.cls.name cause), j) := by
  unfold Instance.compare
  rw [h]

namespace Generator

open Machine

section Unset

variable {ρ : Type} [Record ρ] {right : ρ} {code : Array (Nat × Bound)} {i : Nat} {key : SortKey}
  {keys : List SortKey} {x : Value ρ} {stack : List (Value ρ)}

/-- A column of the left record is asked for through the null reference. -/
theorem halts_unset_value (h : Stands code i (valueBound key true)) :
    ∃ t, t.fields = #[.ref .null] ∧ Halts code (valueBound key true).length
      (stateWith .null right i stack x) (.trapped .nullReference) t := by
  have hstop : Halts code 1 (readingAt .null right key true (i + 2 + 1) stack x)
      (.trapped .nullReference) (readingAt .null right key true (i + 2 + 1) stack x) :=
    halts_one h.left.right.tail rfl
  refine ⟨_, rfl, ((runs_operands true h).halts hstop).mono ?_⟩
  rw [length_valueBound]
  exact Nat.le_add_right _ _

/-- **The code of a key traps**: at once, or after it has read the right record. -/
theorem halts_unset_key (h : Stands code i (keyBound key))
    (hreadable : ¬ (key.readOf right right false).Fails) :
    ∃ t, t.fields = #[.ref .null] ∧ Halts code (keyBound key).length
      (stateWith .null right i [] x) (.trapped .nullReference) t := by
  have hlength : (keyBound key).length = (valueBound key (!key.descending)).length +
      (valueBound key key.descending).length + 1 + 1 := by
    simp only [keyBound, List.length_append, List.length_cons, List.length_nil]
  have hfirst := h.left.left
  have hsecond := h.left.right
  cases hdescending : key.descending with
  | false =>
    rw [hdescending, Bool.not_false] at hfirst hlength
    have hstop : ∃ t, t.fields = _ ∧ Halts code _ (stateWith .null right i [] x) _ t :=
      halts_unset_value hfirst
    obtain ⟨t, hfields, hhalts⟩ := hstop
    exact ⟨t, hfields, hhalts.mono (by omega)⟩
  | true =>
    rw [hdescending, Bool.not_true] at hfirst hsecond hlength
    obtain ⟨v, hv⟩ := Option.ne_none_iff_exists'.mp hreadable
    have hruns : Runs code _ (stateWith .null right i [] x) _ := runs_value false hfirst rfl hv
    have hstop : ∃ t, t.fields = _ ∧ Halts code _ (stateWith .null right _ [widened v] x) _ t :=
      halts_unset_value hsecond
    obtain ⟨t, hfields, hhalts⟩ := hstop
    exact ⟨t, hfields, (hruns.halts hhalts).mono (by omega)⟩

/-- The code of the comparing method begins with that of the first key. -/
theorem stands_firstKey {rest : List SortKey} (h : Stands code i (compareBound (key :: rest))) :
    Stands code i (keyBound key) ∧ (keyBound key).length ≤ (compareBound (key :: rest)).length := by
  cases rest with
  | nil => exact ⟨h.left, by simp [compareBound, keysBound]⟩
  | cons next rest =>
    refine ⟨h.left.left, ?_⟩
    simp only [compareBound, keysBound, List.isEmpty_cons, Bool.false_eq_true, if_false,
      List.length_append]
    omega

/-- **The comparing method traps** if there is a key. -/
theorem halts_unset {rest : List SortKey} (h : Stands code 0 (compareBound (key :: rest)))
    (hreadable : ¬ (key.readOf right right false).Fails) :
    ∃ t, t.fields = #[.ref .null] ∧ Halts code (compareBound (key :: rest)).length
      (stateWith .null right 0 [] x) (.trapped .nullReference) t := by
  obtain ⟨hkey, hle⟩ := stands_firstKey h
  obtain ⟨t, hfields, hhalts⟩ := halts_unset_key hkey hreadable
  exact ⟨t, hfields, hhalts.mono hle⟩

/-- Without a key the comparing method returns zero, whatever its field holds. -/
theorem halts_noKeys {held : Reference ρ} (h : Stands code 0 (compareBound [])) :
    ∃ t, t.fields = #[.ref held] ∧ Halts code (compareBound []).length
      (stateWith held right 0 [] x) (.returned (some (.int 0))) t := by
  have hpush : Runs code 1 (stateWith held right 0 [] x) (stateWith held right 1 [.int 0] x) :=
    runs_one h rfl
  exact ⟨_, rfl, hpush.halts (halts_one h.tail rfl)⟩

end Unset

/-- The comparing method of a class, as it is named where it traps. -/
def compareSignature : String := compareName ++ compareDescriptor

section Calls

variable {ρ : Type} [Record ρ] {right : ρ} {className : String} {layout : Layout}
  (hcolumns : ∀ key ∈ layout.keys, key.column.toNat ≤ maxColumn)
  (hreach : Reaches (indices layout) layout.keys)

include hcolumns hreach

theorem invoke_unset (hkeys : layout.keys ≠ []) (hreadable : layout.Readable right) :
    ∃ offset, (instanceWith className layout (.ref .null)).invoke compareName compareDescriptor
        [.ref (.borrowed right)] =
      (.error (.fault (.trap compareSignature offset .nullReference)),
        instanceWith className layout (.ref .null)) := by
  have hstands := stands_compareCode hcolumns hreach
  have hlimit := length_compareBound_le hcolumns hreach
  obtain ⟨key, rest, hcons⟩ := List.exists_cons_of_ne_nil hkeys
  have hkey : ¬ (key.readOf right right false).Fails := hreadable key (hcons ▸ List.mem_cons_self)
  rw [hcons] at hstands hlimit
  obtain ⟨t, hfields, hhalts⟩ := halts_unset hstands hkey
  refine ⟨offsetOf (compareBody layout) t.next, ?_⟩
  rw [invoke_compare (hhalts.mono hlimit 0), hfields]
  rfl

theorem compare_noKeys (hkeys : layout.keys = []) (held : Reference ρ) :
    (instanceWith className layout (.ref held)).compare right =
      (.ok 0, instanceWith className layout (.ref held)) := by
  have hstands := stands_compareCode hcolumns hreach
  have hlimit := length_compareBound_le hcolumns hreach
  rw [hkeys] at hstands hlimit
  have hstop : ∃ t, t.fields = _ ∧ Halts _ _ (stateWith held right 0 [] (.int 0)) _ t :=
    halts_noKeys hstands
  obtain ⟨t, hfields, hhalts⟩ := hstop
  unfold Instance.compare
  rw [invoke_compare (hhalts.mono hlimit 0), hfields]
  rfl

end Calls

/-- **Comparing before a left record is set fails, if there is a key.**  For every layout that is
    assembled, a new instance stays as it is; on a record that has the columns of the keys its comparing
    method traps on the null reference, and the comparison gives up for it, as that of the walk does for
    want of a left record.  Without keys the instance answers zero, and only the walk gives up. -/
theorem unset_compare {ρ : Type} [Record ρ] (g : Generator) (layout : Layout) {cls : LinkedClass}
    (h : (g.assemble layout).1 = .ok cls) :
    ∃ i : Instance ρ, cls.newInstance = .ok i ∧ ∀ right, layout.Readable right →
      (DirectComparator.new layout).compare right = .error .leftUnset ∧
      (layout.keys ≠ [] → ∃ offset,
        i.invoke compareName compareDescriptor [.ref (.borrowed right)] =
          (.error (.fault (.trap compareSignature offset .nullReference)), i) ∧
        i.compare right =
          (.error (.compareFailed cls.name (.trap compareSignature offset .nullReference)), i)) ∧
      (layout.keys = [] → i.compare right = (.ok 0, i)) := by
  obtain ⟨hcolumns, hreach, rfl⟩ := eq_of_assemble h
  refine ⟨_, newInstance_linkedClass, fun right hreadable => ⟨rfl, fun hkeys => ?_, fun hkeys => ?_⟩⟩
  · obtain ⟨offset, hinvoke⟩ := invoke_unset hcolumns hreach hkeys hreadable
    exact ⟨offset, hinvoke, Instance.compare_of_fault hinvoke⟩
  · exact compare_noKeys hcolumns hreach hkeys .null

/-- What a new generator assembles. -/
theorem assemble_new {layout : Layout} (h : layout.Compiles) :
    (Generator.new.assemble layout).1 = .ok (linkedClass Generator.new.nextName layout) :=
  (assemble_of_compiles h (nameFits_className (Nat.zero_le _))).1

/-- A layout whose first key reads the right record first. -/
def turnedLayout : Layout := ⟨[⟨.long, 1, true⟩, ⟨.int, 0, false⟩]⟩

theorem unset_compare_turned :
    (Generator.new.assemble turnedLayout).1 =
        .ok (linkedClass Generator.new.nextName turnedLayout) ∧
      turnedLayout.Readable (Row.mk #[.int 5, .int 7]) ∧
      ∃ i : Instance Row, (linkedClass Generator.new.nextName turnedLayout).newInstance = .ok i ∧
        ∃ offset, i.compare (Row.mk #[.int 5, .int 7]) = (.error (.compareFailed
          Generator.new.nextName (.trap compareSignature offset .nullReference)), i) := by
  have hcompiles : turnedLayout.Compiles := ⟨by decide, .inr (by decide)⟩
  have hassemble := assemble_new hcompiles
  have hreadable : turnedLayout.Readable (Row.mk #[.int 5, .int 7]) := by decide
  obtain ⟨i, hi, hcompare⟩ := unset_compare (ρ := Row) Generator.new turnedLayout hassemble
  obtain ⟨_, hfails, _⟩ := hcompare _ hreadable
  obtain ⟨offset, _, hcrash⟩ := hfails (by decide)
  exact ⟨hassemble, hreadable, i, hi, offset, hcrash⟩

/-- **Not every comparison before a left record is set fails**: without keys, a new instance answers
    where the walk gives up. -/
theorem unset_compare_answers :
    ∃ (cls : LinkedClass) (i : Instance Row), (Generator.new.assemble ⟨[]⟩).1 = .ok cls ∧
      cls.newInstance = .ok i ∧ Layout.Readable ⟨[]⟩ (Row.mk #[]) ∧
      i.compare (Row.mk #[]) = (.ok 0, i) ∧
      (DirectComparator.new ⟨[]⟩).compare (Row.mk #[]) = .error .leftUnset := by
  have hcompiles : Layout.Compiles ⟨[]⟩ := ⟨by decide, trivial⟩
  refine ⟨_, _, assemble_new hcompiles, newInstance_linkedClass, by decide, ?_, rfl⟩
  exact compare_noKeys hcompiles.columns hcompiles.reaches rfl .null

end Generator

end Collation
