/-
  File:      Collation/Proofs/Comparator/Registry.lean
  Subject:   A registry over whole histories of requests.

  A registry is asked for classes and for comparators, in any order and for any layouts.  What it
  holds is described by the order in which it was filled: each layout once, those that can be
  compiled with a class that is named by the number of classes before it, the others with none.

  * `Registry.Filled` -- the invariant: what a registry holds after `n` classes;
  * `Registry.Sound.classFor`, `Registry.sound_run` -- a request and a history keep it;
  * `Registry.Lawful` -- what a history of requests can rely on;
  * **`Registry.lawful_run`** -- every history can rely on it.
-/
import Mathlib.Data.Finset.Card
import Collation.Comparator.Registry
import Collation.Proofs.Comparator.Compilable

namespace Collation

open Generator

/-! ## 1. The walk agrees with itself -/

section Walk

variable {ρ : Type} [Record ρ] {left right : ρ}

theorem fails_of_failedRead? {keys : List SortKey} {read : ColumnRead ρ}
    (h : failedRead? left right keys = some read) : read.Fails := by
  induction keys with
  | nil => cases h
  | cons key rest ih =>
    rw [failedRead?] at h
    cases hkey : key.compare? left right with
    | none =>
      rw [hkey] at h
      have hread : key.failedRead? left right = some read := h
      have hfails := List.find?_some (p := fun read : ColumnRead ρ => decide read.Fails) hread
      exact of_decide_eq_true hfails
    | some c =>
      rw [hkey] at h
      by_cases hzero : c = 0
      · exact ih ((if_pos hzero).symm.trans h)
      · cases (if_neg hzero).symm.trans h

/-- A walk that has a left record agrees with itself on all calls. -/
theorem agreeOn_direct (layout : Layout) (left : ρ) (calls : List (Call ρ)) :
    (Comparator.direct ⟨layout, some left⟩).AgreeOn (.direct ⟨layout, some left⟩) calls := by
  induction calls generalizing left with
  | nil => trivial
  | cons call rest ih =>
    cases call with
    | setLeft record => exact ⟨.taken record rfl rfl, ih record⟩
    | compare right =>
      refine ⟨?_, ih left⟩
      cases hcompare : layout.compare? left right with
      | some n =>
        have hanswer := DirectComparator.compare_some hcompare
        exact .compared right n (compareKeys?_sign hcompare) hanswer hanswer
      | none =>
        have hanswer := DirectComparator.compare_none hcompare
        obtain ⟨read, hread⟩ := compareKeys?_eq_none_iff.mp hcompare
        exact .stopped right read (fails_of_failedRead? hread) hanswer hanswer hread hread

end Walk

/-! ## 2. One request -/

namespace Registry

/-- **What a registry holds** after `n` classes: each layout once; if it can be compiled, with its
    class, whose name counts the classes before it, and else with none. -/
inductive Filled : Nat → List (Layout × Option LinkedClass) → Prop where
  | empty : Filled 0 []
  | made {n : Nat} {classes : List (Layout × Option LinkedClass)} (layout : Layout)
      (hnew : layout ∉ classes.map Prod.fst) (hcompiles : layout.Compiles) (h : Filled n classes) :
    Filled (n + 1) ((layout, some (linkedClass (className n) layout)) :: classes)
  | failed {n : Nat} {classes : List (Layout × Option LinkedClass)} (layout : Layout)
      (hnew : layout ∉ classes.map Prod.fst) (hcompiles : ¬ layout.Compiles) (h : Filled n classes) :
    Filled n ((layout, none) :: classes)

variable {r : Registry} {layout : Layout} {known : Option LinkedClass} {n : Nat}
  {classes : List (Layout × Option LinkedClass)}

theorem Filled.nodup (h : Filled n classes) : (classes.map Prod.fst).Nodup := by
  induction h with
  | empty => exact List.nodup_nil
  | made layout hnew _ _ ih => exact List.nodup_cons.mpr ⟨hnew, ih⟩
  | failed layout hnew _ _ ih => exact List.nodup_cons.mpr ⟨hnew, ih⟩

/-- The classes that were made are those of layouts that can be compiled. -/
theorem Filled.exists_compiled (h : Filled n classes) :
    ∃ layouts : List Layout, layouts.Sublist (classes.map Prod.fst) ∧ layouts.length = n ∧
      ∀ layout ∈ layouts, layout.Compiles := by
  induction h with
  | empty => exact ⟨[], .slnil, rfl, List.forall_mem_nil _⟩
  | made layout _ hcompiles _ ih =>
    obtain ⟨layouts, hsub, hlength, hall⟩ := ih
    exact ⟨layout :: layouts, hsub.cons_cons layout, congrArg (· + 1) hlength,
      List.forall_mem_cons.mpr ⟨hcompiles, hall⟩⟩
  | failed layout _ _ _ ih =>
    obtain ⟨layouts, hsub, hlength, hall⟩ := ih
    exact ⟨layouts, hsub.cons layout, hlength, hall⟩

/-- So the next name fits. -/
theorem Filled.nameFits (h : Filled n classes) : NameFits (className n) := by
  obtain ⟨layouts, hsub, rfl, hall⟩ := h.exists_compiled
  exact nameFits_className (Layout.length_le_of_compiles (h.nodup.sublist hsub) hall)

/-- What the registry holds for a layout. -/
theorem Filled.entry (h : Filled n classes) (hmem : (layout, known) ∈ classes) :
    (known = none ∧ ¬ layout.Compiles) ∨
      ∃ m < n, known = some (linkedClass (className m) layout) ∧ layout.Compiles := by
  induction h with
  | empty => exact absurd hmem List.not_mem_nil
  | made layout' _ hcompiles _ ih =>
    rcases List.mem_cons.mp hmem with heq | hmem
    · cases heq
      exact .inr ⟨_, Nat.lt_succ_self _, rfl, hcompiles⟩
    · rcases ih hmem with hnone | ⟨m, hm, hknown⟩
      · exact .inl hnone
      · exact .inr ⟨m, Nat.lt_succ_of_lt hm, hknown⟩
  | failed layout' _ hcompiles _ ih =>
    rcases List.mem_cons.mp hmem with heq | hmem
    · cases heq
      exact .inl ⟨rfl, hcompiles⟩
    · exact ih hmem

/-- Two layouts do not share a class, nor the name of one. -/
theorem Filled.name_ne (h : Filled n classes) {a b : Layout} {ca cb : LinkedClass}
    (ha : (a, some ca) ∈ classes) (hb : (b, some cb) ∈ classes) (hne : a ≠ b) : ca.name ≠ cb.name := by
  induction h with
  | empty => exact absurd ha List.not_mem_nil
  | @made count classes layout _ _ hfilled ih =>
    -- the new class has the number of classes before it, which no class before it has
    have hfresh : ∀ {l : Layout} {c : LinkedClass}, (l, some c) ∈ classes →
        c.name ≠ (linkedClass (className count) layout).name := by
      intro l c hmem hname
      rcases hfilled.entry hmem with ⟨hnone, -⟩ | ⟨m, hm, hknown, -⟩
      · cases hnone
      · cases hknown
        exact Nat.ne_of_lt hm (className_injective hname)
    rcases List.mem_cons.mp ha with hanew | haold
    · cases hanew
      rcases List.mem_cons.mp hb with hbnew | hbold
      · cases hbnew
        exact absurd rfl hne
      · exact (hfresh hbold).symm
    · rcases List.mem_cons.mp hb with hbnew | hbold
      · cases hbnew
        exact hfresh haold
      · exact ih haold hbold
  | failed layout _ _ _ ih =>
    rcases List.mem_cons.mp ha with heq | ha
    · cases heq
    · rcases List.mem_cons.mp hb with heq | hb
      · cases heq
      · exact ih ha hb

/-- A layout that is known is answered from memory. -/
theorem classFor_of_mem (hnodup : (r.classes.map Prod.fst).Nodup) (hmem : (layout, known) ∈ r.classes) :
    r.classFor layout = (known, r) := by
  have hlookup : r.classes.lookup layout = some known := by
    obtain ⟨before, after, hclasses⟩ := List.append_of_mem hmem
    refine List.lookup_eq_some_iff.mpr ⟨before, after, hclasses, fun e he => ?_⟩
    rw [hclasses, List.map_append, List.map_cons] at hnodup
    have hdisjoint := (List.nodup_append.mp hnodup).2.2
    have hne := hdisjoint e.1 (List.mem_map_of_mem he) layout List.mem_cons_self
    exact bne_iff_ne.mpr (Ne.symm hne)
  unfold classFor
  rw [hlookup]

/-- A layout that is not known is assembled for. -/
theorem classFor_of_not_mem (hnew : layout ∉ r.classes.map Prod.fst) :
    r.classFor layout = ((r.generator.assemble layout).1.toOption,
      ⟨(r.generator.assemble layout).2,
        (layout, (r.generator.assemble layout).1.toOption) :: r.classes⟩) := by
  have hlookup : r.classes.lookup layout = none := by
    refine List.lookup_eq_none_iff.mpr fun e he => ?_
    refine bne_iff_ne.mpr fun heq => hnew ?_
    exact List.mem_map.mpr ⟨e, he, heq.symm⟩
  unfold classFor
  rw [hlookup]

/-- A registry as requests leave it. -/
def Sound (r : Registry) : Prop := Filled r.generator.generated r.classes

/-- **A request for a class keeps the registry sound.**  Its answer is remembered, with what was
    remembered before. -/
theorem Sound.classFor (h : r.Sound) (layout : Layout) :
    (r.classFor layout).2.Sound ∧ (layout, (r.classFor layout).1) ∈ (r.classFor layout).2.classes ∧
      ∃ new, (r.classFor layout).2.classes = new ++ r.classes ∧
        ∀ e ∈ new, e.1 = layout := by
  by_cases hknown : layout ∈ r.classes.map Prod.fst
  · obtain ⟨⟨_, known⟩, hmem, rfl⟩ := List.mem_map.mp hknown
    rw [classFor_of_mem h.nodup hmem]
    exact ⟨h, hmem, [], rfl, List.forall_mem_nil _⟩
  · rw [classFor_of_not_mem hknown]
    refine ⟨?_, List.mem_cons_self, [_], rfl, List.forall_mem_singleton.mpr rfl⟩
    by_cases hcompiles : layout.Compiles
    · obtain ⟨hclass, hcount⟩ := assemble_of_compiles (g := r.generator) hcompiles h.nameFits
      unfold Sound
      rw [hclass, hcount]
      exact .made layout hknown hcompiles h
    · obtain ⟨hnone, hcount⟩ := assemble_of_not_compiles (g := r.generator) hcompiles
      unfold Sound
      rw [hnone, hcount]
      exact .failed layout hknown hcompiles h

theorem sound_empty : empty.Sound := .empty

/-- What is answered for a layout: none if it cannot be compiled, and else its class. -/
theorem Sound.classFor_cases (h : r.Sound) (layout : Layout) :
    ((r.classFor layout).1 = none ∧ ¬ layout.Compiles) ∨
      ∃ m, (r.classFor layout).1 = some (linkedClass (className m) layout) ∧ layout.Compiles := by
  obtain ⟨hsound, hmem, -⟩ := h.classFor layout
  rcases hsound.entry hmem with hnone | ⟨m, -, hclass⟩
  · exact .inl hnone
  · exact .inr ⟨m, hclass⟩

/-- **A class is answered exactly if the layout can be compiled.** -/
theorem Sound.isSome_iff (h : r.Sound) (layout : Layout) :
    (r.classFor layout).1.isSome = true ↔ layout.Compiles := by
  rcases h.classFor_cases layout with ⟨hnone, hnot⟩ | ⟨m, hclass, hcompiles⟩
  · rw [hnone]
    exact iff_of_false Bool.false_ne_true hnot
  · rw [hclass]
    exact iff_of_true rfl hcompiles

/-! ## 3. Comparators -/

section Comparators

variable {ρ : Type} [Record ρ]

/-- The comparator that is handed out for a layout with this class, or without one. -/
def handOut (layout : Layout) : Option LinkedClass → Comparator ρ
  | none => .direct (.new layout)
  | some cls =>
    match (cls.newInstance : Except CallFailure (Instance ρ)) with
    | .ok i => .generated i
    | .error _ => .direct (.new layout)

/-- A request for a comparator is one for the class. -/
theorem comparator_eq (r : Registry) (layout : Layout) :
    (r.comparator layout : Comparator ρ × Registry) =
      (handOut layout (r.classFor layout).1, (r.classFor layout).2) := by
  unfold comparator handOut
  generalize r.classFor layout = answer
  obtain ⟨cls, r'⟩ := answer
  cases cls with
  | none => rfl
  | some cls =>
    dsimp only
    cases (cls.newInstance : Except CallFailure (Instance ρ)) <;> rfl

/-- **Every comparator that is handed out answers as the walk of its layout.** -/
theorem Sound.comparator_agrees (h : r.Sound) (layout : Layout) (first : ρ) (calls : List (Call ρ)) :
    (r.comparator layout).1.AgreeOn (.direct (.new layout)) (.setLeft first :: calls) := by
  rw [comparator_eq]
  rcases h.classFor_cases layout with ⟨hnone, -⟩ | ⟨m, hclass, hcompiles⟩
  · rw [hnone]
    exact ⟨.taken first rfl rfl, agreeOn_direct layout first calls⟩
  · have hinstance : (handOut layout (r.classFor layout).1 : Comparator ρ) =
        .generated (instanceWith (className m) layout (.ref .null)) := by
      rw [hclass, handOut, newInstance_linkedClass]
      rfl
    rw [hinstance]
    obtain ⟨hagree, hnext⟩ := agree_setLeft (.ref .null) none first rfl rfl
    exact ⟨hagree, agreeOn_of_paired hcompiles.columns hcompiles.reaches calls hnext⟩

end Comparators

end Registry

/-! ## 4. Histories -/

/-- A request to a registry. -/
inductive Query where
  | classFor (layout : Layout)
  | comparator (layout : Layout)
  deriving DecidableEq, Repr

/-- The layout that is asked for. -/
def Query.layout : Query → Layout
  | .classFor layout => layout
  | .comparator layout => layout

namespace Registry

variable {ρ : Type} [Record ρ] {r : Registry}

/-- The registry that a request leaves. -/
def after (ρ : Type) [Record ρ] (r : Registry) : Query → Registry
  | .classFor layout => (r.classFor layout).2
  | .comparator layout => (r.comparator layout : Comparator ρ × Registry).2

/-- The registry that requests leave, made one after the other to a new one. -/
def run (ρ : Type) [Record ρ] (queries : List Query) : Registry := queries.foldl (after ρ) empty

theorem after_eq (r : Registry) (query : Query) : r.after ρ query = (r.classFor query.layout).2 := by
  cases query with
  | classFor layout => rfl
  | comparator layout =>
    show (r.comparator layout : Comparator ρ × Registry).2 = _
    rw [comparator_eq]
    rfl

/-- What is known stays known through requests. -/
theorem Sound.foldl_after (h : r.Sound) (queries : List Query) :
    (queries.foldl (after ρ) r).Sound ∧ r.classes ⊆ (queries.foldl (after ρ) r).classes ∧
      ∀ layout, layout ∈ (queries.foldl (after ρ) r).classes.map Prod.fst ↔
        layout ∈ r.classes.map Prod.fst ∨ layout ∈ queries.map Query.layout := by
  induction queries generalizing r with
  | nil => exact ⟨h, fun _ he => he, fun _ => (or_iff_left List.not_mem_nil).symm⟩
  | cons query rest ih =>
    obtain ⟨hsound, hmem, new, hclasses, hnew⟩ := h.classFor query.layout
    rw [List.foldl_cons, after_eq]
    obtain ⟨hlater, hsubset, hlayouts⟩ := ih hsound
    refine ⟨hlater, fun e he => hsubset ?_, fun layout => ?_⟩
    · rw [hclasses]
      exact List.mem_append_right new he
    · rw [hlayouts, List.map_cons, List.mem_cons, ← or_assoc]
      refine or_congr_left ⟨fun hl => ?_, fun hl => ?_⟩
      · rw [hclasses, List.map_append] at hl
        rcases List.mem_append.mp hl with hl | hl
        · obtain ⟨e, he, rfl⟩ := List.mem_map.mp hl
          exact .inr (hnew e he)
        · exact .inl hl
      · rcases hl with hl | rfl
        · rw [hclasses, List.map_append]
          exact List.mem_append_right _ hl
        · exact List.mem_map_of_mem hmem

theorem sound_run (queries : List Query) : (run ρ queries).Sound :=
  (sound_empty.foldl_after queries).1

/-- The layouts that are known are those that were asked for. -/
theorem mem_layouts_run (queries : List Query) (layout : Layout) :
    layout ∈ (run ρ queries).classes.map Prod.fst ↔ layout ∈ queries.map Query.layout := by
  rw [run, (sound_empty.foldl_after queries).2.2 layout]
  exact or_iff_right List.not_mem_nil

/-- **What was answered once is answered from then on**, and changes nothing. -/
theorem classFor_run (earlier later : List Query) (query : Query) :
    (run ρ (earlier ++ query :: later)).classFor query.layout =
      (((run ρ earlier).classFor query.layout).1, run ρ (earlier ++ query :: later)) := by
  obtain ⟨hsound, hmem, -⟩ := (sound_run (ρ := ρ) earlier).classFor query.layout
  have hsubset := (hsound.foldl_after (ρ := ρ) later).2.1
  have hrun : run ρ (earlier ++ query :: later) =
      later.foldl (after ρ) ((run ρ earlier).classFor query.layout).2 := by
    rw [run, List.foldl_append, List.foldl_cons, after_eq]
    rfl
  rw [← hrun] at hsubset
  exact classFor_of_mem (sound_run _).nodup (hsubset hmem)

/-- **What a history of requests can rely on.** -/
structure Lawful (ρ : Type) [Record ρ] (queries : List Query) : Prop where
  /-- A layout that was asked for before gets the same class, or none again, and the registry stays
      as it is: nothing is generated. -/
  class_repeated : ∀ earlier query later, queries = earlier ++ query :: later →
    (run ρ queries).classFor query.layout =
      (((run ρ earlier).classFor query.layout).1, run ρ queries)
  /-- So it is with comparators. -/
  comparator_repeated : ∀ earlier query later, queries = earlier ++ query :: later →
    ((run ρ queries).comparator query.layout : Comparator ρ × Registry) =
      (((run ρ earlier).comparator query.layout).1, run ρ queries)
  /-- As many layouts are known as different ones were asked for. -/
  size_eq : (run ρ queries).size = (queries.map Query.layout).toFinset.card
  /-- The classes of different layouts have different names. -/
  name_ne : ∀ a ∈ queries.map Query.layout, ∀ b ∈ queries.map Query.layout, a ≠ b → ∀ ca cb,
    ((run ρ queries).classFor a).1 = some ca → ((run ρ queries).classFor b).1 = some cb →
      ca.name ≠ cb.name
  /-- A layout gets a class exactly if one is generated for it, by the generator as it is then. -/
  isSome_iff : ∀ layout, ((run ρ queries).classFor layout).1.isSome = true ↔
    ∃ bytes, ((run ρ queries).generator.generate layout).1 = .ok bytes
  /-- The same holds of a new generator. -/
  isSome_iff_new : ∀ layout, ((run ρ queries).classFor layout).1.isSome = true ↔
    ∃ bytes, (Generator.new.generate layout).1 = .ok bytes
  /-- Whatever comparator is handed out answers as the walk of the layout, from the first left
      record on. -/
  agrees : ∀ layout (first : ρ) (calls : List (Call ρ)),
    ((run ρ queries).comparator layout).1.AgreeOn (.direct (.new layout)) (.setLeft first :: calls)

/-- **Every history of requests to a new registry is lawful.** -/
theorem lawful_run {ρ : Type} [Record ρ] (queries : List Query) : Lawful ρ queries where
  class_repeated := by
    rintro earlier query later rfl
    exact classFor_run earlier later query
  comparator_repeated := by
    rintro earlier query later rfl
    rw [comparator_eq, comparator_eq, classFor_run]
  size_eq := by
    have hnodup := (sound_run (ρ := ρ) queries).nodup
    have hlayouts : ((run ρ queries).classes.map Prod.fst).toFinset =
        (queries.map Query.layout).toFinset := by
      ext layout
      rw [List.mem_toFinset, List.mem_toFinset, mem_layouts_run]
    rw [size, ← hlayouts, List.toFinset_card_of_nodup hnodup, List.length_map]
  name_ne := by
    intro a ha b hb hne ca cb hca hcb
    have hsound := sound_run (ρ := ρ) queries
    have hknown : ∀ {l : Layout} {c : LinkedClass}, l ∈ queries.map Query.layout →
        ((run ρ queries).classFor l).1 = some c → (l, some c) ∈ (run ρ queries).classes := by
      intro l c hl hc
      obtain ⟨⟨_, known⟩, hmem, rfl⟩ := List.mem_map.mp ((mem_layouts_run (ρ := ρ) queries l).mpr hl)
      rw [classFor_of_mem hsound.nodup hmem] at hc
      cases hc
      exact hmem
    exact hsound.name_ne (hknown ha hca) (hknown hb hcb) hne
  isSome_iff := by
    intro layout
    have hsound := sound_run (ρ := ρ) queries
    rw [hsound.isSome_iff, generates_iff]
    exact (and_iff_left hsound.nameFits).symm
  isSome_iff_new := by
    intro layout
    rw [(sound_run (ρ := ρ) queries).isSome_iff, generates_iff]
    exact (and_iff_left (nameFits_className (Nat.zero_le _))).symm
  agrees := (sound_run (ρ := ρ) queries).comparator_agrees

end Registry

end Collation
