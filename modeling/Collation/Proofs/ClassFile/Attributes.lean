/-
  File:      Collation/Proofs/ClassFile/Attributes.lean
  Subject:   Tables of attributes, and what reading them gives.

  An attribute is the index of its name, and a body behind its length.  A table of attributes is
  skipped as a whole, or searched for the one attribute with a wanted name; the others are skipped
  there too.  Among the attributes of a code, the one that is wanted is the stack map.

  * `AttributeText` -- an attribute before its bytes;
  * `reads_skipAttributes` -- a table is skipped;
  * `reads_wanted`, `reads_unwanted` -- a table is searched, with and without success;
  * **`reads_codeAttributes`** -- the attributes of a code are read as the frames that they declare.
-/
import Collation.Proofs.ClassFile.Written

namespace Collation

open Reader

/-! ## 1. Tables of attributes -/

/-- An attribute before its bytes. -/
structure AttributeText where
  name : UInt16
  info : List UInt8
  deriving DecidableEq, Repr

namespace AttributeText

def bytes (a : AttributeText) : List UInt8 :=
  Word.bytes16 a.name ++ (Word.bytes32 (UInt32.ofNat a.info.length) ++ a.info)

/-- The attributes behind their number. -/
def table (attributes : List AttributeText) : List UInt8 :=
  Word.bytes16 (UInt16.ofNat attributes.length) ++ attributes.flatMap bytes

/-- The attribute has this name, and its length can be written. -/
structure Named (p : Pool) (a : AttributeText) (name : String) : Prop where
  name_eq : p.get? a.name = some (.text name)
  fits : a.info.length < 4294967296

end AttributeText

variable {α : Type} {p : Pool} {offset : Nat} {attributes : List AttributeText} {a : AttributeText}
  {owner wanted name : String} {r : Reader α} {found : Option α} {x : α}

theorem Reader.Reads.discard {xs : List UInt8} (h : Reads r offset xs x) :
    Reads (discard r) offset xs () := by
  intro rest
  show StateT.map _ r _ = _
  unfold StateT.map
  rw [h]
  rfl

theorem reads_skipBody {info : List UInt8} (h : info.length < 4294967296) (offset : Nat) :
    Reads ClassFile.skipBody offset (Word.bytes32 (UInt32.ofNat info.length) ++ info) () := by
  have hsize : (UInt32.ofNat info.length).toNat = info.length := UInt32.toNat_ofNat_of_lt' h
  unfold ClassFile.skipBody
  refine (reads_u32 _ _).bind ?_
  rw [hsize]
  exact (reads_bytes _ info).discard

/-- **A table of attributes is skipped**, if their names are texts. -/
theorem reads_skipAttributes (h : ∀ a ∈ attributes, ∃ name, a.Named p name)
    (hcount : attributes.length < 65536) (offset : Nat) :
    Reads (ClassFile.skipAttributes p) offset (AttributeText.table attributes) () := by
  have hone : List.Forall₂ (fun (a : AttributeText) (u : Unit) => ∀ o,
      Reads (do discard (ClassFile.readText p); ClassFile.skipBody) o a.bytes u)
      attributes (attributes.map fun _ => ()) := by
    refine List.forall₂_map_right_iff.mpr (List.forall₂_same.mpr fun a ha o => ?_)
    obtain ⟨name, hname⟩ := h a ha
    exact (reads_text hname.name_eq o).discard.bind (reads_skipBody hname.fits _)
  unfold ClassFile.skipAttributes AttributeText.table
  refine (reads_u16 _ _).bind ?_
  rw [UInt16.toNat_ofNat_of_lt' hcount]
  exact (reads_table hone _).discard

/-! ## 2. Searching a table -/

/-- An attribute with another name is skipped. -/
theorem reads_once_other (h : a.Named p name) (hne : name ≠ wanted) (found : Option α)
    (offset : Nat) : Reads (ClassFile.readOnce p owner wanted r found) offset a.bytes found := by
  unfold ClassFile.readOnce AttributeText.bytes
  refine Reads.bind_nil (reads_position _) ((reads_text h.name_eq _).bind ?_)
  rw [if_neg hne]
  exact (reads_skipBody h.fits _).bind_last (reads_pure _ _)

/-- Attributes with other names leave the search as it is. -/
theorem reads_others (h : ∀ a ∈ attributes, ∃ name, a.Named p name ∧ name ≠ wanted)
    (found : Option α) (offset : Nat) :
    Reads (iterate (ClassFile.readOnce p owner wanted r) attributes.length found) offset
      (attributes.flatMap AttributeText.bytes) found := by
  induction attributes generalizing offset with
  | nil => exact fun _ => rfl
  | cons a attributes ih =>
    obtain ⟨name, hname, hne⟩ := h a List.mem_cons_self
    have hrest := fun o => ih (fun a ha => h a (List.mem_cons_of_mem _ ha)) o
    exact reads_iterate_succ (reads_once_other hname hne found offset) (hrest _)

/-- A table is searched from its first attribute on. -/
theorem reads_search (hcount : attributes.length < 65536)
    (h : ∀ o, Reads (iterate (ClassFile.readOnce p owner wanted r) attributes.length none) o
      (attributes.flatMap AttributeText.bytes) found) (offset : Nat) :
    Reads (ClassFile.readAttributes p owner wanted r) offset (AttributeText.table attributes) found := by
  unfold ClassFile.readAttributes AttributeText.table
  refine (reads_u16 _ _).bind ?_
  rw [UInt16.toNat_ofNat_of_lt' hcount]
  exact h _

/-- A search that finds nothing. -/
theorem reads_unwanted (h : ∀ a ∈ attributes, ∃ name, a.Named p name ∧ name ≠ wanted)
    (hcount : attributes.length < 65536) (offset : Nat) :
    Reads (ClassFile.readAttributes p owner wanted r) offset (AttributeText.table attributes) none :=
  reads_search hcount (reads_others h none) offset

/-- A search that finds the attribute, wherever it stands among others. -/
theorem reads_wanted {before after : List AttributeText}
    (hbefore : ∀ a ∈ before, ∃ name, a.Named p name ∧ name ≠ wanted)
    (hwanted : a.Named p wanted)
    (hbody : ∀ o, Reads r o (Word.bytes32 (UInt32.ofNat a.info.length) ++ a.info) x)
    (hafter : ∀ a ∈ after, ∃ name, a.Named p name ∧ name ≠ wanted)
    (hcount : (before ++ a :: after).length < 65536) (offset : Nat) :
    Reads (ClassFile.readAttributes p owner wanted r) offset
      (AttributeText.table (before ++ a :: after)) (some x) := by
  refine reads_search hcount (fun o => ?_) offset
  clear hcount
  induction before generalizing o with
  | nil =>
    exact reads_iterate_succ (reads_once_wanted hwanted.name_eq (hbody _)) (reads_others hafter _ _)
  | cons b before ih =>
    obtain ⟨name, hname, hne⟩ := hbefore b List.mem_cons_self
    have hrest := ih fun a ha => hbefore a (List.mem_cons_of_mem _ ha)
    exact reads_iterate_succ (reads_once_other hname hne none o) (hrest _)

/-! ## 3. The attributes of a code -/

/-- An attribute of a code: a stack map with one frame that adds an integer, or another one. -/
inductive CodeAttribute where
  | frame (text : FrameText)
  | other (text : AttributeText)
  deriving DecidableEq, Repr

namespace CodeAttribute

def text : CodeAttribute → AttributeText
  | frame f => ⟨f.name, f.body⟩
  | other a => a

def isFrame : CodeAttribute → Bool
  | frame _ => true
  | other _ => false

/-- The frames that the attribute declares. -/
def frames : CodeAttribute → List FrameDelta
  | frame f => f.deltas
  | other _ => []

/-- A stack map has the name of stack maps, and another attribute another name. -/
inductive Proper (p : Pool) : CodeAttribute → Prop where
  | frame {f : FrameText} (h : p.get? f.name = some (.text stackMapAttributeName)) :
    Proper p (.frame f)
  | other {a : AttributeText} {name : String} (h : a.Named p name)
      (hne : name ≠ stackMapAttributeName) : Proper p (.other a)

/-- Attributes without a stack map declare no frames, and have other names. -/
theorem others_of_filter {part : List CodeAttribute} (h : ∀ a ∈ part, a.Proper p)
    (hnone : part.filter isFrame = []) :
    part.flatMap frames = [] ∧
      ∀ a ∈ part.map text, ∃ name, a.Named p name ∧ name ≠ stackMapAttributeName := by
  have hother : ∀ a ∈ part, ∃ text name, a = .other text ∧ text.Named p name ∧
      name ≠ stackMapAttributeName := by
    intro a ha
    cases h a ha with
    | frame _ => exact absurd rfl (List.filter_eq_nil_iff.mp hnone _ ha)
    | other hname hne => exact ⟨_, _, rfl, hname, hne⟩
  constructor
  · refine List.flatMap_eq_nil_iff.mpr fun a ha => ?_
    obtain ⟨text, name, rfl, -, -⟩ := hother a ha
    rfl
  · intro text htext
    obtain ⟨a, ha, rfl⟩ := List.mem_map.mp htext
    obtain ⟨text, name, rfl, hname, hne⟩ := hother a ha
    exact ⟨name, hname, hne⟩

end CodeAttribute

/-- **The attributes of a code are read as the frames that they declare**, if there is one stack map
    among them at the most. -/
theorem reads_codeAttributes {attributes : List CodeAttribute}
    (h : ∀ a ∈ attributes, a.Proper p) (honce : (attributes.filter CodeAttribute.isFrame).length ≤ 1)
    (hcount : attributes.length < 65536) (signature : String) :
    ∃ found : Option (List FrameDelta), found.getD [] = attributes.flatMap CodeAttribute.frames ∧
      ∀ o, Reads (ClassFile.readAttributes p signature stackMapAttributeName (ClassFile.readStackMap p))
        o (AttributeText.table (attributes.map CodeAttribute.text)) found := by
  by_cases hframe : ∃ f, CodeAttribute.frame f ∈ attributes
  · obtain ⟨f, hf⟩ := hframe
    obtain ⟨before, after, rfl⟩ := List.append_of_mem hf
    rw [List.filter_append, List.filter_cons_of_pos rfl, List.length_append, List.length_cons] at honce
    obtain ⟨hbeforeFrames, hbefore⟩ := CodeAttribute.others_of_filter
      (fun a ha => h a (List.mem_append_left _ ha)) (List.eq_nil_of_length_eq_zero (by omega))
    obtain ⟨hafterFrames, hafter⟩ := CodeAttribute.others_of_filter
      (fun a ha => h a (List.mem_append_right _ (List.mem_cons_of_mem _ ha)))
      (List.eq_nil_of_length_eq_zero (by omega))
    refine ⟨some f.deltas, ?_, fun o => ?_⟩
    · rw [List.flatMap_append, List.flatMap_cons, hbeforeFrames, hafterFrames, List.append_nil]
      rfl
    · have hwanted : (CodeAttribute.frame f).text.Named p stackMapAttributeName := by
        cases h _ hf with
        | frame hname => exact ⟨hname, by simp [CodeAttribute.text, FrameText.body]⟩
      rw [List.map_append, List.map_cons]
      refine reads_wanted hbefore hwanted (fun o => reads_stackMap p f o) hafter ?_ o
      rwa [← List.map_cons, ← List.map_append, List.length_map]
  · have hnone : attributes.filter CodeAttribute.isFrame = [] := by
      refine List.filter_eq_nil_iff.mpr fun a ha hisFrame => hframe ?_
      cases a with
      | frame f => exact ⟨f, ha⟩
      | other _ => cases hisFrame
    obtain ⟨hframes, hnames⟩ := CodeAttribute.others_of_filter h hnone
    refine ⟨none, hframes.symm, fun o => reads_unwanted hnames ?_ o⟩
    rwa [List.length_map]

end Collation
