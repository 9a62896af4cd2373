/-
  File:      Collation/Proofs/ClassFile/Written.lean
  Subject:   Class files as they are written, and what reading them gives.

  A `ClassText` is a class before its bytes: constants, and members that refer to them by index.
  Its bytes are read back as the class that it describes.

  * `Reader.Reads` -- a read takes exactly these bytes, wherever they stand;
  * `ClassText.bytes` -- the written form;
  * **`ClassText.parse_bytes`** -- reading the written form gives the class.
-/
import Collation.ClassFile.Parse
import Collation.Proofs.Matching
import Collation.Proofs.Text.ModifiedUtf8

namespace Collation

/-! ## 1. Reads of given bytes -/

namespace Reader

variable {α β : Type}

/-- Beginning at `offset`, the read takes the bytes and no others, and gives `a`. -/
def Reads (r : Reader α) (offset : Nat) (bytes : List UInt8) (a : α) : Prop :=
  ∀ rest, r ⟨offset, bytes ++ rest⟩ = .ok (a, ⟨offset + bytes.length, rest⟩)

variable {offset : Nat} {r : Reader α} {k : α → Reader β} {a : α} {b : β} {xs ys : List UInt8}

theorem reads_pure (offset : Nat) (a : α) : Reads (pure a) offset [] a := fun _ => rfl

theorem Reads.bind (hr : Reads r offset xs a) (hk : Reads (k a) (offset + xs.length) ys b) :
    Reads (r >>= k) offset (xs ++ ys) b := by
  intro rest
  show StateT.bind r k _ = _
  unfold StateT.bind
  rw [List.append_assoc, hr, List.length_append, ← Nat.add_assoc]
  exact hk rest

/-- A read of no bytes in front. -/
theorem Reads.bind_nil (hr : Reads r offset [] a) (hk : Reads (k a) offset ys b) :
    Reads (r >>= k) offset ys b :=
  Reads.bind hr hk

/-- A read of two pieces in front. -/
theorem Reads.bind_pieces {zs : List UInt8} (hr : Reads r offset (xs ++ ys) a)
    (hk : Reads (k a) (offset + (xs ++ ys).length) zs b) :
    Reads (r >>= k) offset (xs ++ (ys ++ zs)) b := by
  rw [← List.append_assoc]
  exact hr.bind hk

theorem Reads.at_offset (start : Nat) (h : offset = start) (hr : Reads r start xs a) :
    Reads r offset xs a :=
  h ▸ hr

/-- A read of one byte in front. -/
theorem Reads.bind_cons {v : UInt8} (hr : Reads r offset [v] a)
    (hk : Reads (k a) (offset + 1) ys b) : Reads (r >>= k) offset (v :: ys) b :=
  Reads.bind hr hk

/-- A read of no bytes at the end. -/
theorem Reads.bind_last (hr : Reads r offset xs a) (hk : Reads (k a) (offset + xs.length) [] b) :
    Reads (r >>= k) offset xs b := by
  have h := hr.bind hk
  rwa [List.append_nil] at h

/-- What is answered at the end takes no bytes. -/
theorem Reads.bind_pure (hr : Reads r offset xs a) (f : α → β) :
    Reads (r >>= fun a => pure (f a)) offset xs (f a) :=
  hr.bind_last (reads_pure _ (f a))

theorem reads_position (offset : Nat) : Reads position offset [] offset := fun _ => rfl

theorem reads_answer {answered : Except Rejection α} (h : answered = .ok a) :
    Reads (answer answered) offset [] a := by
  subst h
  exact fun _ => rfl

theorem reads_u8 (offset : Nat) (v : UInt8) : Reads u8 offset [v] v := fun _ => rfl

theorem reads_u16 (offset : Nat) (w : UInt16) : Reads u16 offset (Word.bytes16 w) w := by
  intro rest
  have h := Word.ofBytes16_bytes16 w
  simp only [Word.bytes16, u16, List.cons_append, List.nil_append, h, List.length_cons,
    List.length_nil]

theorem reads_u32 (offset : Nat) (w : UInt32) : Reads u32 offset (Word.bytes32 w) w := by
  intro rest
  have h := Word.ofBytes32_bytes32 w
  simp only [Word.bytes32, u32, List.cons_append, List.nil_append, h, List.length_cons,
    List.length_nil]

theorem takeExactly_append (xs ys acc : List α) :
    takeExactly xs.length acc (xs ++ ys) = some (acc.reverse ++ xs, ys) := by
  induction xs generalizing acc with
  | nil => simp [takeExactly]
  | cons x xs ih =>
    rw [List.length_cons, List.cons_append, takeExactly, ih]
    simp

theorem reads_bytes (offset : Nat) (xs : List UInt8) : Reads (bytes xs.length) offset xs xs := by
  intro rest
  rw [bytes, takeExactly_append]
  rfl

/-- One read after the other takes the entries of a table, each with its bytes. -/
def ReadsAll (r : Reader α) : Nat → List (List UInt8 × α) → Prop
  | _, [] => True
  | offset, (xs, a) :: rest => Reads r offset xs a ∧ ReadsAll r (offset + xs.length) rest

theorem reads_iterate {items : List (List UInt8 × α)} (h : ReadsAll r offset items)
    (acc : Array α) :
    Reads (iterate (fun acc : Array α => do return acc.push (← r)) items.length acc) offset
      (items.flatMap Prod.fst) (acc ++ (items.map Prod.snd).toArray) := by
  induction items generalizing offset acc with
  | nil =>
    intro rest
    simp [iterate]
  | cons item items ih =>
    obtain ⟨xs, a⟩ := item
    intro rest
    have hstep := h.1.bind_pure (fun x => acc.push x) (items.flatMap Prod.fst ++ rest)
    have hrest := ih h.2 (acc.push a) rest
    rw [List.length_cons, iterate, List.flatMap_cons, List.append_assoc, hstep]
    dsimp only
    rw [hrest, List.length_append, Nat.add_assoc]
    simp

/-- **A table is read entry by entry.** -/
theorem reads_times {items : List (List UInt8 × α)} (h : ReadsAll r offset items) :
    Reads (times items.length r) offset (items.flatMap Prod.fst) (items.map Prod.snd) := by
  have hall := (reads_iterate h #[]).bind_pure Array.toList
  simpa [times] using hall

/-- Entries that do not depend on where they stand. -/
theorem readsAll_of_forall {items : List (List UInt8 × α)}
    (h : ∀ e ∈ items, ∀ o, Reads r o e.1 e.2) (offset : Nat) : ReadsAll r offset items := by
  induction items generalizing offset with
  | nil => trivial
  | cons e items ih =>
    exact ⟨h e List.mem_cons_self offset, ih (fun e he => h e (List.mem_cons_of_mem _ he)) _⟩

/-- A table of entries that do not depend on where they stand. -/
theorem reads_table {γ : Type} {write : γ → List UInt8} {cs : List γ} {as : List α}
    (h : List.Forall₂ (fun c a => ∀ o, Reads r o (write c) a) cs as) (offset : Nat) :
    Reads (times cs.length r) offset (cs.flatMap write) as := by
  have hitems : ∀ e ∈ (cs.zip as).map (fun e => (write e.1, e.2)), ∀ o, Reads r o e.1 e.2 := by
    intro e he
    obtain ⟨⟨c, a⟩, hca, rfl⟩ := List.mem_map.mp he
    exact (List.forall₂_iff_zip.mp h).2 hca
  have hlength := h.length_eq
  have htable := reads_times (readsAll_of_forall hitems offset)
  have hwritten : ((cs.zip as).map fun e => (write e.1, e.2)).flatMap Prod.fst =
      cs.flatMap write := by
    have hfst : (cs.zip as).map Prod.fst = cs := List.map_fst_zip (Nat.le_of_eq hlength)
    conv_rhs => rw [← hfst]
    rw [List.flatMap_map, List.flatMap_map]
  have hread : ((cs.zip as).map fun e => (write e.1, e.2)).map Prod.snd = as := by
    rw [List.map_map]
    exact List.map_snd_zip (Nat.le_of_eq hlength.symm)
  rw [hwritten, hread, List.length_map, List.length_zip, hlength, Nat.min_self] at htable
  rwa [hlength]

/-- Entries that say where they stand, if the first one stands at `offset`. -/
def placed {γ δ : Type} (write : γ → List UInt8) (make : Nat → γ → δ → α) :
    Nat → List γ → List δ → List α
  | offset, c :: cs, d :: ds =>
    make offset c d :: placed write make (offset + (write c).length) cs ds
  | _, _, _ => []

/-- A table of entries that say where they stand. -/
theorem reads_placed {γ δ : Type} {write : γ → List UInt8} {make : Nat → γ → δ → α}
    {cs : List γ} {ds : List δ}
    (h : List.Forall₂ (fun c d => ∀ o, Reads r o (write c) (make o c d)) cs ds) (offset : Nat) :
    Reads (times cs.length r) offset (cs.flatMap write) (placed write make offset cs ds) := by
  suffices hitems : ∃ items, ReadsAll r offset items ∧ items.length = cs.length ∧
      items.flatMap Prod.fst = cs.flatMap write ∧
      items.map Prod.snd = placed write make offset cs ds by
    obtain ⟨items, hall, hlength, hbytes, hentries⟩ := hitems
    have htable := reads_times hall
    rwa [hlength, hbytes, hentries] at htable
  induction h generalizing offset with
  | nil => exact ⟨[], trivial, rfl, rfl, rfl⟩
  | @cons c d cs ds hc _ ih =>
    obtain ⟨items, hall, hlength, hbytes, hentries⟩ := ih (offset + (write c).length)
    refine ⟨(write c, make offset c d) :: items, ⟨hc offset, hall⟩, ?_, ?_, ?_⟩
    · rw [List.length_cons, List.length_cons, hlength]
    · rw [List.flatMap_cons, List.flatMap_cons, hbytes]
    · rw [List.map_cons, hentries, placed]

theorem reads_one (h : Reads r offset xs a) : Reads (times 1 r) offset xs [a] := by
  have hitems : ReadsAll r offset [(xs, a)] := ⟨h, trivial⟩
  have htable := reads_times hitems
  rwa [List.flatMap_singleton] at htable

end Reader

open Reader

/-! ## 2. The pool -/

/-- The bytes of a constant; a text that is too long has none. -/
def Constant.written (c : Constant) : List UInt8 :=
  match c.bytes with
  | .ok bytes => bytes
  | .error _ => []

/-- The constant can be written. -/
def Constant.Writable (c : Constant) : Prop := c.bytes = .ok c.written

namespace Constant

instance (c : Constant) : Decidable c.Writable :=
  inferInstanceAs (Decidable (c.bytes = .ok c.written))

theorem writable_cls (name : UInt16) : (cls name).Writable := rfl

theorem writable_member (kind : MemberKind) (owner pair : UInt16) :
    (member kind owner pair).Writable := rfl

theorem writable_nameAndType (name descriptor : UInt16) :
    (nameAndType name descriptor).Writable := rfl

end Constant

/-- Two words behind a tag. -/
theorem reads_pair {offset : Nat} {a b : UInt16} (make : UInt16 → UInt16 → Constant) :
    Reads (do return (offset, make (← u16) (← u16))) (offset + 1)
      (Word.bytes16 a ++ Word.bytes16 b) (offset, make a b) :=
  (reads_u16 _ a).bind ((reads_u16 _ b).bind_pure fun b => (offset, make a b))

/-- A constant is read back, together with where it stood. -/
theorem reads_constant {c : Constant} (h : c.Writable) (offset : Nat) :
    Reads ClassFile.readConstant offset c.written (offset, c) := by
  have hw : c.bytes = .ok c.written := h
  generalize c.written = bytes at hw
  unfold ClassFile.readConstant
  refine Reads.bind_nil (reads_position offset) ?_
  cases c with
  | text value =>
    unfold Constant.bytes at hw
    dsimp only at hw
    split at hw
    · cases hw
    · rename_i hlength
      cases hw
      have hsize : (UInt16.ofNat (ModifiedUtf8.encode value).length).toNat =
          (ModifiedUtf8.encode value).length :=
        UInt16.toNat_ofNat_of_lt' (Nat.lt_succ_of_le (Nat.le_of_not_lt hlength))
      refine Reads.bind_cons (reads_u8 _ _) ?_
      rw [if_pos rfl]
      refine (reads_u16 _ _).bind ?_
      rw [hsize]
      refine (reads_bytes _ _).bind_last ?_
      rw [ModifiedUtf8.decode_encode]
      exact reads_pure _ _
  | cls name =>
    cases hw
    refine Reads.bind_cons (reads_u8 _ _) ?_
    exact (reads_u16 _ name).bind_pure fun name => (offset, Constant.cls name)
  | member kind owner pair =>
    cases hw
    refine Reads.bind_cons (reads_u8 _ _) ?_
    cases kind <;> exact reads_pair (Constant.member _)
  | nameAndType name descriptor =>
    cases hw
    refine Reads.bind_cons (reads_u8 _ _) ?_
    exact reads_pair Constant.nameAndType

namespace Pool

variable {p : Pool} {i j : UInt16} {s : String}

/-- The constant at position `n` has the index `n + 1`. -/
theorem get?_of_getElem? {n : Nat} {c : Constant} (h : p.entries.toList[n]? = some c)
    (hroom : n + 1 < 65536) : p.get? (UInt16.ofNat (n + 1)) = some c := by
  have hindex : (UInt16.ofNat (n + 1)).toNat = n + 1 := UInt16.toNat_ofNat_of_lt' hroom
  have hne : UInt16.ofNat (n + 1) ≠ 0 := by
    intro h
    rw [h] at hindex
    simp at hindex
  rw [get?, if_neg hne, hindex, Nat.add_sub_cancel, ← Array.getElem?_toList, h]

/-- The class at an index is the one with this name. -/
def IsClass (p : Pool) (i : UInt16) (name : String) : Prop :=
  ∃ j, p.get? i = some (.cls j) ∧ p.get? j = some (.text name)

/-- The pair at an index is this name and this descriptor. -/
def IsPair (p : Pool) (i : UInt16) (name descriptor : String) : Prop :=
  ∃ j k, p.get? i = some (.nameAndType j k) ∧ p.get? j = some (.text name) ∧
    p.get? k = some (.text descriptor)

/-- The member at an index is this one. -/
def IsMember (p : Pool) (i : UInt16) (m : MemberRef) : Prop :=
  ∃ j k, p.get? i = some (.member m.kind j k) ∧ p.IsClass j m.owner ∧
    p.IsPair k m.name m.descriptor

theorem text_eq (h : p.get? i = some (.text s)) (offset : Nat) : p.text i offset = .ok s := by
  rw [text, h]

theorem IsClass.className_eq (h : p.IsClass i s) (offset : Nat) : p.className i offset = .ok s := by
  obtain ⟨j, hi, hj⟩ := h
  rw [className, hi]
  exact text_eq hj offset

theorem IsPair.nameAndType_eq {name descriptor : String} (h : p.IsPair i name descriptor)
    (offset : Nat) : p.nameAndType i offset = .ok (name, descriptor) := by
  obtain ⟨j, k, hi, hj, hk⟩ := h
  rw [nameAndType, hi]
  dsimp only
  rw [text_eq hj, text_eq hk]
  rfl

/-- An index of a member is resolved to it. -/
theorem IsMember.member_eq {m : MemberRef} (h : p.IsMember i m) (offset : Nat) :
    p.member i m.kind offset = .ok m := by
  obtain ⟨j, k, hi, hj, hk⟩ := h
  rw [member, hi]
  dsimp only
  rw [if_pos rfl, hk.nameAndType_eq, hj.className_eq]
  rfl

/-- What a constant refers to is there, and of the right kind. -/
def Closed (p : Pool) : Constant → Prop
  | .text _ => True
  | .cls name => ∃ s, p.get? name = some (.text s)
  | .nameAndType name descriptor =>
    (∃ s, p.get? name = some (.text s)) ∧ ∃ s, p.get? descriptor = some (.text s)
  | .member _ owner pair => (∃ s, p.IsClass owner s) ∧ ∃ n d, p.IsPair pair n d

theorem Closed.checkEntry_eq {c : Constant} (h : p.Closed c) (offset : Nat) :
    p.checkEntry offset c = .ok () := by
  cases c with
  | text value => rfl
  | cls name =>
    obtain ⟨s, hs⟩ := h
    rw [checkEntry, text_eq hs]
    rfl
  | nameAndType name descriptor =>
    obtain ⟨⟨n, hn⟩, d, hd⟩ := h
    rw [checkEntry, text_eq hn, text_eq hd]
    rfl
  | member kind owner pair =>
    obtain ⟨⟨s, hs⟩, n, d, hp⟩ := h
    rw [checkEntry, hs.className_eq, hp.nameAndType_eq]
    rfl

theorem checkEntries_eq {entries : List (Nat × Constant)} (h : ∀ e ∈ entries, p.Closed e.2) :
    p.checkEntries entries = .ok () := by
  induction entries with
  | nil => rfl
  | cons e entries ih =>
    obtain ⟨offset, c⟩ := e
    rw [checkEntries, (h _ List.mem_cons_self).checkEntry_eq]
    exact ih fun e he => h e (List.mem_cons_of_mem _ he)

end Pool

/-- Constants with their bytes, and with where they stand if the first one stands at `offset`. -/
def placedConstants (offset : Nat) : List Constant → List (List UInt8 × Nat × Constant)
  | [] => []
  | c :: cs => (c.written, offset, c) :: placedConstants (offset + c.written.length) cs

theorem readsAll_constants {cs : List Constant} (h : ∀ c ∈ cs, c.Writable) (offset : Nat) :
    ReadsAll ClassFile.readConstant offset (placedConstants offset cs) := by
  induction cs generalizing offset with
  | nil => trivial
  | cons c cs ih =>
    exact ⟨reads_constant (h c List.mem_cons_self) offset,
      ih (fun c hc => h c (List.mem_cons_of_mem _ hc)) _⟩

theorem map_placedConstants (offset : Nat) (cs : List Constant) :
    (placedConstants offset cs).map Prod.fst = cs.map Constant.written ∧
      (placedConstants offset cs).map (fun e => e.2.2) = cs := by
  induction cs generalizing offset with
  | nil => exact ⟨rfl, rfl⟩
  | cons c cs ih => simp [placedConstants, ih]

/-- **A pool whose constants refer to each other as they should is read back.** -/
theorem reads_pool {cs : List Constant} (hsize : cs.length < 65535) (hw : ∀ c ∈ cs, c.Writable)
    (hclosed : ∀ c ∈ cs, Pool.Closed ⟨cs.toArray⟩ c) (offset : Nat) :
    Reads ClassFile.readPool offset
      (Word.bytes16 (UInt16.ofNat (cs.length + 1)) ++ cs.flatMap Constant.written)
      ⟨cs.toArray⟩ := by
  have hcount : (UInt16.ofNat (cs.length + 1)).toNat = cs.length + 1 :=
    UInt16.toNat_ofNat_of_lt' (Nat.succ_lt_succ hsize)
  have hne : UInt16.ofNat (cs.length + 1) ≠ 0 := by
    intro h
    rw [h] at hcount
    simp at hcount
  obtain ⟨hbytes, hconstants⟩ := map_placedConstants (offset + 2) cs
  have htable := reads_times (readsAll_constants hw (offset + 2))
  have hlength : (placedConstants (offset + 2) cs).length = cs.length := by
    simpa using congrArg List.length hbytes
  rw [hlength, List.flatMap_def, hbytes, ← List.flatMap_def] at htable
  unfold ClassFile.readPool
  refine Reads.bind_nil (reads_position offset) ((reads_u16 _ _).bind ?_)
  rw [if_neg hne, hcount, Nat.add_sub_cancel]
  refine htable.bind_last ?_
  have hpool : ((placedConstants (offset + 2) cs).map Prod.snd).map Prod.snd = cs := by
    rw [List.map_map]
    exact hconstants
  have hentries : ∀ e ∈ (placedConstants (offset + 2) cs).map Prod.snd,
      Pool.Closed ⟨cs.toArray⟩ e.2 := by
    intro e he
    refine hclosed e.2 ?_
    rw [← hpool]
    exact List.mem_map_of_mem he
  rw [hpool]
  exact (reads_answer (Pool.checkEntries_eq hentries)).bind_last (reads_pure _ _)

/-! ## 3. Members -/

variable {p : Pool} {i : UInt16} {t : String}

theorem reads_text (h : p.get? i = some (.text t)) (offset : Nat) :
    Reads (ClassFile.readText p) offset (Word.bytes16 i) t :=
  Reads.bind_nil (reads_position offset)
    ((reads_u16 _ _).bind_last (reads_answer (Pool.text_eq h offset)))

theorem reads_className (h : p.IsClass i t) (offset : Nat) :
    Reads (ClassFile.readClassName p) offset (Word.bytes16 i) t :=
  Reads.bind_nil (reads_position offset)
    ((reads_u16 _ _).bind_last (reads_answer (h.className_eq offset)))

/-- A table that announces no attributes. -/
theorem reads_noAttributes (p : Pool) (offset : Nat) :
    Reads (ClassFile.skipAttributes p) offset (Word.bytes16 0) () :=
  (reads_u16 _ _).bind_last fun _ => rfl

/-- A field before its bytes. -/
structure FieldText where
  flags : FieldFlags
  name : UInt16
  descriptor : UInt16
  deriving DecidableEq, Repr

def FieldText.bytes (f : FieldText) : List UInt8 :=
  Word.bytes16 f.flags.bits ++ (Word.bytes16 f.name ++ (Word.bytes16 f.descriptor ++ Word.bytes16 0))

theorem reads_field {f : FieldText} {name descriptor : String} {type : FieldType}
    (hname : p.get? f.name = some (.text name))
    (hdescriptor : p.get? f.descriptor = some (.text descriptor))
    (htype : FieldType.parse descriptor = .ok type) (offset : Nat) :
    Reads (ClassFile.readField p) offset f.bytes ⟨.ofWord f.flags.bits, name, type⟩ := by
  unfold ClassFile.readField FieldText.bytes
  refine (reads_u16 _ _).bind ((reads_text hname _).bind ?_)
  refine Reads.bind_nil (reads_position _) ((reads_text hdescriptor _).bind ?_)
  rw [htype]
  exact (reads_noAttributes p _).bind_last (reads_pure _ _)

/-- A body is read behind its length. -/
theorem reads_measured {α : Type} {r : Reader α} {xs : List UInt8} {a : α} {offset : Nat}
    (h : Reads r (offset + 4) xs a) :
    Reads (ClassFile.readMeasured r) offset (Word.bytes32 (UInt32.ofNat xs.length) ++ xs) a := by
  unfold ClassFile.readMeasured
  refine Reads.bind_nil (reads_position offset) ((reads_u32 _ _).bind ?_)
  refine Reads.bind_nil (reads_position _) (h.bind_last ?_)
  refine Reads.bind_nil (reads_position _) ?_
  rw [if_pos (by rw [Word.length_bytes32, Nat.add_sub_cancel_left])]
  exact reads_pure _ _

/-- A stack map with one frame that adds an integer, before its bytes: the index of its name, and
    the code offset of the frame. -/
structure FrameText where
  name : UInt16
  target : UInt16
  deriving DecidableEq, Repr

namespace FrameText

def body (f : FrameText) : List UInt8 :=
  Word.bytes16 1 ++ (252 :: (Word.bytes16 f.target ++ [1]))

def bytes (f : FrameText) : List UInt8 :=
  Word.bytes16 f.name ++ (Word.bytes32 (UInt32.ofNat f.body.length) ++ f.body)

/-- The frames that the map declares. -/
def deltas (f : FrameText) : List FrameDelta := [.append f.target [.int]]

end FrameText

theorem reads_stackMap (p : Pool) (f : FrameText) (offset : Nat) :
    Reads (ClassFile.readStackMap p) offset
      (Word.bytes32 (UInt32.ofNat f.body.length) ++ f.body) f.deltas := by
  refine reads_measured ?_
  have hslot : ∀ o, Reads (ClassFile.readSlotType p) o [1] .int := fun o =>
    Reads.bind_nil (reads_position o) (Reads.bind_last (reads_u8 o 1) (reads_pure _ _))
  have hframe : Reads (ClassFile.readFrame p) (offset + 4 + 2)
      (252 :: (Word.bytes16 f.target ++ [1])) (.append f.target [.int]) := by
    refine Reads.bind_nil (reads_position _) (Reads.bind_cons (reads_u8 _ _) ?_)
    refine (reads_u16 _ f.target).bind ?_
    exact (reads_one (hslot _)).bind_pure fun more => FrameDelta.append f.target more
  exact (reads_u16 _ _).bind (reads_one hframe)

/-- A method before its bytes. -/
structure MethodText where
  flags : MethodFlags
  name : UInt16
  descriptor : UInt16
  maxStack : UInt16
  maxLocals : UInt16
  code : List UInt8
  frame : Option FrameText
  deriving DecidableEq, Repr

namespace MethodText

/-- The attributes of the code. -/
def attributes (m : MethodText) : List UInt8 :=
  match m.frame with
  | none => Word.bytes16 0
  | some f => Word.bytes16 1 ++ f.bytes

/-- The body of the code attribute. -/
def body (m : MethodText) : List UInt8 :=
  Word.bytes16 m.maxStack ++ (Word.bytes16 m.maxLocals ++
    (Word.bytes32 (UInt32.ofNat m.code.length) ++ (m.code ++ (Word.bytes16 0 ++ m.attributes))))

/-- The bytes of a method, given the index of the name of code attributes. -/
def bytes (codeAttribute : UInt16) (m : MethodText) : List UInt8 :=
  Word.bytes16 m.flags.bits ++ (Word.bytes16 m.name ++ (Word.bytes16 m.descriptor ++
    (Word.bytes16 1 ++ (Word.bytes16 codeAttribute ++
      (Word.bytes32 (UInt32.ofNat m.body.length) ++ m.body)))))

/-- The body of the code attribute, with what follows the code. -/
def bodyWith (m : MethodText) (after : List UInt8) : List UInt8 :=
  Word.bytes16 m.maxStack ++ (Word.bytes16 m.maxLocals ++
    (Word.bytes32 (UInt32.ofNat m.code.length) ++ (m.code ++ after)))

/-- The bytes of a method, with what follows the code. -/
def bytesWith (codeAttribute : UInt16) (m : MethodText) (after : List UInt8) : List UInt8 :=
  Word.bytes16 m.flags.bits ++ (Word.bytes16 m.name ++ (Word.bytes16 m.descriptor ++
    (Word.bytes16 1 ++ (Word.bytes16 codeAttribute ++
      (Word.bytes32 (UInt32.ofNat (m.bodyWith after).length) ++ m.bodyWith after)))))

/-- The body as it is read, if the method stands at `offset`. -/
def codeBody (m : MethodText) (offset : Nat) : CodeBody :=
  ⟨m.maxStack, m.maxLocals, m.code, offset + 22, m.frame.elim [] FrameText.deltas⟩

end MethodText

section Attributes

variable {α : Type} {owner wanted : String} {r : Reader α} {a : α} {xs : List UInt8} {offset : Nat}

/-- The first attribute with the wanted name is read. -/
theorem reads_once_wanted (hname : p.get? i = some (.text wanted)) (h : Reads r (offset + 2) xs a) :
    Reads (ClassFile.readOnce p owner wanted r none) offset (Word.bytes16 i ++ xs) (some a) := by
  unfold ClassFile.readOnce
  refine Reads.bind_nil (reads_position _) ((reads_text hname _).bind ?_)
  rw [if_pos rfl]
  exact h.bind_pure some

theorem reads_iterate_succ {β : Type} {step : β → Reader β} {b b' b'' : β} {n : Nat}
    {ys : List UInt8} (hstep : Reads (step b) offset xs b')
    (hrest : Reads (iterate step n b') (offset + xs.length) ys b'') :
    Reads (iterate step (n + 1) b) offset (xs ++ ys) b'' := by
  intro rest
  rw [iterate, List.append_assoc, hstep]
  dsimp only
  rw [hrest, List.length_append, Nat.add_assoc]

/-- One attribute, which has the wanted name. -/
theorem reads_onlyAttribute (hname : p.get? i = some (.text wanted))
    (h : Reads r (offset + 4) xs a) :
    Reads (ClassFile.readAttributes p owner wanted r) offset
      (Word.bytes16 1 ++ (Word.bytes16 i ++ xs)) (some a) := by
  have hsearch : Reads (iterate (ClassFile.readOnce p owner wanted r) 1 none) (offset + 2)
      (Word.bytes16 i ++ xs ++ []) (some a) :=
    reads_iterate_succ (reads_once_wanted hname h) fun _ => rfl
  rw [List.append_nil] at hsearch
  exact (reads_u16 _ _).bind hsearch

end Attributes

/-- **A code is read behind its length**, whatever its attributes are read as. -/
theorem reads_codeWith {m : MethodText} {attributes : List UInt8}
    {found : Option (List FrameDelta)} {signature : String} (hsize : m.code.length ≠ 0)
    (hlimit : m.code.length < 65536)
    (hattributes : ∀ o, Reads (ClassFile.readAttributes p signature stackMapAttributeName
      (ClassFile.readStackMap p)) o attributes found) (offset : Nat) :
    Reads (ClassFile.readCode p signature) (offset + 10)
      (Word.bytes32 (UInt32.ofNat (m.bodyWith (Word.bytes16 0 ++ attributes)).length) ++
        m.bodyWith (Word.bytes16 0 ++ attributes))
      ⟨m.maxStack, m.maxLocals, m.code, offset + 22, found.getD []⟩ := by
  have hlength : (UInt32.ofNat m.code.length).toNat = m.code.length :=
    UInt32.toNat_ofNat_of_lt' (Nat.lt_trans hlimit (by decide))
  refine reads_measured ?_
  unfold MethodText.bodyWith
  refine (reads_u16 _ _).bind ((reads_u16 _ _).bind ?_)
  refine Reads.bind_nil (reads_position _) ((reads_u32 _ _).bind ?_)
  rw [hlength, if_neg (by omega)]
  refine Reads.bind_nil (reads_position _) ((reads_bytes _ _).bind ?_)
  refine Reads.bind_nil (reads_position _) ((reads_u16 _ _).bind ?_)
  rw [if_neg (by decide)]
  exact (hattributes _).bind_last (reads_pure _ _)

theorem reads_code {m : MethodText} (hsize : m.code.length ≠ 0) (hlimit : m.code.length < 65536)
    (hframe : ∀ f, m.frame = some f → p.get? f.name = some (.text stackMapAttributeName))
    (signature : String) (offset : Nat) :
    Reads (ClassFile.readCode p signature) (offset + 10)
      (Word.bytes32 (UInt32.ofNat m.body.length) ++ m.body) (m.codeBody offset) := by
  have hattributes : ∀ o, Reads
      (ClassFile.readAttributes p signature stackMapAttributeName (ClassFile.readStackMap p)) o
      m.attributes (m.frame.map FrameText.deltas) := by
    intro o
    unfold MethodText.attributes
    cases hm : m.frame with
    | none => exact (reads_u16 _ _).bind_last fun _ => rfl
    | some f => exact reads_onlyAttribute (hframe f hm) (reads_stackMap p f _)
  have hdescribed : m.codeBody offset = ⟨m.maxStack, m.maxLocals, m.code, offset + 22,
      (m.frame.map FrameText.deltas).getD []⟩ := by
    unfold MethodText.codeBody
    cases m.frame <;> rfl
  rw [hdescribed]
  exact reads_codeWith hsize hlimit hattributes offset

/-- What the indices of a method must lead to. -/
structure MethodText.Resolves (p : Pool) (codeAttribute : UInt16) (m : MethodText)
    (name descriptor : String) (type : MethodType) : Prop where
  name_eq : p.get? m.name = some (.text name)
  descriptor_eq : p.get? m.descriptor = some (.text descriptor)
  type_eq : MethodType.parse descriptor = .ok type
  attribute_eq : p.get? codeAttribute = some (.text codeAttributeName)
  frame_eq : ∀ f, m.frame = some f → p.get? f.name = some (.text stackMapAttributeName)
  code_ne : m.code.length ≠ 0
  code_lt : m.code.length < 65536

/-- A method is read around its code. -/
theorem reads_methodWith {m : MethodText} {codeAttribute : UInt16} {name descriptor : String}
    {type : MethodType} {after : List UInt8} {body : CodeBody} {offset : Nat}
    (hname : p.get? m.name = some (.text name))
    (hdescriptor : p.get? m.descriptor = some (.text descriptor))
    (htype : MethodType.parse descriptor = .ok type)
    (hattribute : p.get? codeAttribute = some (.text codeAttributeName))
    (hcode : Reads (ClassFile.readCode p (name ++ descriptor)) (offset + 10)
      (Word.bytes32 (UInt32.ofNat (m.bodyWith after).length) ++ m.bodyWith after) body) :
    Reads (ClassFile.readMethod p) offset (m.bytesWith codeAttribute after)
      ⟨.ofWord m.flags.bits, name, type, descriptor, some body⟩ := by
  unfold ClassFile.readMethod MethodText.bytesWith
  refine Reads.bind_nil (reads_position _) ((reads_u16 _ _).bind ?_)
  refine (reads_text hname _).bind (Reads.bind_nil (reads_position _) ?_)
  refine (reads_text hdescriptor _).bind ?_
  rw [htype]
  refine Reads.bind_last (a := some body) ?_ (reads_pure _ _)
  exact reads_onlyAttribute hattribute hcode

/-- **A method is read back, with where its code stands.** -/
theorem reads_method {m : MethodText} {codeAttribute : UInt16} {name descriptor : String}
    {type : MethodType} (h : m.Resolves p codeAttribute name descriptor type) (offset : Nat) :
    Reads (ClassFile.readMethod p) offset (m.bytes codeAttribute)
      ⟨.ofWord m.flags.bits, name, type, descriptor, some (m.codeBody offset)⟩ :=
  reads_methodWith h.name_eq h.descriptor_eq h.type_eq h.attribute_eq
    (reads_code h.code_ne h.code_lt h.frame_eq (name ++ descriptor) offset)

/-! ## 4. Classes -/

/-- A class up to its methods, before its bytes. -/
structure ClassFront where
  version : Version
  constants : List Constant
  flags : ClassFlags
  this : UInt16
  super : UInt16
  interfaces : List UInt16
  fields : List FieldText
  deriving DecidableEq, Repr

/-- What stands before the methods, with their number. -/
def ClassFront.bytes (c : ClassFront) (methodCount : Nat) : List UInt8 :=
  Word.bytes32 ClassFile.magic ++ (Word.bytes16 c.version.minor ++ (Word.bytes16 c.version.major ++
    ((Word.bytes16 (UInt16.ofNat (c.constants.length + 1)) ++ c.constants.flatMap Constant.written) ++
    (Word.bytes16 c.flags.bits ++ (Word.bytes16 c.this ++ (Word.bytes16 c.super ++
    (Word.bytes16 (UInt16.ofNat c.interfaces.length) ++ (c.interfaces.flatMap Word.bytes16 ++
    (Word.bytes16 (UInt16.ofNat c.fields.length) ++ (c.fields.flatMap FieldText.bytes ++
    Word.bytes16 (UInt16.ofNat methodCount)))))))))))

def ClassFront.pool (c : ClassFront) : Pool := ⟨c.constants.toArray⟩

/-- A class before its bytes. -/
structure ClassText where
  version : Version
  constants : List Constant
  flags : ClassFlags
  this : UInt16
  super : UInt16
  interfaces : List UInt16
  fields : List FieldText
  /-- The index of the name of code attributes. -/
  codeAttribute : UInt16
  methods : List MethodText
  deriving DecidableEq, Repr

namespace ClassText

/-- What stands before the methods. -/
def front (c : ClassText) : List UInt8 :=
  Word.bytes32 ClassFile.magic ++ (Word.bytes16 c.version.minor ++ (Word.bytes16 c.version.major ++
    ((Word.bytes16 (UInt16.ofNat (c.constants.length + 1)) ++ c.constants.flatMap Constant.written) ++
    (Word.bytes16 c.flags.bits ++ (Word.bytes16 c.this ++ (Word.bytes16 c.super ++
    (Word.bytes16 (UInt16.ofNat c.interfaces.length) ++ (c.interfaces.flatMap Word.bytes16 ++
    (Word.bytes16 (UInt16.ofNat c.fields.length) ++ (c.fields.flatMap FieldText.bytes ++
    Word.bytes16 (UInt16.ofNat c.methods.length)))))))))))

/-- The written form. -/
def bytes (c : ClassText) : List UInt8 :=
  c.front ++ (c.methods.flatMap (MethodText.bytes c.codeAttribute) ++ Word.bytes16 0)

def pool (c : ClassText) : Pool := ⟨c.constants.toArray⟩

end ClassText

/-- What the indices of a class lead to. -/
structure ClassNames where
  this : String
  super : String
  interfaces : List String
  /-- Name, descriptor and type of each field. -/
  fields : List (String × String × FieldType)
  /-- Name, descriptor and type of each method. -/
  methods : List (String × String × MethodType)
  deriving DecidableEq, Repr

/-- The class is well formed up to its methods, and its indices lead to these names. -/
structure ClassFront.Resolves (c : ClassFront) (n : ClassNames) : Prop where
  version : c.version.isSupported = true
  size : c.constants.length < 65535
  writable : ∀ k ∈ c.constants, k.Writable
  closed : ∀ k ∈ c.constants, c.pool.Closed k
  this : c.pool.IsClass c.this n.this
  super : c.pool.IsClass c.super n.super
  interfaces : List.Forall₂ (fun i s => c.pool.IsClass i s) c.interfaces n.interfaces
  interfaceCount : c.interfaces.length < 65536
  fields : List.Forall₂ (fun f x => c.pool.get? f.name = some (.text x.1) ∧
    c.pool.get? f.descriptor = some (.text x.2.1) ∧ FieldType.parse x.2.1 = .ok x.2.2)
    c.fields n.fields
  fieldCount : c.fields.length < 65536

/-- The class that it describes, with these methods. -/
def ClassFront.described (c : ClassFront) (n : ClassNames) (methods : List MethodDecl) : ClassFile where
  version := c.version
  pool := c.pool
  flags := .ofWord c.flags.bits
  thisClass := n.this
  superClass := n.super
  interfaces := n.interfaces
  fields := (c.fields.zip n.fields).map fun e => ⟨.ofWord e.1.flags.bits, e.2.1, e.2.2.2⟩
  methods := methods

theorem forall₂_reads_field {p : Pool} {fs : List FieldText}
    {xs : List (String × String × FieldType)}
    (h : List.Forall₂ (fun f x => p.get? f.name = some (.text x.1) ∧
      p.get? f.descriptor = some (.text x.2.1) ∧ FieldType.parse x.2.1 = .ok x.2.2) fs xs) :
    List.Forall₂ (fun f d => ∀ o, Reads (ClassFile.readField p) o (FieldText.bytes f) d) fs
      ((fs.zip xs).map fun e => ⟨.ofWord e.1.flags.bits, e.2.1, e.2.2.2⟩) := by
  induction h with
  | nil => exact .nil
  | cons hf _ ih => exact .cons (fun o => reads_field hf.1 hf.2.1 hf.2.2 o) ih

/-- **A class is read around its methods and its attributes.** -/
theorem ClassFront.parse_append {c : ClassFront} {n : ClassNames} (h : c.Resolves n) {count : Nat}
    {methods attributes : List UInt8} {decls : List MethodDecl} (hmethodCount : count < 65536)
    (hmethods : Reads (times count (ClassFile.readMethod c.pool)) (c.bytes count).length methods decls)
    (hattributes : ∀ o, Reads (ClassFile.skipAttributes c.pool) o attributes ()) :
    ClassFile.parse (c.bytes count ++ (methods ++ attributes)) = .ok (c.described n decls) := by
  have hcount : ∀ {k : Nat}, k < 65536 → (UInt16.ofNat k).toNat = k := UInt16.toNat_ofNat_of_lt'
  have hversion : ∀ o, Reads ClassFile.readVersion o
      (Word.bytes16 c.version.minor ++ Word.bytes16 c.version.major) c.version := by
    intro o
    refine Reads.bind_nil (reads_position o) ((reads_u16 _ _).bind ((reads_u16 _ _).bind_last ?_))
    rw [if_pos h.version]
    exact reads_pure _ _
  have hinterfaces : List.Forall₂ (fun i s => ∀ o,
      Reads (ClassFile.readClassName c.pool) o (Word.bytes16 i) s) c.interfaces n.interfaces :=
    h.interfaces.imp fun _ _ hi o => reads_className hi o
  have hread : Reads ClassFile.read 0 (c.bytes count ++ (methods ++ attributes))
      (c.described n decls) := by
    unfold ClassFile.read
    rw [bytes]
    simp only [List.append_assoc]
    refine (reads_u32 _ _).bind ?_
    rw [if_neg (by simp)]
    refine (hversion _).bind_pieces ((reads_pool h.size h.writable h.closed _).bind_pieces ?_)
    refine (reads_u16 _ _).bind ((reads_className h.this _).bind ?_)
    refine (reads_className h.super _).bind ((reads_u16 _ _).bind ?_)
    rw [hcount h.interfaceCount]
    refine (reads_table hinterfaces _).bind ((reads_u16 _ _).bind ?_)
    rw [hcount h.fieldCount]
    refine (reads_table (forall₂_reads_field h.fields) _).bind ((reads_u16 _ _).bind ?_)
    rw [hcount hmethodCount]
    -- here the methods begin
    refine Reads.at_offset (c.bytes count).length ?_ (hmethods.bind ?_)
    · simp only [bytes, List.length_append, Nat.zero_add, Nat.add_assoc]
    · exact (hattributes _).bind_last (reads_pure _ _)
  have hwhole := hread []
  rw [List.append_nil] at hwhole
  rw [ClassFile.parse, Cursor.start, hwhole]

namespace ClassText

/-- The class is well formed, and its indices lead to these names. -/
structure Resolves (c : ClassText) (n : ClassNames) : Prop where
  version : c.version.isSupported = true
  size : c.constants.length < 65535
  writable : ∀ k ∈ c.constants, k.Writable
  closed : ∀ k ∈ c.constants, c.pool.Closed k
  this : c.pool.IsClass c.this n.this
  super : c.pool.IsClass c.super n.super
  interfaces : List.Forall₂ (fun i s => c.pool.IsClass i s) c.interfaces n.interfaces
  interfaceCount : c.interfaces.length < 65536
  fields : List.Forall₂ (fun f x => c.pool.get? f.name = some (.text x.1) ∧
    c.pool.get? f.descriptor = some (.text x.2.1) ∧ FieldType.parse x.2.1 = .ok x.2.2)
    c.fields n.fields
  fieldCount : c.fields.length < 65536
  methods : List.Forall₂ (fun m x => m.Resolves c.pool c.codeAttribute x.1 x.2.1 x.2.2)
    c.methods n.methods
  methodCount : c.methods.length < 65536

/-- The methods as they are read, if the first stands at `offset`. -/
def declsAt (codeAttribute : UInt16) :
    Nat → List MethodText → List (String × String × MethodType) → List MethodDecl
  | offset, m :: ms, x :: xs =>
    ⟨.ofWord m.flags.bits, x.1, x.2.2, x.2.1, some (m.codeBody offset)⟩ ::
      declsAt codeAttribute (offset + (m.bytes codeAttribute).length) ms xs
  | _, _, _ => []

theorem declsAt_eq (codeAttribute : UInt16) (offset : Nat) (ms : List MethodText)
    (xs : List (String × String × MethodType)) :
    declsAt codeAttribute offset ms xs = placed (MethodText.bytes codeAttribute)
      (fun o m x => ⟨.ofWord m.flags.bits, x.1, x.2.2, x.2.1, some (m.codeBody o)⟩) offset ms xs := by
  induction ms generalizing offset xs with
  | nil => rfl
  | cons m ms ih =>
    cases xs with
    | nil => rfl
    | cons x xs => rw [declsAt, placed, ih]

theorem reads_methods {p : Pool} {codeAttribute : UInt16} {ms : List MethodText}
    {xs : List (String × String × MethodType)}
    (h : List.Forall₂ (fun m x => m.Resolves p codeAttribute x.1 x.2.1 x.2.2) ms xs)
    (offset : Nat) :
    Reads (times ms.length (ClassFile.readMethod p)) offset
      (ms.flatMap (MethodText.bytes codeAttribute)) (declsAt codeAttribute offset ms xs) := by
  rw [declsAt_eq]
  exact reads_placed (h.imp fun _ _ hm o => reads_method hm o) offset

/-- The class that the text describes. -/
def described (c : ClassText) (n : ClassNames) : ClassFile where
  version := c.version
  pool := c.pool
  flags := .ofWord c.flags.bits
  thisClass := n.this
  superClass := n.super
  interfaces := n.interfaces
  fields := (c.fields.zip n.fields).map fun e => ⟨.ofWord e.1.flags.bits, e.2.1, e.2.2.2⟩
  methods := declsAt c.codeAttribute c.front.length c.methods n.methods

variable {c : ClassText} {n : ClassNames}

/-- What stands before the methods. -/
def upToMethods (c : ClassText) : ClassFront :=
  ⟨c.version, c.constants, c.flags, c.this, c.super, c.interfaces, c.fields⟩

theorem Resolves.upToMethods (h : c.Resolves n) : c.upToMethods.Resolves n :=
  ⟨h.version, h.size, h.writable, h.closed, h.this, h.super, h.interfaces, h.interfaceCount,
    h.fields, h.fieldCount⟩

/-- **Reading the written form of a class gives the class.** -/
theorem parse_bytes (h : c.Resolves n) : ClassFile.parse c.bytes = .ok (c.described n) :=
  ClassFront.parse_append h.upToMethods h.methodCount (reads_methods h.methods c.front.length)
    (reads_noAttributes c.pool)

end ClassText

end Collation
