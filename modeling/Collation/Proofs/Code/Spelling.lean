/-
  File:      Collation/Proofs/Code/Spelling.lean
  Subject:   Code as it is written, and what reading it gives.

  A `CodeText` lists instructions, each with its bytes.  If every one of them is spelled as the
  reader reads it, the whole code is read as these instructions, each where it stands.

  * `Opcode.plain`, `Opcode.branches` -- instructions by their first bytes;
  * `Code.Spells` -- the bytes of one instruction, and one lemma for each that is written;
  * `CodeText.indexAt_listing` -- the table of beginnings finds every instruction;
  * **`CodeText.decode_bytes`** -- reading the bytes of a text gives its instructions;
  * `getElem?_of_indexAt`, `Code.isSome_of_checkTargets` -- what the table and the check of the jumps say.
-/
import Collation.Code.Decode
import Collation.Code.Encode

namespace Collation

/-! ## 1. Tables of instructions -/

namespace Opcode

/-- The instructions without operand bytes, by opcode. -/
def plain : List (UInt8 × Decoded) :=
  [(iconstM1, .push (-1)), (iconst0, .push 0), (iconst0 + 1, .push 1), (iconst0 + 2, .push 2),
    (iconst0 + 3, .push 3), (iconst0 + 4, .push 4), (iconst0 + 5, .push 5),
    (iload0, .iload 0), (iload0 + 1, .iload 1), (iload0 + 2, .iload 2), (iload0 + 3, .iload 3),
    (aload0, .aload 0), (aload0 + 1, .aload 1), (aload0 + 2, .aload 2), (aload0 + 3, .aload 3),
    (istore0, .istore 0), (istore0 + 1, .istore 1), (istore0 + 2, .istore 2),
    (istore0 + 3, .istore 3),
    (astore0, .astore 0), (astore0 + 1, .astore 1), (astore0 + 2, .astore 2),
    (astore0 + 3, .astore 3),
    (pop, .pop), (dup, .dup), (swap, .swap), (iadd, .iadd), (isub, .isub), (imul, .imul),
    (ineg, .ineg), (i2l, .i2l), (lcmp, .lcmp), (dcmpl, .dcmp (-1)), (dcmpg, .dcmp 1),
    (ireturn, .ireturn), (return_, .vreturn)]

/-- The jumps, by opcode, each with the instruction that leads to a target. -/
def branches : List (UInt8 × (Nat → Decoded)) :=
  [(ifeq, .ifZero .eq), (ifeq + 1, .ifZero .ne), (ifeq + 2, .ifZero .lt), (ifeq + 3, .ifZero .ge),
    (ifeq + 4, .ifZero .gt), (ifeq + 5, .ifZero .le),
    (ifIcmpeq, .ifInts .eq), (ifIcmpeq + 1, .ifInts .ne), (ifIcmpeq + 2, .ifInts .lt),
    (ifIcmpeq + 3, .ifInts .ge), (ifIcmpeq + 4, .ifInts .gt), (ifIcmpeq + 5, .ifInts .le),
    (goto, .goto)]

variable {opcode : UInt8}

theorem target_of_plain {instr : Decoded} (h : (opcode, instr) ∈ plain) : instr.target? = none := by
  have hall : ∀ e ∈ plain, e.2.target? = none := by decide
  exact hall _ h

theorem target_of_branch {make : Nat → Decoded} (h : (opcode, make) ∈ branches) (n : Nat) :
    (make n).target? = some n := by
  have hall : ∀ e ∈ branches, ∀ n, (e.2 n).target? = some n := by
    unfold branches
    iterate 13 refine List.forall_mem_cons.mpr ⟨fun _ => rfl, ?_⟩
    exact List.forall_mem_nil _
  exact hall _ h n

end Opcode

namespace Code

variable {size pc : Nat} {opcode : UInt8}

/-- The entry that a key leads to stands in the table. -/
theorem mem_of_lookup {α β : Type} [BEq α] [LawfulBEq α] {table : List (α × β)} {a : α} {b : β}
    (h : table.lookup a = some b) : (a, b) ∈ table := by
  obtain ⟨before, after, rfl, _⟩ := List.lookup_eq_some_iff.mp h
  exact List.mem_append_right before List.mem_cons_self

theorem decodeOne_plain {instr : Decoded} (h : (opcode, instr) ∈ Opcode.plain) (rest : List UInt8) :
    decodeOne size pc opcode rest = .ok (instr, 0) := by
  have hall : ∀ e ∈ Opcode.plain, ∀ rest, decodeOne size pc e.1 rest = .ok (e.2, 0) := by
    unfold Opcode.plain
    iterate 36 refine List.forall_mem_cons.mpr ⟨fun _ => rfl, ?_⟩
    exact List.forall_mem_nil _
  exact hall _ h rest

theorem decodeOne_branch {make : Nat → Decoded} (h : (opcode, make) ∈ Opcode.branches)
    (rest : List UInt8) : decodeOne size pc opcode rest = withJump size pc rest make := by
  have hall : ∀ e ∈ Opcode.branches, ∀ rest, decodeOne size pc e.1 rest = withJump size pc rest e.2 := by
    unfold Opcode.branches
    iterate 13 refine List.forall_mem_cons.mpr ⟨fun _ => rfl, ?_⟩
    exact List.forall_mem_nil _
  exact hall _ h rest

theorem decodeAll_nil (acc : Array (Nat × Decoded)) : decodeAll size pc acc [] = .ok acc := by
  rw [decodeAll]

/-- After an instruction that is read, reading goes on behind its operands. -/
theorem decodeAll_cons {acc : Array (Nat × Decoded)} {rest : List UInt8} {instr : Decoded}
    {operands : Nat} (h : decodeOne size pc opcode rest = .ok (instr, operands)) :
    decodeAll size pc acc (opcode :: rest) =
      decodeAll size (pc + 1 + operands) (acc.push (pc, instr)) (rest.drop operands) := by
  rw [decodeAll, h]

end Code

/-! ## 2. One instruction -/

namespace Code

/-- At offset `pc` of a code of `size` bytes, these bytes are read as this instruction, whatever
    follows. -/
def Spells (size pc : Nat) (bytes : List UInt8) (instr : Decoded) : Prop :=
  ∃ opcode operands, bytes = opcode :: operands ∧
    ∀ rest, decodeOne size pc opcode (operands ++ rest) = .ok (instr, operands.length)

variable {size pc : Nat}

theorem Spells.length_pos {bytes : List UInt8} {instr : Decoded} (h : Spells size pc bytes instr) :
    0 < bytes.length := by
  obtain ⟨opcode, operands, rfl, _⟩ := h
  exact Nat.succ_pos _

/-- An instruction without operands. -/
theorem spells_single {opcode : UInt8} {instr : Decoded}
    (h : ∀ rest, decodeOne size pc opcode rest = .ok (instr, 0)) :
    Spells size pc [opcode] instr :=
  ⟨opcode, [], rfl, h⟩

theorem withWord_bytes16 (w : UInt16) (rest : List UInt8) (make : UInt16 → Decoded) :
    withWord (Word.bytes16 w ++ rest) make = .ok (make w, 2) := by
  have h := Word.ofBytes16_bytes16 w
  simp only [Word.bytes16, withWord, List.cons_append, List.nil_append, h]

theorem le_three {slot : UInt8} (h : slot ≤ 3) : slot = 0 ∨ slot = 1 ∨ slot = 2 ∨ slot = 3 := by
  have hn : slot.toNat ≤ 3 := UInt8.le_iff_toNat_le.mp h
  rw [← UInt8.toNat_inj, ← UInt8.toNat_inj, ← UInt8.toNat_inj, ← UInt8.toNat_inj]
  show slot.toNat = 0 ∨ slot.toNat = 1 ∨ slot.toNat = 2 ∨ slot.toNat = 3
  omega

theorem spells_aload (slot : UInt8) : Spells size pc (Encode.aload slot) (.aload slot.toNat) := by
  unfold Encode.aload Encode.onLocal
  split
  · rename_i h
    rcases le_three h with rfl | rfl | rfl | rfl <;> exact spells_single fun _ => rfl
  · exact ⟨_, [slot], rfl, fun _ => rfl⟩

theorem spells_iload (slot : UInt8) : Spells size pc (Encode.iload slot) (.iload slot.toNat) := by
  unfold Encode.iload Encode.onLocal
  split
  · rename_i h
    rcases le_three h with rfl | rfl | rfl | rfl <;> exact spells_single fun _ => rfl
  · exact ⟨_, [slot], rfl, fun _ => rfl⟩

theorem spells_istore (slot : UInt8) :
    Spells size pc (Encode.istore slot) (.istore slot.toNat) := by
  unfold Encode.istore Encode.onLocal
  split
  · rename_i h
    rcases le_three h with rfl | rfl | rfl | rfl <;> exact spells_single fun _ => rfl
  · exact ⟨_, [slot], rfl, fun _ => rfl⟩

theorem spells_getfield (i : UInt16) : Spells size pc (Encode.getfield i) (.getfield i) :=
  ⟨_, Word.bytes16 i, rfl, fun rest => withWord_bytes16 i rest .getfield⟩

theorem spells_putfield (i : UInt16) : Spells size pc (Encode.putfield i) (.putfield i) :=
  ⟨_, Word.bytes16 i, rfl, fun rest => withWord_bytes16 i rest .putfield⟩

theorem spells_invokespecial (i : UInt16) :
    Spells size pc (Encode.invokespecial i) (.invokespecial ⟨i, none⟩) :=
  ⟨_, Word.bytes16 i, rfl, fun rest => withWord_bytes16 i rest fun w => .invokespecial ⟨w, none⟩⟩

theorem spells_invokeinterface (i : UInt16) {slots : UInt8} (h : slots ≠ 0) :
    Spells size pc (Encode.invokeinterface i slots) (.invokeinterface ⟨i, some slots⟩) := by
  refine ⟨_, Word.bytes16 i ++ [slots, 0], rfl, fun rest => ?_⟩
  have hread : withInterfaceCall (Word.bytes16 i ++ [slots, 0] ++ rest) =
      .ok (.invokeinterface ⟨i, some slots⟩, 4) := by
    have hi := Word.ofBytes16_bytes16 i
    simp [Word.bytes16, withInterfaceCall, hi, h]
  exact hread

/-- The distance of a jump forwards, within its reach, is read as it was meant. -/
theorem withJump_bytes16 {delta : Nat} (hreach : delta ≤ 32767) (hsize : pc + delta < size)
    (rest : List UInt8) (make : Nat → Decoded) :
    withJump size pc (Word.bytes16 (UInt16.ofNat delta) ++ rest) make =
      .ok (make (pc + delta), 2) := by
  have hw := Word.ofBytes16_bytes16 (UInt16.ofNat delta)
  have hsigned : (UInt16.ofNat delta).toInt16.toInt = delta := by
    show (UInt16.ofNat delta).toBitVec.toInt = delta
    rw [BitVec.toInt_eq_toNat_of_lt]
    · simp
      omega
    · simp
      omega
  simp only [Word.bytes16, withJump, List.cons_append, List.nil_append, hw, hsigned]
  rw [if_pos (by omega)]
  rfl

theorem spells_ifne {delta : Nat} (hreach : delta ≤ 32767) (hsize : pc + delta < size) :
    Spells size pc (Opcode.ifne :: Word.bytes16 (UInt16.ofNat delta)) (.ifZero .ne (pc + delta)) :=
  ⟨_, _, rfl, fun rest => withJump_bytes16 hreach hsize rest (.ifZero .ne)⟩

/-- A small constant survives in one byte. -/
theorem toInt32_toInt8 {v : Int32} (h0 : 0 ≤ v) (h1 : v ≤ 127) :
    v.toInt8.toUInt8.toInt8.toInt32 = v := by
  rw [Int32.le_iff_toInt_le] at h0 h1
  have e0 : (0 : Int32).toInt = 0 := rfl
  have e1 : (127 : Int32).toInt = 127 := rfl
  rw [← Int32.toInt_inj, Int8.toInt8_toUInt8, Int8.toInt_toInt32, Int32.toInt_toInt8,
    Int.bmod_eq_of_le] <;> omega

/-- A larger one survives in two. -/
theorem toInt32_toInt16 {v : Int32} (h0 : -32768 ≤ v) (h1 : v ≤ 32767) : v.toInt16.toInt32 = v := by
  rw [Int32.le_iff_toInt_le] at h0 h1
  have e0 : (-32768 : Int32).toInt = -32768 := rfl
  have e1 : (32767 : Int32).toInt = 32767 := rfl
  rw [← Int32.toInt_inj, Int16.toInt_toInt32, Int32.toInt_toInt16, Int.bmod_eq_of_le] <;> omega

/-- A constant is read as its low sixteen bits, with their sign. -/
theorem spells_pushLow (v : Int32) :
    Spells size pc (Encode.pushInt v) (.push v.toInt16.toInt32) := by
  unfold Encode.pushInt
  split
  · rename_i h
    have hv : v = -1 ∨ v = 0 ∨ v = 1 ∨ v = 2 ∨ v = 3 ∨ v = 4 ∨ v = 5 := by
      obtain ⟨h0, h5⟩ := h
      rw [Int32.le_iff_toInt_le] at h0 h5
      have e0 : (-1 : Int32).toInt = -1 := rfl
      have e5 : (5 : Int32).toInt = 5 := rfl
      simp only [← Int32.toInt_inj]
      show v.toInt = -1 ∨ v.toInt = 0 ∨ v.toInt = 1 ∨ v.toInt = 2 ∨ v.toInt = 3 ∨ v.toInt = 4 ∨
        v.toInt = 5
      omega
    rcases hv with rfl | rfl | rfl | rfl | rfl | rfl | rfl <;> exact spells_single fun _ => rfl
  · split
    · rename_i h
      refine ⟨_, [v.toInt8.toUInt8], rfl, fun rest => ?_⟩
      have hlow : v.toInt16.toInt32 = v := by
        refine toInt32_toInt16 (Int32.le_trans ?_ h.1) (Int32.le_trans h.2 ?_) <;> decide
      have hread : withByte ([v.toInt8.toUInt8] ++ rest) (fun a => .push a.toInt8.toInt32) =
          .ok (.push v.toInt16.toInt32, 1) := by
        rw [List.cons_append, withByte, toInt32_toInt8 h.1 h.2, hlow]
      exact hread
    · refine ⟨_, Word.bytes16 v.toInt16.toUInt16, rfl, fun rest => ?_⟩
      have hread := withWord_bytes16 v.toInt16.toUInt16 rest fun w => .push w.toInt16.toInt32
      rw [Int16.toInt16_toUInt16] at hread
      exact hread

/-- A constant is read as it was written, if two bytes can hold it. -/
theorem spells_pushInt {v : Int32} (h0 : 0 ≤ v) (h1 : v ≤ 32767) :
    Spells size pc (Encode.pushInt v) (.push v) := by
  have hlow : v.toInt16.toInt32 = v := toInt32_toInt16 (Int32.le_trans (by decide) h0) h1
  have h : Spells size pc (Encode.pushInt v) (.push v.toInt16.toInt32) := spells_pushLow v
  rwa [hlow] at h

end Code

/-! ## 3. All instructions -/

/-- Instructions in order, each with its bytes. -/
abbrev CodeText : Type := List (List UInt8 × Decoded)

namespace CodeText

/-- The whole code. -/
def bytes (t : CodeText) : List UInt8 := t.flatMap Prod.fst

/-- The instructions, each where it stands if the first one stands at `pc`. -/
def listing : Nat → CodeText → Listing
  | _, [] => []
  | pc, (bs, instr) :: rest => (pc, instr) :: listing (pc + bs.length) rest

/-- Every instruction is spelled as it is read where it stands. -/
def Spelled (size : Nat) : Nat → CodeText → Prop
  | _, [] => True
  | pc, (bs, instr) :: rest => Code.Spells size pc bs instr ∧ Spelled size (pc + bs.length) rest

variable {size pc : Nat} {t u : CodeText}

@[simp] theorem bytes_append : bytes (t ++ u) = bytes t ++ bytes u := List.flatMap_append

theorem listing_append : listing pc (t ++ u) = listing pc t ++ listing (pc + (bytes t).length) u := by
  induction t generalizing pc with
  | nil => rfl
  | cons e t ih =>
    obtain ⟨bs, instr⟩ := e
    simp [listing, bytes, ih, Nat.add_assoc]

theorem spelled_append :
    Spelled size pc (t ++ u) ↔ Spelled size pc t ∧ Spelled size (pc + (bytes t).length) u := by
  induction t generalizing pc with
  | nil => simp [Spelled, bytes]
  | cons e t ih =>
    obtain ⟨bs, instr⟩ := e
    simp [Spelled, bytes, ih, Nat.add_assoc, and_assoc]

/-- The bytes of a text are read as its instructions. -/
theorem decodeAll_bytes (h : Spelled size pc t) (acc : Array (Nat × Decoded)) :
    Code.decodeAll size pc acc (bytes t) = .ok (acc ++ (listing pc t).toArray) := by
  induction t generalizing pc acc with
  | nil =>
    rw [bytes, List.flatMap_nil, Code.decodeAll_nil]
    simp [listing]
  | cons e t ih =>
    obtain ⟨bs, instr⟩ := e
    obtain ⟨⟨opcode, operands, rfl, hread⟩, hrest⟩ := h
    have hbytes : bytes ((opcode :: operands, instr) :: t) = opcode :: (operands ++ bytes t) := rfl
    rw [hbytes, Code.decodeAll_cons (hread _), List.drop_left, Nat.add_assoc, Nat.add_comm 1,
      ← List.length_cons (a := opcode), ih hrest]
    simp [listing]

/-! ## 4. Where instructions begin -/

/-- Every instruction takes at least a byte. -/
def Spaced (t : CodeText) : Prop := ∀ e ∈ t, 0 < e.1.length

theorem spaced_of_spelled (h : Spelled size pc t) : Spaced t := by
  induction t generalizing pc with
  | nil => exact fun e he => absurd he List.not_mem_nil
  | cons e t ih =>
    intro d hd
    rcases List.mem_cons.mp hd with rfl | hd
    · exact h.1.length_pos
    · exact ih h.2 d hd

/-- Instructions stand between the beginning and the end of their code. -/
theorem bounds_of_mem_listing (ht : Spaced t) {e : Nat × Decoded} (he : e ∈ listing pc t) :
    pc ≤ e.1 ∧ e.1 < pc + (bytes t).length := by
  induction t generalizing pc with
  | nil => exact absurd he List.not_mem_nil
  | cons d t ih =>
    obtain ⟨bs, instr⟩ := d
    have hpos : 0 < bs.length := ht (bs, instr) List.mem_cons_self
    have hlength : (bytes ((bs, instr) :: t)).length = bs.length + (bytes t).length := by
      simp [bytes]
    rcases List.mem_cons.mp he with rfl | he
    · dsimp only
      omega
    · have hrest := ih (fun d hd => ht d (List.mem_cons_of_mem _ hd)) he
      omega

theorem exists_of_mem_listing {e : Nat × Decoded} (he : e ∈ listing pc t) :
    ∃ d ∈ t, d.2 = e.2 := by
  induction t generalizing pc with
  | nil => exact absurd he List.not_mem_nil
  | cons d t ih =>
    rcases List.mem_cons.mp he with rfl | he
    · exact ⟨d, List.mem_cons_self, rfl⟩
    · obtain ⟨d', hd, hde⟩ := ih he
      exact ⟨d', List.mem_cons_of_mem _ hd, hde⟩

/-- What stands behind an offset does not change the entry of the offset. -/
theorem indexAt_indexOnto_of_lt {l : Listing} {offset : Nat} (h : ∀ e ∈ l, offset < e.1)
    (table : Array (Option Nat)) (i : Nat) :
    indexAt (Listing.indexOnto table i l) offset = indexAt table offset := by
  induction l generalizing table i with
  | nil => rfl
  | cons e l ih =>
    obtain ⟨pc, instr⟩ := e
    have hne : pc ≠ offset := by
      have := h (pc, instr) List.mem_cons_self
      dsimp only at this
      omega
    rw [Listing.indexOnto, ih fun e he => h e (List.mem_cons_of_mem _ he)]
    rw [indexAt, Array.getElem?_setIfInBounds_ne hne, indexAt]

/-- The table of beginnings finds the instruction behind `t`. -/
theorem indexAt_indexOnto_append (ht : Spaced (t ++ u)) (hu : u ≠ [])
    (table : Array (Option Nat)) (pc i : Nat) (hsize : pc + (bytes (t ++ u)).length ≤ table.size) :
    indexAt (Listing.indexOnto table i (listing pc (t ++ u))) (pc + (bytes t).length) =
      some (i + t.length) := by
  induction t generalizing pc i table with
  | nil =>
    obtain ⟨⟨bs, instr⟩, u, rfl⟩ := List.exists_cons_of_ne_nil hu
    have hpos : 0 < bs.length := ht (bs, instr) List.mem_cons_self
    have hlength : (bytes ([] ++ (bs, instr) :: u)).length = bs.length + (bytes u).length := by
      simp [bytes]
    have hbehind : ∀ e ∈ listing (pc + bs.length) u, pc < e.1 := by
      intro e he
      have hrest := bounds_of_mem_listing (fun d hd => ht d (List.mem_cons_of_mem _ hd)) he
      omega
    show indexAt (Listing.indexOnto _ _ (listing (pc + bs.length) u)) pc = some i
    rw [indexAt_indexOnto_of_lt hbehind, indexAt,
      Array.getElem?_setIfInBounds_self_of_lt (by omega)]
    rfl
  | cons e t ih =>
    obtain ⟨bs, instr⟩ := e
    have hlength : ∀ v : CodeText, (bytes ((bs, instr) :: v)).length = bs.length + (bytes v).length :=
      fun v => by simp [bytes]
    have hrest : Spaced (t ++ u) := fun d hd => ht d (List.mem_cons_of_mem _ hd)
    rw [List.cons_append, hlength] at hsize
    have hih := ih hrest (table.setIfInBounds pc (some i)) (pc + bs.length) (i + 1)
      (by rw [Array.size_setIfInBounds]; omega)
    rw [hlength, List.cons_append, listing, Listing.indexOnto, ← Nat.add_assoc, hih,
      List.length_cons]
    congr 1
    omega

/-- **The table of beginnings finds every instruction.** -/
theorem indexAt_listing (ht : Spaced (t ++ u)) (hu : u ≠ []) :
    indexAt (Listing.indexTable (bytes (t ++ u)).length (listing 0 (t ++ u))) (bytes t).length =
      some t.length := by
  have h := indexAt_indexOnto_append ht hu (Array.replicate (bytes (t ++ u)).length none) 0 0
    (by simp)
  rwa [Nat.zero_add, Nat.zero_add] at h

theorem checkTargets_eq {table : Array (Option Nat)} {l : Listing}
    (h : ∀ e ∈ l, ∀ target, e.2.target? = some target → (indexAt table target).isSome = true) :
    Code.checkTargets table l = .ok () := by
  induction l with
  | nil => rfl
  | cons e l ih =>
    obtain ⟨pc, instr⟩ := e
    have hrest := ih fun e he => h e (List.mem_cons_of_mem _ he)
    rw [Code.checkTargets]
    split
    · exact hrest
    · rename_i target htarget
      rw [if_pos (h (pc, instr) List.mem_cons_self target htarget)]
      exact hrest

/-- **Reading the bytes of a text gives its instructions**, if its jumps land on instructions. -/
theorem decode_bytes (h : Spelled (bytes t).length 0 t)
    (htargets : ∀ e ∈ t, ∀ target, e.2.target? = some target →
      ∃ v w, t = v ++ w ∧ w ≠ [] ∧ target = (bytes v).length) :
    Code.decode (bytes t) = .ok (listing 0 t) := by
  have hcheck : Code.checkTargets (Listing.indexTable (bytes t).length (listing 0 t))
      (listing 0 t) = .ok () := by
    refine checkTargets_eq fun e he target htarget => ?_
    obtain ⟨d, hd, hde⟩ := exists_of_mem_listing he
    obtain ⟨v, w, rfl, hw, rfl⟩ := htargets d hd target (hde ▸ htarget)
    rw [indexAt_listing (spaced_of_spelled h) hw]
    rfl
  unfold Code.decode
  dsimp only
  rw [decodeAll_bytes h, Array.empty_append]
  dsimp only
  rw [hcheck]

end CodeText

/-! ## 5. The table of beginnings -/

theorem indexAt_indexOnto {listing : Listing} {table : Array (Option Nat)} {i offset j : Nat}
    (h : indexAt (Listing.indexOnto table i listing) offset = some j) :
    indexAt table offset = some j ∨ ∃ k instr, j = i + k ∧ listing[k]? = some (offset, instr) := by
  induction listing generalizing table i with
  | nil => exact Or.inl h
  | cons entry rest ih =>
    obtain ⟨pc, instr⟩ := entry
    rcases ih h with ht | ⟨k, instr', rfl, hk⟩
    · by_cases he : pc = offset ∧ pc < table.size
      · obtain ⟨rfl, hlt⟩ := he
        refine Or.inr ⟨0, instr, ?_, rfl⟩
        simpa [indexAt, Array.getElem?_setIfInBounds, hlt, eq_comm] using ht
      · refine Or.inl ?_
        rw [indexAt, Array.getElem?_setIfInBounds] at ht
        split at ht
        · rename_i ho
          split at ht
          · rename_i hlt
            exact absurd ⟨ho, hlt⟩ he
          · cases ht
        · exact ht
    · exact Or.inr ⟨k + 1, instr', by omega, hk⟩

/-- **The number that a table gives for an offset is that of the instruction there.** -/
theorem getElem?_of_indexAt {size offset j : Nat} {listing : Listing}
    (h : indexAt (Listing.indexTable size listing) offset = some j) :
    ∃ instr, listing[j]? = some (offset, instr) := by
  rcases indexAt_indexOnto h with ht | ⟨k, instr, rfl, hk⟩
  · rw [indexAt, Array.getElem?_replicate] at ht
    split at ht <;> cases ht
  · exact ⟨instr, by rw [Nat.zero_add]; exact hk⟩

namespace Code

theorem isSome_of_checkTargets {table : Array (Option Nat)} {listing : Listing}
    (h : checkTargets table listing = .ok ()) :
    ∀ d ∈ listing, ∀ target, d.2.target? = some target → (indexAt table target).isSome := by
  induction listing with
  | nil => exact fun d hd => absurd hd List.not_mem_nil
  | cons entry rest ih =>
    obtain ⟨pc, instr⟩ := entry
    unfold checkTargets at h
    split at h
    · rename_i hnone
      intro d hd target htarget
      rcases List.mem_cons.mp hd with rfl | hd
      · rw [hnone] at htarget
        cases htarget
      · exact ih h d hd target htarget
    · rename_i target' hsome
      split at h
      · rename_i hindex
        intro d hd target htarget
        rcases List.mem_cons.mp hd with rfl | hd
        · rw [hsome] at htarget
          cases htarget
          exact hindex
        · exact ih h d hd target htarget
      · cases h

end Code

end Collation
