/-
  File:      Collation/Proofs/Comparator/Checked.lean
  Subject:   The code of the comparing method passes the check.

  Between two keys the frame is always the same: the instance, the right record, the result so far,
  and nothing on the stack.  This is also the one frame that is declared, at the end of the keys,
  if there are jumps to it.

  * `Generator.spelled_compare`, `Generator.decode_compare` -- the code is read as it was meant;
  * `Generator.leads_keys` -- the check goes through the code of all keys;
  * **`Generator.check_compare`** -- the method is accepted;
  * `Generator.binds_compare` -- its instructions are bound.
-/
import Collation.Proofs.Comparator.Text
import Collation.Proofs.Typing.FrameSteps
import Collation.Proofs.Typing.Passing

namespace Collation.Generator

/-! ## 1. The code is read -/

section Reading

variable {pool : Indices} {key : SortKey} {keys : List SortKey} {size pc stop : Nat}

theorem spells_column (hcolumn : key.column.toNat ≤ maxColumn) :
    Code.Spells size pc (Encode.pushInt (Int32.ofNat key.column.toNat))
      (.push (Int32.ofNat key.column.toNat)) := by
  have hmax : maxColumn = 32767 := rfl
  have hvalue : (Int32.ofNat key.column.toNat).toInt = key.column.toNat := by
    rw [Int32.toInt_ofNat_of_lt (by omega)]
  refine Code.spells_pushInt ?_ ?_
  · rw [Int32.le_iff_toInt_le, hvalue]
    exact Int.natCast_nonneg _
  · rw [Int32.le_iff_toInt_le, hvalue]
    show (key.column.toNat : Int) ≤ 32767
    omega

theorem spelled_value (hcolumn : key.column.toNat ≤ maxColumn) (ofLeft : Bool) :
    CodeText.Spelled size pc (valueText pool key ofLeft) := by
  unfold valueText
  refine CodeText.spelled_append.mpr ⟨CodeText.spelled_append.mpr ⟨?_, ?_⟩, ?_⟩
  · cases ofLeft with
    | true => exact ⟨Code.spells_aload 0, Code.spells_getfield _, trivial⟩
    | false => exact ⟨Code.spells_aload 1, trivial⟩
  · exact ⟨spells_column hcolumn, Code.spells_invokeinterface _ (by decide), trivial⟩
  · by_cases hint : key.kind = .int
    · rw [if_pos hint]
      exact ⟨Code.spells_single fun _ => rfl, trivial⟩
    · rw [if_neg hint]
      trivial

theorem spelled_key (hcolumn : key.column.toNat ≤ maxColumn) :
    CodeText.Spelled size pc (keyText pool key) := by
  have hcompare : ∀ pc, Code.Spells size pc [comparisonOpcode key.kind] (comparison key.kind) := by
    intro pc
    cases key.kind <;> exact Code.spells_single fun _ => rfl
  unfold keyText
  refine CodeText.spelled_append.mpr ⟨CodeText.spelled_append.mpr
    ⟨spelled_value hcolumn _, spelled_value hcolumn _⟩, hcompare _, ?_, trivial⟩
  exact Code.spells_istore resultLocal

theorem keysText_cons (next : SortKey) (rest : List SortKey) :
    keysText pool stop (key :: next :: rest) = keyText pool key ++
      (exitText stop (keysBytes pool (next :: rest)).length ++
        keysText pool stop (next :: rest)) := by
  rw [keysText, bytes_keysText]
  rfl

theorem length_exitText (distance : Nat) : (CodeText.bytes (exitText stop distance)).length = 4 := rfl

/-- The code of all keys is read as it was meant, its jumps going to its end. -/
theorem spelled_keys (hcolumns : ∀ key ∈ keys, key.column.toNat ≤ maxColumn)
    (hreach : Reaches pool keys) (hstop : pc + (keysBytes pool keys).length = stop)
    (hsize : stop < size) : CodeText.Spelled size pc (keysText pool stop keys) := by
  induction keys generalizing pc with
  | nil => trivial
  | cons key rest ih =>
    have hcolumn := hcolumns key List.mem_cons_self
    cases rest with
    | nil => exact spelled_key hcolumn
    | cons next rest =>
      have hfar : 3 + (keysBytes pool (next :: rest)).length ≤ 32767 := hreach.resolve_left (by simp)
      have hlength : (keysBytes pool (key :: next :: rest)).length =
          (keyCode pool key).length + 4 + (keysBytes pool (next :: rest)).length := by
        rw [keysBytes_cons]
        have hi : (Encode.iload resultLocal).length = 1 := rfl
        simp only [List.length_append, List.length_cons, Word.length_bytes16, hi]
        omega
      have hrest : CodeText.Spelled size (pc + (keyCode pool key).length + 4)
          (keysText pool stop (next :: rest)) :=
        ih (fun k hk => hcolumns k (List.mem_cons_of_mem _ hk)) hreach.tail (by omega)
      -- the jump stands behind the instruction that loads the result
      have hjump : Code.Spells size (pc + (keyCode pool key).length + 1)
          (Opcode.ifne :: Word.bytes16
            (UInt16.ofNat (3 + (keysBytes pool (next :: rest)).length))) (.ifZero .ne stop) := by
        have htarget : stop = pc + (keyCode pool key).length + 1 +
            (3 + (keysBytes pool (next :: rest)).length) := by omega
        rw [htarget]
        exact Code.spells_ifne hfar (by omega)
      rw [keysText_cons, CodeText.spelled_append, CodeText.spelled_append, bytes_keyText,
        length_exitText]
      exact ⟨spelled_key hcolumn, ⟨Code.spells_iload resultLocal, hjump, trivial⟩, hrest⟩

/-- The only jumps in the code of keys are those to its end. -/
theorem target_keys : ∀ e ∈ keysText pool stop keys, ∀ target,
    e.2.target? = some target → target = stop := by
  have hvalue : ∀ (key : SortKey) (ofLeft : Bool), ∀ e ∈ valueText pool key ofLeft,
      e.2.target? = none := by
    intro key ofLeft
    unfold valueText
    cases ofLeft <;> cases key.kind <;> simp [Instr.target?]
  have hkey : ∀ key : SortKey, ∀ e ∈ keyText pool key, e.2.target? = none := by
    intro key e he
    rcases List.mem_append.mp he with he | he
    · exact (List.mem_append.mp he).elim (hvalue _ _ e) (hvalue _ _ e)
    · have hcompare : (comparison key.kind : Decoded).target? = none := by cases key.kind <;> rfl
      simp only [List.mem_cons, List.not_mem_nil, or_false] at he
      rcases he with rfl | rfl
      · exact hcompare
      · rfl
  induction keys with
  | nil => exact fun e he => absurd he List.not_mem_nil
  | cons key rest ih =>
    cases rest with
    | nil =>
      intro e he target htarget
      rw [hkey key e he] at htarget
      cases htarget
    | cons next rest =>
      intro e he target htarget
      rw [keysText_cons] at he
      rcases List.mem_append.mp he with he | he
      · rw [hkey key e he] at htarget
        cases htarget
      · rcases List.mem_append.mp he with he | he
        · simp only [exitText, List.mem_cons, List.not_mem_nil, or_false] at he
          rcases he with rfl | rfl <;> cases htarget
          rfl
        · exact ih e he target htarget

end Reading

/-! ## 2. The code is checked -/

/-- The reference to the accessor of a kind. -/
def accessorRef (kind : ColumnKind) : MemberRef :=
  ⟨.interfaceMethod, recordClass, kind.accessorName, kind.accessorDescriptor⟩

/-- The class around the code has what the code refers to. -/
structure Provides (file : ClassFile) (pool : Indices) (kinds : List ColumnKind) : Prop where
  left : file.pool.IsMember pool.left ⟨.field, file.thisClass, "left", recordDescriptor⟩
  accessor : ∀ kind ∈ kinds, file.pool.IsMember (pool.method kind) (accessorRef kind)
  slot : file.fields.findIdx? (fun f => f.name == "left" && f.type.render == recordDescriptor &&
    !f.flags.isStatic) = some 0

/-- The type in which values of a kind are compared. -/
def comparedType : ColumnKind → SlotType
  | .int | .long => .long
  | .double => .double

/-- The frame of the comparing method between two instructions that leave the stack empty: the
    instance, the right record, and what is in the local of the result. -/
def frameWith (className : String) (result : SlotType) (stack : List SlotType) : Frame :=
  ⟨#[.object className, .object recordClass, result], stack⟩

section Checking

variable {s : Subject} {frames : FrameTable} {pool : Indices} {kinds : List ColumnKind}
  {key : SortKey} {result : SlotType} {stack : List SlotType}

theorem parse_recordDescriptor : FieldType.parse recordDescriptor = .ok (.object recordClass) := by
  decide

/-- One record is put on the stack. -/
theorem leads_record (h : Provides s.file pool kinds) (hstack : s.code.maxStack = 4)
    (hdepth : (frameWith s.file.thisClass result stack).depth ≤ 2) (ofLeft : Bool) :
    s.Leads frames
      (if ofLeft then [(Encode.aload 0, .aload 0), (Encode.getfield pool.left, .getfield pool.left)]
        else [(Encode.aload 1, .aload 1)])
      (frameWith s.file.thisClass result stack)
      (frameWith s.file.thisClass result (.object recordClass :: stack)) := by
  have hroom : ∀ name : String, (SlotType.object name).width +
      (frameWith s.file.thisClass result stack).depth ≤ s.code.maxStack.toNat := by
    intro name
    rw [hstack]
    show 1 + _ ≤ 4
    omega
  cases ofLeft with
  | true =>
    refine .cons (fun _ => Subject.checkInstr_aload rfl rfl (hroom _)) rfl
      (.cons (fun _ => ?_) rfl Subject.leads_nil)
    exact Subject.checkInstr_getfield h.left parse_recordDescriptor (hroom _)
  | false => exact .cons (fun _ => Subject.checkInstr_aload rfl rfl (hroom _)) rfl Subject.leads_nil

/-- One column is put on the stack, an integer as a long one. -/
theorem leads_value (h : Provides s.file pool kinds) (hstack : s.code.maxStack = 4)
    (hkind : key.kind ∈ kinds)
    (hdepth : (frameWith s.file.thisClass result stack).depth ≤ 2) (ofLeft : Bool) :
    s.Leads frames (valueText pool key ofLeft) (frameWith s.file.thisClass result stack)
      (frameWith s.file.thisClass result (comparedType key.kind :: stack)) := by
  have hfour : s.code.maxStack.toNat = 4 := by rw [hstack]; rfl
  have hrecord : (frameWith s.file.thisClass result (.object recordClass :: stack)).depth =
      1 + (frameWith s.file.thisClass result stack).depth := Subject.depth_cons
  have hcolumn : ∀ pc, s.checkInstr frames
      (frameWith s.file.thisClass result (.object recordClass :: stack)) pc
      (.push (Int32.ofNat key.column.toNat)) =
      .ok (frameWith s.file.thisClass result (.int :: .object recordClass :: stack)) := by
    intro pc
    refine Subject.checkInstr_push ?_
    show 1 + (frameWith s.file.thisClass result (.object recordClass :: stack)).depth ≤ _
    omega
  have hwidth : ∀ b : BaseType, (SlotType.ofField (.base b)).width ≤ 2 := by
    intro b
    cases b <;> decide
  have hcall : ∀ pc, s.checkInstr frames
      (frameWith s.file.thisClass result (.int :: .object recordClass :: stack)) pc
      (.invokeinterface ⟨pool.method key.kind, some 2⟩) =
      .ok (frameWith s.file.thisClass result (.ofField (.base key.kind.base) :: stack)) := by
    intro pc
    rw [Subject.checkInstr_invokeinterface (h.accessor _ hkind)
      (ColumnKind.parse_accessorDescriptor key.kind)]
    refine congrArg Subject.codeDefect (Subject.checkCall_eq (Subject.assignable_refl _) rfl
      fun r hr => ?_)
    cases hr
    have hbase := hwidth key.kind.base
    show _ + (frameWith s.file.thisClass result stack).depth ≤ _
    omega
  have hwiden : s.Leads frames (if key.kind = .int then [([Opcode.i2l], .i2l)] else [])
      (frameWith s.file.thisClass result (.ofField (.base key.kind.base) :: stack))
      (frameWith s.file.thisClass result (comparedType key.kind :: stack)) := by
    cases hk : key.kind with
    | int =>
      refine .cons (fun _ => Subject.checkInstr_i2l ?_) rfl Subject.leads_nil
      show 2 + (frameWith s.file.thisClass result stack).depth ≤ _
      omega
    | long => exact Subject.leads_nil
    | double => exact Subject.leads_nil
  unfold valueText
  exact ((leads_record h hstack hdepth ofLeft).append (.cons hcolumn rfl (.cons hcall rfl Subject.leads_nil))).append
    hwiden

/-- The code of a key leaves an integer in the local of the result. -/
theorem leads_key (h : Provides s.file pool kinds) (hstack : s.code.maxStack = 4)
    (hkind : key.kind ∈ kinds) :
    s.Leads frames (keyText pool key) (frameWith s.file.thisClass result [])
      (frameWith s.file.thisClass .int []) := by
  have hfour : s.code.maxStack.toNat = 4 := by rw [hstack]; rfl
  have hnone : (frameWith s.file.thisClass result []).depth ≤ 2 := Nat.zero_le 2
  have hone : (frameWith s.file.thisClass result [comparedType key.kind]).depth ≤ 2 := by
    cases key.kind <;> exact Nat.le_refl 2
  have hcompare : ∀ pc, s.checkInstr frames
      (frameWith s.file.thisClass result [comparedType key.kind, comparedType key.kind]) pc
      (comparison key.kind) = .ok (frameWith s.file.thisClass result [.int]) := by
    intro pc
    have hroom : SlotType.int.width + (frameWith s.file.thisClass result []).depth ≤
        s.code.maxStack.toNat := by
      rw [hfour]
      exact Nat.le_of_ble_eq_true rfl
    cases key.kind with
    | int => exact Subject.checkInstr_lcmp hroom
    | long => exact Subject.checkInstr_lcmp hroom
    | double => exact Subject.checkInstr_dcmp hroom
  have hstore : ∀ pc, s.checkInstr frames (frameWith s.file.thisClass result [.int]) pc
      (.istore 2) = .ok (frameWith s.file.thisClass .int []) := fun _ =>
    Subject.checkInstr_istore (Nat.lt_succ_self 2) rfl
  have hnext : (comparison key.kind : Decoded).isUnconditional = false := by
    cases key.kind <;> rfl
  unfold keyText
  exact ((leads_value h hstack hkind hnone _).append
    (leads_value h hstack hkind hone _)).append (.cons hcompare hnext (.cons hstore rfl Subject.leads_nil))

/-- **The check goes through the code of all keys**, whose end is declared if there are jumps to it. -/
theorem leads_keys (h : Provides s.file pool kinds) (hstack : s.code.maxStack = 4) {stop : Nat}
    (keys : List SortKey) (hkinds : ∀ key ∈ keys, key.kind ∈ kinds) (hne : keys ≠ [])
    (hframe : 2 ≤ keys.length → frames.at? stop = some (frameWith s.file.thisClass .int [])) :
    s.Leads frames (keysText pool stop keys) (frameWith s.file.thisClass result [])
      (frameWith s.file.thisClass .int []) := by
  induction keys generalizing result with
  | nil => exact absurd rfl hne
  | cons key rest ih =>
    have hkey := hkinds key List.mem_cons_self
    cases rest with
    | nil => exact leads_key h hstack hkey
    | cons next rest =>
      have hdeclared := hframe (by simp)
      have hload : ∀ pc, s.checkInstr frames (frameWith s.file.thisClass .int []) pc (.iload 2) =
          .ok (frameWith s.file.thisClass .int [.int]) := fun _ =>
        Subject.checkInstr_iload rfl (by rw [hstack]; exact Nat.le_of_ble_eq_true rfl)
      have hjump : ∀ pc, s.checkInstr frames (frameWith s.file.thisClass .int [.int]) pc
          (.ifZero .ne stop) = .ok (frameWith s.file.thisClass .int []) := fun _ =>
        Subject.checkInstr_ifZero hdeclared
      rw [keysText_cons]
      refine (leads_key h hstack hkey).append (.append (.cons hload rfl (.cons hjump rfl Subject.leads_nil)) ?_)
      exact ih (fun k hk => hkinds k (List.mem_cons_of_mem _ hk)) (by simp) fun _ => hdeclared

/-- The subject is the comparing method for some keys. -/
structure IsCompare (s : Subject) (pool : Indices) (keys : List SortKey) : Prop where
  type : s.method.type = ⟨[.object recordClass], some (.base .int)⟩
  isStatic : s.method.flags.isStatic = false
  code : ∃ offset, s.code = (compareMethod pool keys).codeBody offset

namespace IsCompare

variable {keys : List SortKey}

theorem bytes_eq (h : IsCompare s pool keys) :
    s.code.bytes = CodeText.bytes (compareText pool keys) := by
  obtain ⟨offset, hcode⟩ := h.code
  rw [hcode]
  rfl

theorem maxStack_eq (h : IsCompare s pool keys) : s.code.maxStack = 4 := by
  obtain ⟨offset, hcode⟩ := h.code
  rw [hcode]
  rfl

theorem stackMap_eq (h : IsCompare s pool keys) : s.code.stackMap =
    ((place pool 0 none keys).map fun stop => FrameDelta.append (UInt16.ofNat stop) [.int]).toList := by
  obtain ⟨offset, hcode⟩ := h.code
  rw [hcode]
  show ((place pool 0 none keys).map _).elim [] FrameText.deltas = _
  cases place pool 0 none keys <;> rfl

theorem entryTypes_eq (h : IsCompare s pool keys) :
    s.file.entryTypes s.method = [.object s.file.thisClass, .object recordClass] := by
  unfold ClassFile.entryTypes
  rw [h.type, h.isStatic]
  rfl

theorem layOut_entry (h : IsCompare s pool keys) :
    Frame.layOut s.code (s.file.entryTypes s.method) [] =
      .ok (frameWith s.file.thisClass .top []) := by
  obtain ⟨offset, hcode⟩ := h.code
  rw [h.entryTypes_eq, hcode]
  rfl

/-- The frame of the stack map is the one between two keys. -/
theorem layOut_joint (h : IsCompare s pool keys) :
    Frame.layOut s.code [.object s.file.thisClass, .object recordClass, .int] [] =
      .ok (frameWith s.file.thisClass .int []) := by
  obtain ⟨offset, hcode⟩ := h.code
  rw [hcode]
  rfl

theorem check_ireturn (h : IsCompare s pool keys) (pc : Nat) :
    s.checkInstr frames (frameWith s.file.thisClass result [.int]) pc .ireturn =
      .ok (frameWith s.file.thisClass result []) := by
  have hstep : s.checkInstr frames (frameWith s.file.thisClass result [.int]) pc .ireturn =
      Subject.codeDefect
        (s.file.popExpecting (frameWith s.file.thisClass result [.int]) .int) := by
    unfold Subject.checkInstr
    dsimp only
    rw [h.type]
    rfl
  rw [hstep]
  exact congrArg Subject.codeDefect Subject.popExpecting_self

end IsCompare

variable {keys : List SortKey}

theorem compareText_of_ne_nil (hne : keys ≠ []) : compareText pool keys =
    keysText pool (keysBytes pool keys).length keys ++ resultText := by
  cases keys with
  | nil => exact absurd rfl hne
  | cons key rest => rfl

theorem length_keysText {stop : Nat} :
    (CodeText.bytes (keysText pool stop keys)).length = (keysBytes pool keys).length := by
  rw [bytes_keysText]
  rfl

theorem spelled_compare (hcolumns : ∀ key ∈ keys, key.column.toNat ≤ maxColumn)
    (hreach : Reaches pool keys) :
    CodeText.Spelled (CodeText.bytes (compareText pool keys)).length 0 (compareText pool keys) := by
  cases keys with
  | nil => exact ⟨Code.spells_pushInt (by decide) (by decide), Code.spells_single fun _ => rfl, trivial⟩
  | cons key rest =>
    rw [compareText_of_ne_nil (List.cons_ne_nil key rest), CodeText.spelled_append]
    refine ⟨spelled_keys hcolumns hreach (Nat.zero_add _) ?_, Code.spells_iload resultLocal,
      Code.spells_single fun _ => rfl, trivial⟩
    rw [CodeText.bytes_append, List.length_append, length_keysText]
    exact Nat.lt_add_of_pos_right (Nat.zero_lt_succ 1)

/-- The end of the keys is where the last two instructions begin. -/
theorem target_compare (hne : keys ≠ []) : ∀ e ∈ compareText pool keys, ∀ target,
    e.2.target? = some target → target = (keysBytes pool keys).length := by
  rw [compareText_of_ne_nil hne]
  intro e he target htarget
  rcases List.mem_append.mp he with he | he
  · exact target_keys e he target htarget
  · simp only [resultText, List.mem_cons, List.not_mem_nil, or_false] at he
    rcases he with rfl | rfl <;> cases htarget

theorem decode_compare (hne : keys ≠ [])
    (hcolumns : ∀ key ∈ keys, key.column.toNat ≤ maxColumn) (hreach : Reaches pool keys) :
    Code.decode (CodeText.bytes (compareText pool keys)) =
      .ok (CodeText.listing 0 (compareText pool keys)) := by
  refine CodeText.decode_bytes (spelled_compare hcolumns hreach) fun e he target htarget => ?_
  refine ⟨_, _, compareText_of_ne_nil hne, List.cons_ne_nil _ _, ?_⟩
  rw [length_keysText]
  exact target_compare hne e he target htarget

/-- The index of the end of the keys, in the table of beginnings. -/
theorem indexAt_stop (hne : keys ≠ []) (hcolumns : ∀ key ∈ keys, key.column.toNat ≤ maxColumn)
    (hreach : Reaches pool keys) :
    indexAt (Listing.indexTable (CodeText.bytes (compareText pool keys)).length
      (CodeText.listing 0 (compareText pool keys))) (keysBytes pool keys).length =
      some (keysText pool (keysBytes pool keys).length keys).length := by
  have hspaced := CodeText.spaced_of_spelled (spelled_compare hcolumns hreach)
  rw [compareText_of_ne_nil hne] at hspaced ⊢
  have hindex := CodeText.indexAt_listing hspaced (List.cons_ne_nil _ _)
  rwa [length_keysText] at hindex

/-- The declared frames: none but the one at the end of the keys, if there are jumps to it. -/
theorem exists_frames (h : IsCompare s pool keys) (hne : keys ≠ [])
    (hcolumns : ∀ key ∈ keys, key.column.toNat ≤ maxColumn) (hreach : Reaches pool keys) :
    ∃ frames, s.file.declaredFrames s.method s.code
        (CodeText.listing 0 (compareText pool keys)) = .ok frames ∧
      (∀ o, o ≠ (keysBytes pool keys).length → frames.at? o = none) ∧
      (2 ≤ keys.length → frames.at? (keysBytes pool keys).length =
        some (frameWith s.file.thisClass .int [])) ∧
      s.frameAt frames (some (frameWith s.file.thisClass .int [])) (keysBytes pool keys).length =
        .ok (frameWith s.file.thisClass .int []) := by
  unfold ClassFile.declaredFrames
  dsimp only
  rw [h.stackMap_eq, h.entryTypes_eq]
  cases keys with
  | nil => exact absurd rfl hne
  | cons key rest =>
    cases rest with
    | nil =>
      refine ⟨_, rfl, fun o _ => Subject.at?_replicate _ o, fun hlength => ?_, ?_⟩
      · exact absurd hlength (by simp)
      · unfold Subject.frameAt
        rw [Subject.at?_replicate]
    | cons next rest =>
      have hlength := length_keysBytes_lt hreach
      have hsize : (keysBytes pool (key :: next :: rest)).length < s.code.bytes.length := by
        rw [h.bytes_eq, bytes_compareText rfl, List.length_append]
        exact Nat.lt_add_of_pos_right (Nat.zero_lt_succ 1)
      have hoffset : (UInt16.ofNat (0 + (keysBytes pool (key :: next :: rest)).length)).toNat =
          (keysBytes pool (key :: next :: rest)).length := by
        rw [UInt16.toNat_ofNat']
        omega
      have hindex : indexAt (Listing.indexTable s.code.bytes.length
          (CodeText.listing 0 (compareText pool (key :: next :: rest))))
          (UInt16.ofNat (0 + (keysBytes pool (key :: next :: rest)).length)).toNat =
          some (keysText pool (keysBytes pool (key :: next :: rest)).length
            (key :: next :: rest)).length := by
        rw [hoffset, h.bytes_eq]
        exact indexAt_stop hne hcolumns hreach
      have henter : FrameTable.enter s.code _ [.object s.file.thisClass, .object recordClass] none
          (Array.replicate s.code.bytes.length none) _ = .ok _ :=
        Subject.enter_append hindex h.layOut_joint
      rw [hoffset] at henter
      have hat : ∀ o, FrameTable.at? ((Array.replicate s.code.bytes.length none).setIfInBounds
          (keysBytes pool (key :: next :: rest)).length
          (some (frameWith s.file.thisClass .int []))) o = _ :=
        Subject.at?_setIfInBounds (by simpa using hsize)
      have hstop := (hat _).trans (if_pos rfl)
      refine ⟨_, henter, fun o ho => ?_, fun _ => hstop, ?_⟩
      · rw [hat, if_neg ho]
        exact Subject.at?_replicate _ o
      · unfold Subject.frameAt
        rw [hstop]
        exact if_pos (Subject.frameAssignable_refl _)

/-- **The comparing method is accepted.** -/
theorem check_compare (h : IsCompare s pool keys) (hprovides : Provides s.file pool kinds)
    (hkinds : ∀ key ∈ keys, key.kind ∈ kinds)
    (hcolumns : ∀ key ∈ keys, key.column.toNat ≤ maxColumn) (hreach : Reaches pool keys) :
    s.check = .ok (CodeText.listing 0 (compareText pool keys)) := by
  have hspelled := spelled_compare hcolumns hreach
  by_cases hne : keys = []
  · subst hne
    have hpush : ∀ frames pc, s.checkInstr frames (frameWith s.file.thisClass .top []) pc
        (.push 0) = .ok (frameWith s.file.thisClass .top [.int]) := fun _ _ =>
      Subject.checkInstr_push (by rw [h.maxStack_eq]; exact Nat.le_of_ble_eq_true rfl)
    refine Subject.check_straight (t := [(Encode.pushInt 0, .push 0)]) h.bytes_eq h.stackMap_eq
      hspelled ?_ h.layOut_entry (fun frames => .cons (hpush frames) rfl Subject.leads_nil)
      (fun _ pc => h.check_ireturn pc) rfl
    simp [Instr.target?]
  · obtain ⟨frames, hframes, hnone, hdeclared, hat⟩ := exists_frames h hne hcolumns hreach
    have hdecode := decode_compare hne hcolumns hreach
    have hbytes := h.bytes_eq
    have hlength : ∀ stop, (CodeText.bytes (keysText pool stop keys)).length =
        (keysBytes pool keys).length := fun _ => length_keysText
    rw [compareText_of_ne_nil hne] at hframes hdecode hbytes hspelled ⊢
    refine Subject.check_bytes hbytes hdecode hframes h.layOut_entry ?_
    have hspaced : CodeText.Spaced (keysText pool (keysBytes pool keys).length keys) := fun e he =>
      CodeText.spaced_of_spelled hspelled e (List.mem_append_left _ he)
    have hleads : s.Leads frames (keysText pool (keysBytes pool keys).length keys)
        (frameWith s.file.thisClass .top []) (frameWith s.file.thisClass .int []) :=
      leads_keys hprovides h.maxStack_eq keys hkinds hne hdeclared
    have hkeys : s.Passes frames 0 _ _ _ :=
      hleads.passes hspaced fun o _ ho => hnone o (by rw [hlength] at ho; omega)
    have hload : s.checkInstr frames (frameWith s.file.thisClass .int [])
        (keysBytes pool keys).length (.iload 2) = .ok (frameWith s.file.thisClass .int [.int]) :=
      Subject.checkInstr_iload rfl (by rw [h.maxStack_eq]; exact Nat.le_of_ble_eq_true rfl)
    have hresult : s.Passes frames (keysBytes pool keys).length
        [(Encode.iload resultLocal, .iload 2)] _ _ := Subject.passes_single hat hload rfl
    have hend : s.frameAt frames (some (frameWith s.file.thisClass .int [.int]))
        ((keysBytes pool keys).length + 1) = .ok (frameWith s.file.thisClass .int [.int]) := by
      unfold Subject.frameAt
      rw [hnone _ (Nat.succ_ne_self _)]
    rw [CodeText.listing_append, hkeys, hlength, Nat.zero_add]
    refine (hresult _).trans ?_
    exact Subject.checkFrom_last hend (h.check_ireturn _) rfl

end Checking

/-! ## 3. The code is bound -/

/-- The bound code that pushes one of the records. -/
def recordBound (ofLeft : Bool) : List Bound :=
  if ofLeft then [.aload 0, .getfield 0] else [.aload 1]

/-- The bound code that widens a value of a kind. -/
def widenBound (kind : ColumnKind) : List Bound := if kind = .int then [.i2l] else []

/-- The bound code that pushes a column of one of the records. -/
def valueBound (key : SortKey) (ofLeft : Bool) : List Bound :=
  recordBound ofLeft ++
    [.push (Int32.ofNat key.column.toNat), .invokeinterface (.accessor key.kind)] ++
    widenBound key.kind

/-- The bound code of a key. -/
def keyBound (key : SortKey) : List Bound :=
  valueBound key (!key.descending) ++ valueBound key key.descending ++
    [comparison key.kind, .istore 2]

/-- The bound code of all keys; its jumps lead to the instruction `stop`. -/
def keysBound (stop : Nat) : List SortKey → List Bound
  | [] => []
  | [key] => keyBound key
  | key :: next :: rest =>
    keyBound key ++ ([.iload 2, .ifZero .ne stop] ++ keysBound stop (next :: rest))

/-- The bound code of the comparing method. -/
def compareBound (keys : List SortKey) : List Bound :=
  if keys.isEmpty then [.push 0, .ireturn]
  else keysBound (keysBound 0 keys).length keys ++ [.iload 2, .ireturn]

section Binding

variable {s : Subject} {starts : Array (Option Nat)} {pool : Indices} {kinds : List ColumnKind}
  {key : SortKey} {keys : List SortKey} {stop index : Nat}

theorem bindField_left {file : ClassFile} (h : Provides file pool kinds) (offset : Nat) :
    file.bindField pool.left offset = .ok 0 := by
  have hmember := h.left.member_eq offset
  unfold ClassFile.bindField
  rw [hmember]
  dsimp only
  rw [if_pos rfl, h.slot]

theorem bindMethod_accessor {file : ClassFile} (h : Provides file pool kinds) {kind : ColumnKind}
    (hkind : kind ∈ kinds) (offset : Nat) :
    file.bindMethod .interfaceMethod (pool.method kind) offset = .ok (.accessor kind) := by
  have hmember := (h.accessor kind hkind).member_eq offset
  have hcallee : ClassFile.callee? .interfaceMethod (accessorRef kind) = some (.accessor kind) := by
    cases kind <;> decide
  unfold ClassFile.bindMethod
  rw [show (accessorRef kind).kind = .interfaceMethod from rfl] at hmember
  rw [hmember]
  dsimp only
  rw [hcallee]

theorem binds_value (h : Provides s.file pool kinds) (hkind : key.kind ∈ kinds) (ofLeft : Bool) :
    s.Binds starts (valueText pool key ofLeft) (valueBound key ofLeft) := by
  have hget : ∀ pc, ClassFile.bindInstr s starts pc (.getfield pool.left) = .ok (.getfield 0) := by
    intro pc
    exact congrArg (Except.map Instr.getfield) (bindField_left h _)
  have hcall : ∀ pc, ClassFile.bindInstr s starts pc
      (.invokeinterface ⟨pool.method key.kind, some 2⟩) =
      .ok (.invokeinterface (.accessor key.kind)) := by
    intro pc
    exact congrArg (Except.map Instr.invokeinterface) (bindMethod_accessor h hkind _)
  unfold valueText valueBound recordBound widenBound
  refine .append (.append ?_ (.cons (fun _ => rfl) (.cons hcall .nil))) ?_
  · cases ofLeft with
    | true => exact .cons (fun _ => rfl) (.cons hget .nil)
    | false => exact .cons (fun _ => rfl) .nil
  · by_cases hint : key.kind = .int
    · rw [if_pos hint, if_pos hint]
      exact .cons (fun _ => rfl) .nil
    · rw [if_neg hint, if_neg hint]
      exact .nil

theorem binds_key (h : Provides s.file pool kinds) (hkind : key.kind ∈ kinds) :
    s.Binds starts (keyText pool key) (keyBound key) := by
  have hcompare : ∀ pc, ClassFile.bindInstr s starts pc (comparison key.kind) =
      .ok (comparison key.kind) := by
    intro pc
    cases key.kind <;> rfl
  exact .append (.append (binds_value h hkind _) (binds_value h hkind _))
    (.cons hcompare (.cons (fun _ => rfl) .nil))

theorem binds_keys (h : Provides s.file pool kinds) (hkinds : ∀ key ∈ keys, key.kind ∈ kinds)
    (hstop : indexAt starts stop = some index) :
    s.Binds starts (keysText pool stop keys) (keysBound index keys) := by
  have hjump : ∀ pc, ClassFile.bindInstr s starts pc (.ifZero .ne stop) =
      .ok (.ifZero .ne index) := by
    intro pc
    unfold ClassFile.bindInstr Instr.traverse
    dsimp only
    rw [hstop]
    rfl
  induction keys with
  | nil => exact .nil
  | cons key rest ih =>
    have hkey : s.Binds starts (keyText pool key) (keyBound key) :=
      binds_key h (hkinds key List.mem_cons_self)
    cases rest with
    | nil => exact hkey
    | cons next rest =>
      rw [keysText_cons, keysBound]
      exact .append hkey (.append (.cons (fun _ => rfl) (.cons hjump .nil))
        (ih fun k hk => hkinds k (List.mem_cons_of_mem _ hk)))

theorem length_keysBound : (keysBound stop keys).length = (keysBound 0 keys).length := by
  induction keys with
  | nil => rfl
  | cons key rest ih =>
    cases rest with
    | nil => rfl
    | cons next rest => simp only [keysBound, List.length_append, List.length_cons, ih]

/-- The instructions of the comparing method are bound. -/
theorem binds_compare (h : Provides s.file pool kinds) (hkinds : ∀ key ∈ keys, key.kind ∈ kinds)
    (hcolumns : ∀ key ∈ keys, key.column.toNat ≤ maxColumn) (hreach : Reaches pool keys) :
    s.Binds (Listing.indexTable (CodeText.bytes (compareText pool keys)).length
      (CodeText.listing 0 (compareText pool keys))) (compareText pool keys) (compareBound keys) := by
  by_cases hne : keys = []
  · subst hne
    exact .cons (fun _ => rfl) (.cons (fun _ => rfl) .nil)
  · have hindex := indexAt_stop hne hcolumns hreach
    have hkeys := binds_keys h hkinds hindex
    have hlength : (keysText pool (keysBytes pool keys).length keys).length =
        (keysBound 0 keys).length := hkeys.length_eq.trans length_keysBound
    have hbound : compareBound keys =
        keysBound (keysBound 0 keys).length keys ++ [.iload 2, .ireturn] := by
      cases keys with
      | nil => exact absurd rfl hne
      | cons key rest => rfl
    rw [hlength] at hkeys
    rw [hbound]
    generalize hstarts : Listing.indexTable _ _ = starts at hkeys
    rw [compareText_of_ne_nil hne]
    exact hkeys.append (.cons (fun _ => rfl) (.cons (fun _ => rfl) .nil))

end Binding

end Collation.Generator
